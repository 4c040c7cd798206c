import Mathlib.Algebra.BigOperators.Group.Finset.Basic
import Mathlib.Algebra.BigOperators.Ring.Finset
import Mathlib.Algebra.Order.BigOperators.Group.Finset
import Mathlib.Data.Finset.Basic
import Mathlib.Tactic.Abel

/-!
Tallies: sums of a quantity over the rows of a table that are in use.

A table is a function from row numbers. `put` replaces one row, and the lemmas
say what a tally becomes when a row is replaced, taken into use or given up.
-/

namespace Percolator

variable {α M : Type}

/-- Replace row `i`. -/
def put (t : Nat → α) (i : Nat) (a : α) : Nat → α := fun j => if j = i then a else t j

@[simp] theorem put_same (t : Nat → α) (i : Nat) (a : α) : put t i a i = a := if_pos rfl

theorem put_other (t : Nat → α) {i j : Nat} (a : α) (h : j ≠ i) : put t i a j = t j := if_neg h

theorem put_apply (t : Nat → α) (i : Nat) (a : α) (j : Nat) :
    put t i a j = if j = i then a else t j := rfl

@[simp] theorem put_put (t : Nat → α) (i : Nat) (a b : α) : put (put t i a) i b = put t i b := by
  funext j
  by_cases h : j = i <;> simp [put_apply, h]

@[simp] theorem put_eta (t : Nat → α) (i : Nat) : put t i (t i) = t := by
  funext j
  by_cases h : j = i <;> simp [put_apply, h]

theorem put_comm (t : Nat → α) {i j : Nat} (h : i ≠ j) (a b : α) :
    put (put t i a) j b = put (put t j b) i a := by
  funext k
  by_cases hi : k = i
  · subst hi
    rw [put_same, put_other _ _ h, put_same]
  · by_cases hj : k = j
    · subst hj
      rw [put_same, put_other _ _ hi, put_same]
    · rw [put_other _ _ hj, put_other _ _ hi, put_other _ _ hi, put_other _ _ hj]

/-- A predicate of rows that the new row has and the old table had on `i`'s
place, up to a relation the update keeps. -/
theorem put_forall {t : Nat → α} {i : Nat} {a : α} {P : Nat → α → Prop} (ha : P i a)
    (h : ∀ j, j ≠ i → P j (t j)) (j : Nat) : P j (put t i a j) := by
  by_cases hj : j = i
  · subst hj; simpa using ha
  · rw [put_other t a hj]; exact h j hj

section Sums

variable [AddCommMonoid M] {U : Finset Nat} {t t' : Nat → α} {f : α → M} {i : Nat} {a : α}

/-- The sum of `f` over the rows in `U`. -/
def tally (U : Finset Nat) (t : Nat → α) (f : α → M) : M := ∑ i ∈ U, f (t i)

theorem tally_congr (h : ∀ i ∈ U, f (t i) = f (t' i)) : tally U t f = tally U t' f :=
  Finset.sum_congr rfl h

/-- Replacing a row exchanges its contribution. -/
theorem tally_put (hi : i ∈ U) : tally U (put t i a) f + f (t i) = tally U t f + f a := by
  have hput : ∑ j ∈ U.erase i, f (put t i a j) = ∑ j ∈ U.erase i, f (t j) :=
    Finset.sum_congr rfl fun j hj => by rw [put_other t a (Finset.ne_of_mem_erase hj)]
  unfold tally
  rw [← Finset.add_sum_erase U _ hi, ← Finset.add_sum_erase U (fun j => f (t j)) hi, hput, put_same]
  abel

/-- Replacing a row by one that contributes the same changes nothing. -/
theorem tally_put_same (h : f a = f (t i)) : tally U (put t i a) f = tally U t f :=
  Finset.sum_congr rfl fun j _ => by
    by_cases hj : j = i
    · subst hj; rw [put_same, h]
    · rw [put_other t a hj]

/-- Replacing a row that is not in use changes nothing. -/
theorem tally_put_of_notMem (hi : i ∉ U) : tally U (put t i a) f = tally U t f :=
  Finset.sum_congr rfl fun j hj => by rw [put_other t a fun h : j = i => hi (h ▸ hj)]

/-- Taking a row into use adds its contribution. -/
theorem tally_insert (hi : i ∉ U) : tally (insert i U) t f = f (t i) + tally U t f :=
  Finset.sum_insert hi

/-- Giving a row up removes its contribution. -/
theorem tally_erase (hi : i ∈ U) : f (t i) + tally (U.erase i) t f = tally U t f :=
  Finset.add_sum_erase U (fun j => f (t j)) hi

theorem tally_add (f g : α → M) : tally U t (fun a => f a + g a) = tally U t f + tally U t g :=
  Finset.sum_add_distrib

theorem tally_eq_zero (h : ∀ i ∈ U, f (t i) = 0) : tally U t f = 0 := Finset.sum_eq_zero h

@[simp] theorem tally_empty : tally ∅ t f = 0 := rfl

end Sums

section Ordered

variable {U : Finset Nat} {t : Nat → α} {i j : Nat}

theorem le_tally {f : α → Nat} (hi : i ∈ U) : f (t i) ≤ tally U t f :=
  Finset.single_le_sum (f := fun j => f (t j)) (fun _ _ => Nat.zero_le _) hi

/-- Two rows together contribute at most the whole. -/
theorem two_le_tally {f : α → Nat} (hi : i ∈ U) (hj : j ∈ U) (hij : i ≠ j) :
    f (t i) + f (t j) ≤ tally U t f := by
  have h := le_tally (f := f) (t := t) (Finset.mem_erase.mpr ⟨hij.symm, hj⟩)
  have := tally_erase (f := f) (t := t) hi
  omega

theorem tally_mono {f g : α → Nat} (h : ∀ i ∈ U, f (t i) ≤ g (t i)) : tally U t f ≤ tally U t g :=
  Finset.sum_le_sum h

/-- A tally of naturals vanishes only when every row in use contributes nothing. -/
theorem eq_zero_of_tally {f : α → Nat} (h : tally U t f = 0) (hi : i ∈ U) : f (t i) = 0 := by
  have := le_tally (f := f) (t := t) hi
  omega

/-- Rounded shares of `n` at the ratio `f a / d` add up to at most `n`. -/
theorem tally_floor_le {f : α → Nat} {n d : Nat} (h : tally U t f ≤ d) :
    tally U t (fun a => f a * n / d) ≤ n := by
  rcases Nat.eq_zero_or_pos d with rfl | hd
  · simp [tally]
  · refine Nat.le_of_mul_le_mul_left (?_ : d * _ ≤ d * _) hd
    calc d * tally U t (fun a => f a * n / d) = tally U t (fun a => d * (f a * n / d)) := by
          simp only [tally, Finset.mul_sum]
      _ ≤ tally U t (fun a => f a * n) := tally_mono fun i _ => Nat.mul_div_le _ _
      _ = tally U t f * n := by simp only [tally, Finset.sum_mul]
      _ ≤ d * n := Nat.mul_le_mul_right n h

end Ordered

end Percolator
