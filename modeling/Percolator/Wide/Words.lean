import Mathlib.Tactic.Ring

/-!
The words of the wide arithmetic: `u64` and `u128` with their casts, shifts and
overflowing operations, and the two carry helpers and the schoolbook product
that the 256-bit types are built from.

A plain `+` or `*` of the source is a checked one here that halts the run, so
that "never panics" is a statement and not a convention.
-/

namespace Percolator
namespace Wide

abbrev U64 := BitVec 64
abbrev U128 := BitVec 128

/-- How a computation on words stops short: the `Overflow` error it reports, or
a panic. -/
inductive Halt where
  | overflow
  | panic
deriving DecidableEq, Repr

/-- `u128::overflowing_add`. -/
def overflowingAdd (a b : U128) : U128 × Bool := (a + b, decide (2 ^ 128 ≤ a.toNat + b.toNat))

/-- `u128::overflowing_sub`. -/
def overflowingSub (a b : U128) : U128 × Bool := (a - b, decide (a.toNat < b.toNat))

/-- `u128::checked_add`. -/
def checkedAdd (a b : U128) : Option U128 :=
  if a.toNat + b.toNat < 2 ^ 128 then some (a + b) else none

/-- The operator `+`. -/
def plus (a b : U128) : Except Halt U128 :=
  if a.toNat + b.toNat < 2 ^ 128 then .ok (a + b) else .error .panic

/-- The operator `*`. -/
def times (a b : U128) : Except Halt U128 :=
  if a.toNat * b.toNat < 2 ^ 128 then .ok (a * b) else .error .panic

/-- The cast `b as u128`. -/
def ofFlag (b : Bool) : U128 := if b then 1 else 0

/-- `a as u64 as u128`. -/
def lowHalf (a : U128) : U128 := (a.setWidth 64).setWidth 128

/-- `(a >> 64) as u64 as u128`. -/
def highHalf (a : U128) : U128 := ((a >>> 64).setWidth 64).setWidth 128

/-- `add_u128_carry`. -/
def addU128Carry (a b : U128) (carryIn : Bool) : U128 × Bool :=
  let (s₁, c₁) := overflowingAdd a b
  let (s₂, c₂) := overflowingAdd s₁ (ofFlag carryIn)
  (s₂, c₁ || c₂)

/-- `sub_u128_borrow`. -/
def subU128Borrow (a b : U128) (borrowIn : Bool) : U128 × Bool :=
  let (d₁, b₁) := overflowingSub a b
  let (d₂, b₂) := overflowingSub d₁ (ofFlag borrowIn)
  (d₂, b₁ || b₂)

/-- `widening_mul_u128`: the low and the high word of a product, from the four
products of its halves. -/
def wideningMulU128 (a b : U128) : Except Halt (U128 × U128) := do
  let ll ← times (lowHalf a) (lowHalf b)
  let lh ← times (lowHalf a) (highHalf b)
  let hl ← times (highHalf a) (lowHalf b)
  let hh ← times (highHalf a) (highHalf b)
  let (mid, midCarry) := overflowingAdd lh hl
  let (lo, loCarry) := overflowingAdd ll (mid <<< 64)
  let hi ← plus hh (mid >>> 64)
  let hi ← plus hi (ofFlag midCarry <<< 64)
  let hi ← plus hi (ofFlag loCarry)
  return (lo, hi)

/-! ### What the words stand for -/

theorem toNat_zero : (0 : U128).toNat = 0 := rfl

theorem toNat_eq_zero_iff {n : Nat} {a : BitVec n} : a.toNat = 0 ↔ a = 0 :=
  ⟨fun h => BitVec.eq_of_toNat_eq h, fun h => by simp [h]⟩

theorem toNat_one : (1 : U128).toNat = 1 := rfl

@[simp] theorem toNat_ofFlag (b : Bool) : (ofFlag b).toNat = b.toNat := by
  cases b <;> rfl

theorem toNat_lowHalf (a : U128) : (lowHalf a).toNat = a.toNat % 2 ^ 64 := by
  simp only [lowHalf, BitVec.toNat_setWidth]
  omega

theorem toNat_highHalf (a : U128) : (highHalf a).toNat = a.toNat / 2 ^ 64 := by
  have ha := a.isLt
  simp only [highHalf, BitVec.toNat_setWidth, BitVec.toNat_ushiftRight, Nat.shiftRight_eq_div_pow]
  omega

theorem toNat_shiftLeft_half (a : U128) : (a <<< 64).toNat = 2 ^ 64 * (a.toNat % 2 ^ 64) := by
  simp only [BitVec.toNat_shiftLeft, Nat.shiftLeft_eq]
  omega

theorem toNat_shiftRight_half (a : U128) : (a >>> 64).toNat = a.toNat / 2 ^ 64 := by
  simp only [BitVec.toNat_ushiftRight, Nat.shiftRight_eq_div_pow]

theorem toNat_flag_shiftLeft (b : Bool) : (ofFlag b <<< 64).toNat = 2 ^ 64 * b.toNat := by
  cases b <;> rfl

theorem overflowingAdd_spec (a b : U128) :
    (overflowingAdd a b).1.toNat + 2 ^ 128 * (overflowingAdd a b).2.toNat = a.toNat + b.toNat := by
  have ha := a.isLt
  have hb := b.isLt
  simp only [overflowingAdd, BitVec.toNat_add]
  by_cases h : 2 ^ 128 ≤ a.toNat + b.toNat
  · simp only [h, decide_true, Bool.toNat_true]
    omega
  · simp only [h, decide_false, Bool.toNat_false]
    omega

theorem overflowingSub_spec (a b : U128) :
    (overflowingSub a b).1.toNat + b.toNat = a.toNat + 2 ^ 128 * (overflowingSub a b).2.toNat := by
  have ha := a.isLt
  have hb := b.isLt
  simp only [overflowingSub, BitVec.toNat_sub]
  by_cases h : a.toNat < b.toNat
  · simp only [h, decide_true, Bool.toNat_true]
    omega
  · simp only [h, decide_false, Bool.toNat_false]
    omega

theorem checkedAdd_some {a b : U128} (h : a.toNat + b.toNat < 2 ^ 128) :
    checkedAdd a b = some (a + b) ∧ (a + b).toNat = a.toNat + b.toNat := by
  refine ⟨if_pos h, ?_⟩
  rw [BitVec.toNat_add, Nat.mod_eq_of_lt h]

theorem checkedAdd_none {a b : U128} (h : 2 ^ 128 ≤ a.toNat + b.toNat) : checkedAdd a b = none :=
  if_neg (Nat.not_lt.mpr h)

theorem times_eq {a b : U128} (h : a.toNat * b.toNat < 2 ^ 128) :
    times a b = .ok (a * b) ∧ (a * b).toNat = a.toNat * b.toNat := by
  refine ⟨if_pos h, ?_⟩
  rw [BitVec.toNat_mul, Nat.mod_eq_of_lt h]

theorem plus_eq {a b : U128} (h : a.toNat + b.toNat < 2 ^ 128) :
    plus a b = .ok (a + b) ∧ (a + b).toNat = a.toNat + b.toNat := by
  refine ⟨if_pos h, ?_⟩
  rw [BitVec.toNat_add, Nat.mod_eq_of_lt h]

/-! ### Carry, borrow and product -/

/-- At most one of the two additions carries. -/
theorem addU128Carry_spec (a b : U128) (c : Bool) :
    (addU128Carry a b c).1.toNat + 2 ^ 128 * (addU128Carry a b c).2.toNat =
      a.toNat + b.toNat + c.toNat := by
  have first := overflowingAdd_spec a b
  have second := overflowingAdd_spec (overflowingAdd a b).1 (ofFlag c)
  rw [toNat_ofFlag] at second
  have ha := a.isLt
  have hb := b.isLt
  have hc : c.toNat ≤ 1 := Bool.toNat_le c
  have either : ((overflowingAdd a b).2 ||
      (overflowingAdd (overflowingAdd a b).1 (ofFlag c)).2).toNat =
      (overflowingAdd a b).2.toNat + (overflowingAdd (overflowingAdd a b).1 (ofFlag c)).2.toNat := by
    cases h₁ : (overflowingAdd a b).2
    · simp
    · cases h₂ : (overflowingAdd (overflowingAdd a b).1 (ofFlag c)).2
      · rfl
      · rw [h₁] at first
        rw [h₂] at second
        simp only [Bool.toNat_true] at first second
        omega
  simp only [addU128Carry]
  omega

/-- At most one of the two subtractions borrows. -/
theorem subU128Borrow_spec (a b : U128) (c : Bool) :
    (subU128Borrow a b c).1.toNat + b.toNat + c.toNat =
      a.toNat + 2 ^ 128 * (subU128Borrow a b c).2.toNat := by
  have first := overflowingSub_spec a b
  have second := overflowingSub_spec (overflowingSub a b).1 (ofFlag c)
  rw [toNat_ofFlag] at second
  have hb := b.isLt
  have hd := (overflowingSub (overflowingSub a b).1 (ofFlag c)).1.isLt
  have hc : c.toNat ≤ 1 := Bool.toNat_le c
  have either : ((overflowingSub a b).2 ||
      (overflowingSub (overflowingSub a b).1 (ofFlag c)).2).toNat =
      (overflowingSub a b).2.toNat + (overflowingSub (overflowingSub a b).1 (ofFlag c)).2.toNat := by
    cases h₁ : (overflowingSub a b).2
    · simp
    · cases h₂ : (overflowingSub (overflowingSub a b).1 (ofFlag c)).2
      · rfl
      · rw [h₁] at first
        rw [h₂] at second
        simp only [Bool.toNat_true] at first second
        omega
  simp only [subU128Borrow]
  omega

theorem half_mul_le {a b : Nat} (ha : a < 2 ^ 64) (hb : b < 2 ^ 64) :
    a * b ≤ (2 ^ 64 - 1) * (2 ^ 64 - 1) := Nat.mul_le_mul (by omega) (by omega)

/-- The schoolbook product is the product, and none of its sums overflows: each
is at most the high word of the whole. -/
theorem wideningMulU128_spec (a b : U128) :
    ∃ lo hi, wideningMulU128 a b = .ok (lo, hi) ∧
      lo.toNat + 2 ^ 128 * hi.toNat = a.toNat * b.toNat := by
  have ha := a.isLt
  have hb := b.isLt
  have vaLo := toNat_lowHalf a
  have vaHi := toNat_highHalf a
  have vbLo := toNat_lowHalf b
  have vbHi := toNat_highHalf b
  have ll := half_mul_le (a := (lowHalf a).toNat) (b := (lowHalf b).toNat) (by omega) (by omega)
  have lh := half_mul_le (a := (lowHalf a).toNat) (b := (highHalf b).toNat) (by omega) (by omega)
  have hl := half_mul_le (a := (highHalf a).toNat) (b := (lowHalf b).toNat) (by omega) (by omega)
  have hh := half_mul_le (a := (highHalf a).toNat) (b := (highHalf b).toNat) (by omega) (by omega)
  obtain ⟨ell, vll⟩ := times_eq (a := lowHalf a) (b := lowHalf b) (by omega)
  obtain ⟨elh, vlh⟩ := times_eq (a := lowHalf a) (b := highHalf b) (by omega)
  obtain ⟨ehl, vhl⟩ := times_eq (a := highHalf a) (b := lowHalf b) (by omega)
  obtain ⟨ehh, vhh⟩ := times_eq (a := highHalf a) (b := highHalf b) (by omega)
  have whole : a.toNat * b.toNat =
      (lowHalf a * lowHalf b).toNat +
        2 ^ 64 * ((lowHalf a * highHalf b).toNat + (highHalf a * lowHalf b).toNat) +
        2 ^ 128 * (highHalf a * highHalf b).toNat := by
    have ea : a.toNat = (lowHalf a).toNat + 2 ^ 64 * (highHalf a).toNat := by omega
    have eb : b.toNat = (lowHalf b).toNat + 2 ^ 64 * (highHalf b).toNat := by omega
    rw [ea, eb, vll, vlh, vhl, vhh]
    ring
  have small : a.toNat * b.toNat ≤ (2 ^ 128 - 1) * (2 ^ 128 - 1) :=
    Nat.mul_le_mul (by omega) (by omega)
  obtain ⟨mid, midCarry, emid⟩ : ∃ m c,
      overflowingAdd (lowHalf a * highHalf b) (highHalf a * lowHalf b) = (m, c) := ⟨_, _, rfl⟩
  obtain ⟨lo, loCarry, elo⟩ : ∃ m c,
      overflowingAdd (lowHalf a * lowHalf b) (mid <<< 64) = (m, c) := ⟨_, _, rfl⟩
  have vmid := overflowingAdd_spec (lowHalf a * highHalf b) (highHalf a * lowHalf b)
  have vlo := overflowingAdd_spec (lowHalf a * lowHalf b) (mid <<< 64)
  rw [emid] at vmid
  rw [elo, toNat_shiftLeft_half] at vlo
  have vshift := toNat_shiftRight_half mid
  have vflag := toNat_flag_shiftLeft midCarry
  have vcarry := toNat_ofFlag loCarry
  simp only at vmid vlo
  obtain ⟨e₁, v₁⟩ := plus_eq (a := highHalf a * highHalf b) (b := mid >>> 64) (by omega)
  obtain ⟨e₂, v₂⟩ := plus_eq (a := highHalf a * highHalf b + mid >>> 64)
    (b := ofFlag midCarry <<< 64) (by omega)
  obtain ⟨e₃, v₃⟩ := plus_eq (a := highHalf a * highHalf b + mid >>> 64 + ofFlag midCarry <<< 64)
    (b := ofFlag loCarry) (by omega)
  refine ⟨lo, highHalf a * highHalf b + mid >>> 64 + ofFlag midCarry <<< 64 + ofFlag loCarry, ?_, ?_⟩
  · simp only [wideningMulU128, ell, elh, ehl, ehh, emid, elo, e₁, e₂, e₃, bind, Except.bind, pure,
      Except.pure]
  · omega

end Wide
end Percolator
