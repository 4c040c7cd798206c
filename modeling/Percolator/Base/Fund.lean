import Mathlib.Algebra.Order.Ring.Nat
import Mathlib.Tactic.Ring
import Percolator.Base.Tally

/-!
Funds: a pool of assets against the claims on it.

A claim is worth its share of what the assets cover, rounded down, and never
more than itself. Redeeming claims one after another pays out no more than the
assets, and the worth of the remaining claims never falls.
-/

namespace Percolator

/-- A share of an amount is at most the amount. -/
theorem share_le {n d : Nat} (x : Nat) (h : n ≤ d) : x * n / d ≤ x := by
  apply Nat.div_le_of_le_mul
  rw [Nat.mul_comm d]
  exact Nat.mul_le_mul_left x h

/-- What a pool holds and what it owes. -/
structure Fund where
  assets : Nat
  claims : Nat

namespace Fund

variable {f g : Fund} {x : Nat}

/-- How much of the claims the assets cover. -/
def covered (f : Fund) : Nat := min f.assets f.claims

/-- What a claim of `x` is worth. -/
def worth (f : Fund) (x : Nat) : Nat := x * f.covered / f.claims

/-- The fund after a claim of `x` was paid its worth. -/
def redeem (f : Fund) (x : Nat) : Fund := ⟨f.assets - f.worth x, f.claims - x⟩

theorem worth_le (f : Fund) (x : Nat) : f.worth x ≤ x := share_le x (Nat.min_le_right _ _)

theorem worth_le_assets (h : x ≤ f.claims) : f.worth x ≤ f.assets := by
  apply Nat.div_le_of_le_mul
  exact Nat.mul_le_mul h (Nat.min_le_left _ _)

/-- A fund that covers its claims pays them in full. -/
theorem worth_eq (h : f.claims ≤ f.assets) (hx : x ≤ f.claims) : f.worth x = x := by
  unfold worth covered
  rw [Nat.min_eq_right h]
  rcases Nat.eq_zero_or_pos f.claims with h0 | hpos
  · rw [h0] at hx ⊢
    omega
  · exact Nat.mul_div_cancel x hpos

/-- The worths of the claims of a table never add up to more than the assets. -/
theorem tally_worth_le {α : Type} {U : Finset Nat} {t : Nat → α} {g : α → Nat}
    (h : tally U t g ≤ f.claims) : tally U t (fun a => f.worth (g a)) ≤ f.assets :=
  (tally_floor_le h).trans (Nat.min_le_left _ _)

/-- `g` covers its claims at least as well as `f` does; a fund without claims
covers them in full. -/
def Sounder (f g : Fund) : Prop := f.covered * g.claims ≤ g.covered * f.claims

theorem Sounder.refl (f : Fund) : Sounder f f := Nat.le_refl _

/-- Redeeming never lowers the cover of the claims that remain. -/
theorem sounder_redeem (h : x ≤ f.claims) : Sounder f (f.redeem x) := by
  have paid : f.worth x * f.claims ≤ x * f.covered := Nat.div_mul_le_self _ _
  have bound := worth_le_assets h
  have toClaims : f.covered * (f.claims - x) ≤ (f.claims - x) * f.claims := by
    rw [Nat.mul_comm]
    exact Nat.mul_le_mul_left _ (Nat.min_le_right _ _)
  -- what is left after the payment still covers the rest at the old rate
  have toAssets : f.covered * (f.claims - x) ≤ (f.assets - f.worth x) * f.claims := by
    have hold : f.covered * f.claims ≤ f.assets * f.claims :=
      Nat.mul_le_mul_right _ (Nat.min_le_left _ _)
    have split₁ : f.covered * (f.claims - x) + x * f.covered = f.covered * f.claims := by
      rw [Nat.mul_comm x, ← Nat.mul_add, Nat.sub_add_cancel h]
    have split₂ : (f.assets - f.worth x) * f.claims + f.worth x * f.claims = f.assets * f.claims := by
      rw [← Nat.add_mul, Nat.sub_add_cancel bound]
    omega
  unfold Sounder
  show _ ≤ min (f.assets - f.worth x) (f.claims - x) * f.claims
  rcases Nat.le_total (f.assets - f.worth x) (f.claims - x) with hle | hle
  · rw [Nat.min_eq_left hle]
    exact toAssets
  · rw [Nat.min_eq_right hle]
    exact toClaims

/-- Covering better composes, as long as the middle fund has claims or the last has none. -/
theorem Sounder.trans {h : Fund} (hfg : Sounder f g) (hgh : Sounder g h)
    (shrink : h.claims ≤ g.claims) : Sounder f h := by
  unfold Sounder at *
  rcases Nat.eq_zero_or_pos g.claims with h0 | hpos
  · have hh : h.claims = 0 := by omega
    simp [hh]
  · refine Nat.le_of_mul_le_mul_right (?_ : _ * g.claims ≤ _ * g.claims) hpos
    calc f.covered * h.claims * g.claims = f.covered * g.claims * h.claims := by ring
      _ ≤ g.covered * f.claims * h.claims := Nat.mul_le_mul_right _ hfg
      _ = g.covered * h.claims * f.claims := by ring
      _ ≤ h.covered * g.claims * f.claims := Nat.mul_le_mul_right _ hgh
      _ = h.covered * f.claims * g.claims := by ring

/-- Claims redeemed one after another, each at the rate it finds, and what they were paid. -/
inductive Redeemed (f : Fund) : Nat → Fund → Prop
  | none : Redeemed f 0 f
  | next {g : Fund} {paid : Nat} (x : Nat) (before : Redeemed f paid g) (le : x ≤ g.claims) :
      Redeemed f (paid + g.worth x) (g.redeem x)

/-- A sequence of redemptions pays from the assets, shrinks the claims and never lowers
the cover. -/
theorem Redeemed.sound {paid : Nat} (h : Redeemed f paid g) :
    g.assets + paid = f.assets ∧ g.claims ≤ f.claims ∧ Sounder f g := by
  induction h with
  | none => exact ⟨rfl, Nat.le_refl _, Sounder.refl f⟩
  | @next g paid x before le ih =>
      obtain ⟨assets, claims, sounder⟩ := ih
      have bound := worth_le_assets le
      refine ⟨?_, ?_, ?_⟩
      · show g.assets - g.worth x + _ = _
        omega
      · show g.claims - x ≤ _
        omega
      · exact sounder.trans (sounder_redeem le) (Nat.sub_le _ _)

end Fund

/-- The largest claim that can be given up at the rate `n / d` without losing more than
`e`: the closed form inverts the rounded rate. -/
theorem le_loss_bound {e n d x : Nat} (h : n < d) :
    x ≤ e * d / (d - n) ↔ x ≤ e + x * n / d := by
  have hd : 0 < d := by omega
  have hsub : x * (d - n) = x * d - x * n := Nat.mul_sub x d n
  have hxn : x * n ≤ x * d := Nat.mul_le_mul_left x (Nat.le_of_lt h)
  rw [Nat.le_div_iff_mul_le (by omega), hsub]
  rcases Nat.le_total x e with hx | hx
  · have hle : x * d ≤ e * d := Nat.mul_le_mul_right d hx
    constructor
    · intro _
      exact Nat.le_add_right_of_le hx
    · intro _
      omega
  · have hed : (x - e) * d = x * d - e * d := Nat.sub_mul x e d
    have key : x - e ≤ x * n / d ↔ x * d - e * d ≤ x * n := by
      rw [Nat.le_div_iff_mul_le hd, hed]
    generalize x * n / d = worth at key ⊢
    constructor
    · intro hle
      have := key.mpr (by omega)
      omega
    · intro hle
      have := key.mp (by omega)
      omega

end Percolator
