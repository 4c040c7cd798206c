import Mathlib.Data.Nat.Cast.Order.Field
import Mathlib.Tactic.GCongr
import Mathlib.Tactic.Positivity

/-!
Linear vesting: an amount that becomes available evenly over a horizon, exactly and
in whole units.
-/

namespace Percolator

variable {K : Type} [Field K] [LinearOrder K] [IsStrictOrderedRing K]
  {start start' horizon horizon' t t' x e e' : Nat}

/-! ### Exactly -/

/-- The part of an amount that has vested by `t`, when it vests over `horizon` from `start` on. -/
def vestedPart (K : Type) [Field K] (start horizon t : Nat) : K :=
  if horizon ≤ t - start then 1 else (t - start : Nat) / horizon

theorem vestedPart_nonneg : 0 ≤ vestedPart K start horizon t := by
  unfold vestedPart
  split_ifs
  · exact zero_le_one
  · positivity

theorem vestedPart_le_one : vestedPart K start horizon t ≤ 1 := by
  unfold vestedPart
  split_ifs with full
  · exact le_rfl
  · have le : ((t - start : Nat) : K) ≤ horizon := by exact_mod_cast (not_le.mp full).le
    exact div_le_one_of_le₀ le (Nat.cast_nonneg _)

/-- More time vests no less, and so do an earlier start and a shorter horizon. -/
theorem vestedPart_le (time : t - start ≤ t' - start') (shorter : horizon' ≤ horizon) :
    vestedPart K start horizon t ≤ vestedPart K start' horizon' t' := by
  by_cases full : horizon' ≤ t' - start'
  · rw [vestedPart.eq_1 K start', if_pos full]
    exact vestedPart_le_one
  · have early : ¬ horizon ≤ t - start := by omega
    have pos : (0 : K) < horizon' := by
      have : 0 < horizon' := by omega
      exact_mod_cast this
    rw [vestedPart, vestedPart, if_neg full, if_neg early]
    gcongr

/-- The part in closed form. -/
theorem vestedPart_eq_min (pos : 0 < horizon) :
    vestedPart K start horizon t = (min (t - start) horizon : Nat) / horizon := by
  unfold vestedPart
  split_ifs with full
  · have whole : (horizon : K) ≠ 0 := by exact_mod_cast pos.ne'
    rw [min_eq_right full, div_self whole]
  · rw [min_eq_left (not_le.mp full).le]

/-! ### In whole units -/

/-- The whole units of `x` that have vested after `e` of the `horizon`. -/
def vestedUnits (x e horizon : Nat) : Nat := if horizon ≤ e then x else x * e / horizon

theorem vestedUnits_le : vestedUnits x e horizon ≤ x := by
  unfold vestedUnits
  split_ifs with full
  · exact le_rfl
  · refine Nat.div_le_of_le_mul ?_
    rw [Nat.mul_comm]
    exact Nat.mul_le_mul_right x (not_le.mp full).le

theorem vestedUnits_mono (le : e ≤ e') : vestedUnits x e horizon ≤ vestedUnits x e' horizon := by
  by_cases full : horizon ≤ e'
  · rw [vestedUnits.eq_1 x e', if_pos full]
    exact vestedUnits_le
  · have early : ¬ horizon ≤ e := by omega
    rw [vestedUnits, vestedUnits, if_neg full, if_neg early]
    exact Nat.div_le_div_right (Nat.mul_le_mul_left x le)

/-- All of a positive amount has vested when the horizon is over, and no earlier. -/
theorem vestedUnits_eq_iff (pos : 0 < x) : vestedUnits x e horizon = x ↔ horizon ≤ e := by
  constructor
  · intro all
    by_contra early
    have less : vestedUnits x e horizon < x := by
      rw [vestedUnits, if_neg early]
      refine (Nat.div_lt_iff_lt_mul (by omega)).mpr ?_
      exact Nat.mul_lt_mul_of_pos_left (not_le.mp early) pos
    exact less.ne all
  · intro full
    exact if_pos full

/-- Whole units are never ahead of the exact amount. -/
theorem vestedUnits_le_exact : (vestedUnits x (t - start) horizon : K) ≤ x * vestedPart K start horizon t := by
  unfold vestedUnits vestedPart
  split_ifs
  · rw [mul_one]
  · have floor := Nat.cast_div_le (α := K) (m := x * (t - start)) (n := horizon)
    rwa [Nat.cast_mul, mul_div_assoc] at floor

end Percolator
