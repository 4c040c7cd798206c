import Mathlib.Data.Nat.Cast.Order.Field
import Mathlib.Tactic.Linarith
import Mathlib.Tactic.Positivity
import Mathlib.Tactic.FieldSimp
import Percolator.Invariant.Reserves

/-!
Exact shares in the open interest of a side against the floors that accounts
see: what a floor loses is less than one, and nothing when no dust is orphaned.
-/

namespace Percolator

/-- The floor of an account's share. -/
def Account.floorShare (d : Side) (v : SideState) (a : Account) : Nat :=
  if sideOfI128 a.positionBasisQ = some d ∧ a.adlEpochSnap = v.adlEpoch then
    a.positionBasisQ.natAbs * v.adlMult / a.adlABasis
  else 0

section Floor

variable {d : Side} {v w : SideState} {a a' : Account}

theorem Account.share_nonneg : 0 ≤ a.share d v := by
  unfold share
  split_ifs
  · positivity
  · exact le_rfl

theorem Account.floorShare_le : (a.floorShare d v : ℚ) ≤ a.share d v := by
  unfold floorShare share
  split_ifs
  · exact_mod_cast Nat.cast_div_le (α := ℚ)
  · simp

/-- A floor loses less than the dust that replacing the position orphans. -/
theorem Account.share_le : a.share d v ≤ a.floorShare d v + a.orphaned d v := by
  unfold floorShare share orphaned
  by_cases h : sideOfI128 a.positionBasisQ = some d ∧ a.adlEpochSnap = v.adlEpoch
  · rw [if_pos h, if_pos h]
    rcases Nat.eq_zero_or_pos a.adlABasis with h0 | hpos
    · simp only [h0, Nat.cast_zero, div_zero]; positivity
    · have hq : (0 : ℚ) < a.adlABasis := by exact_mod_cast hpos
      have hdiv := Nat.div_add_mod (a.positionBasisQ.natAbs * v.adlMult) a.adlABasis
      have hlt := Nat.mod_lt (a.positionBasisQ.natAbs * v.adlMult) hpos
      rw [div_le_iff₀ hq]
      split_ifs with ho
      · norm_cast
        rw [Nat.add_mul, Nat.mul_comm _ a.adlABasis]
        omega
      · have hmod : a.positionBasisQ.natAbs * v.adlMult % a.adlABasis = 0 := by
          by_contra hm
          exact ho ⟨h.1, h.2, by omega, hm⟩
        norm_cast
        rw [Nat.add_mul, Nat.mul_comm _ a.adlABasis]
        omega
  · rw [if_neg h, if_neg h]
    positivity

/-- Shares see the position of an account and the epoch and multiplier of its side. -/
theorem Account.share_congr (hp : a.SamePosition a') (he : w.adlEpoch = v.adlEpoch)
    (hm : w.adlMult = v.adlMult) : a'.share d w = a.share d v := by
  unfold share
  rw [hp.1, hp.2.1, hp.2.2.2.2, he, hm]

theorem Account.share_flat : a.flat.share d v = 0 := if_neg fun h => by cases h.1

theorem Account.flat_position : a.flat.positionBasisQ = 0 := rfl

end Floor

/-! ### Effective positions -/

theorem oiComponent_eq {d e : Side} {n : Nat} :
    oiComponent d (e.sign * n) = if e = d then n else 0 := by
  cases d <;> cases e <;> simp [oiComponent, Side.sign]

/-- What a position is worth on each side, in the words of the code. -/
theorem effectivePosQ_component {s : RiskEngine} {i : Nat} {e : Int} (h : effectivePosQ s i = some e)
    (bound : (s.accounts i).positionBasisQ.natAbs ≤ MAX_POSITION_ABS_Q)
    (hside : ∀ d, sideOfI128 (s.accounts i).positionBasisQ = some d →
      (s.sides d).adlMult ≤ ADL_ONE ∧ 0 < (s.accounts i).adlABasis) :
    e = (match sideOfI128 (s.accounts i).positionBasisQ with
      | none => 0
      | some d => d.sign * (s.accounts i).floorShare d (s.sides d)) := by
  unfold effectivePosQ at h
  unfold Account.floorShare
  cases hs : sideOfI128 (s.accounts i).positionBasisQ with
  | none => simpa [hs] using h.symm
  | some d =>
      obtain ⟨hm, hpos⟩ := hside d hs
      simp only [hs] at h ⊢
      by_cases hepoch : (s.accounts i).adlEpochSnap = (s.sides d).adlEpoch
      · rw [if_neg (by omega)] at h
        simp only [Option.bind_eq_bind, Option.bind_eq_some_iff] at h
        obtain ⟨n, hn, h⟩ := h
        obtain ⟨-, rfl⟩ := mulDivFloorU128_eq hn
        -- the product of the two bounds is far below `i128::MAX`
        have hle : (s.accounts i).positionBasisQ.natAbs * (s.sides d).adlMult / (s.accounts i).adlABasis ≤
            MAX_POSITION_ABS_Q * ADL_ONE :=
          (Nat.div_le_self _ _).trans (Nat.mul_le_mul bound hm)
        rw [if_neg (by simp only [I128_MAX, MAX_POSITION_ABS_Q, ADL_ONE] at *; omega)] at h
        rw [if_pos ⟨trivial, hepoch⟩]
        cases d <;> simpa [Side.sign] using h.symm
      · rw [if_pos (.inl hepoch)] at h
        rw [if_neg fun hc => hepoch hc.2]
        simpa using h.symm

section Tally

variable {s s' : RiskEngine} {i : Nat} {a' : Account} {d : Side}

theorem RiskEngine.shares_nonneg : 0 ≤ s.shares d := Finset.sum_nonneg fun _ _ => Account.share_nonneg

/-- Nobody has a share in a side without stored positions. -/
theorem Books.shares_zero (h : Books s) (h0 : (s.sides d).storedPosCount = 0) : s.shares d = 0 := by
  refine tally_eq_zero fun i hi => if_neg fun hc => ?_
  have := eq_zero_of_tally (f := Account.on d) (t := s.accounts) ((h.stored d).symm.trans h0) hi
  rw [Account.on, if_pos hc.1] at this
  omega

theorem Books.no_position (h : Books s) (h0 : (s.sides d).storedPosCount = 0) (used : s.isUsed i = true) :
    sideOfI128 (s.accounts i).positionBasisQ ≠ some d := fun hc => by
  have := eq_zero_of_tally (f := Account.on d) (t := s.accounts) ((h.stored d).symm.trans h0)
    (RiskEngine.mem_usedSlots.mpr used)
  rw [Account.on, if_pos hc] at this
  omega

/-- The floors of the shares of all accounts add up to at most the shares. -/
theorem RiskEngine.floorShares_le :
    ((tally s.usedSlots s.accounts (Account.floorShare d (s.sides d)) : Nat) : ℚ) ≤ s.shares d := by
  unfold shares tally
  push_cast
  exact Finset.sum_le_sum fun i _ => Account.floorShare_le

theorem RiskEngine.shares_put (used : s.isUsed i = true) (haccounts : s'.accounts = put s.accounts i a')
    (hslots : s'.usedSlots = s.usedSlots) (hepoch : (s'.sides d).adlEpoch = (s.sides d).adlEpoch)
    (hmult : (s'.sides d).adlMult = (s.sides d).adlMult) :
    s'.shares d + (s.accounts i).share d (s.sides d) = s.shares d + a'.share d (s.sides d) := by
  unfold shares
  have hf : Account.share d (s'.sides d) = Account.share d (s.sides d) :=
    funext fun a => Account.share_congr (.refl a) hepoch hmult
  rw [hf, haccounts, hslots]
  exact tally_put (RiskEngine.mem_usedSlots.mpr used)

theorem RiskEngine.shares_same (haccounts : s'.accounts = s.accounts) (hslots : s'.usedSlots = s.usedSlots)
    (hepoch : (s'.sides d).adlEpoch = (s.sides d).adlEpoch)
    (hmult : (s'.sides d).adlMult = (s.sides d).adlMult) : s'.shares d = s.shares d := by
  unfold shares
  have hf : Account.share d (s'.sides d) = Account.share d (s.sides d) :=
    funext fun a => Account.share_congr (.refl a) hepoch hmult
  rw [hf, haccounts, hslots]

end Tally

end Percolator
