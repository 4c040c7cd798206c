import Percolator.Wide.Division
import Percolator.Wide.I256
import Percolator.Spec.Settlement

/-!
`compute_kf_pnl_delta` and its wide variant on limbs, and that they compute the
settlement of the model on the values of their arguments.
-/

namespace Percolator
namespace Wide

/-- `ok_or(RiskError::Overflow)?`. -/
def okOr {α : Type} (o : Option α) : Except Halt α :=
  match o with
  | some a => .ok a
  | none => .error .overflow

/-- The negation `-(v as i128)`, which panics on `i128::MIN`. -/
def negate (v : U128) : Except Halt U128 :=
  if v.toInt = I128_MIN then .error .panic else .ok (-v)

/-- `K_diff * FUNDING_DEN` by magnitude and sign. -/
def scaleByFundingDen (kDiff : I256) : Except Halt I256 :=
  if kDiff.isZero then .ok I256.ZERO
  else if kDiff = I256.MIN then .error .overflow
  else do
    let absK ← kDiff.absU256
    let prod ← okOr (← absK.checkedMul (U256.fromU128 (BitVec.ofNat 128 FUNDING_DEN)))
    let pos ← okOr (I256.fromU256OrOverflow prod)
    if kDiff.isNegative then okOr (I256.ZERO.checkedSub pos) else .ok pos

/-- The signed floor from the quotient and the remainder of the magnitudes. -/
def signedQuotient (negative : Bool) (q rem : U256) : Except Halt U128 :=
  if negative then do
    let mag ← if rem.isZero then .ok q else okOr (q.checkedAdd U256.ONE)
    let magU128 ← okOr mag.tryIntoU128
    if I128_MAX < magU128.toNat then .error .overflow else negate magU128
  else do
    let qU128 ← okOr q.tryIntoU128
    if I128_MAX < qU128.toNat then .error .overflow else .ok qU128

/-- `compute_kf_pnl_delta_wide`. -/
def computeKfPnlDeltaWide (absBasis kSnap : U128) (kNowWide : I256) (fSnap : U128)
    (fNowWide : I256) (den : U128) : Except Halt U128 :=
  if absBasis = 0 then .ok 0
  else do
    let kDiff ← okOr (kNowWide.checkedSub (I256.fromI128 kSnap))
    let kScaled ← scaleByFundingDen kDiff
    let fDiff ← okOr (fNowWide.checkedSub (I256.fromI128 fSnap))
    let combined ← okOr (kScaled.checkedAdd fDiff)
    if combined.isZero then .ok 0
    else if combined = I256.MIN then .error .overflow
    else do
      let absCombined ← combined.absU256
      let denWide ← okOr
        (← (U256.fromU128 den).checkedMul (U256.fromU128 (BitVec.ofNat 128 FUNDING_DEN)))
      let p ← okOr (← (U256.fromU128 absBasis).checkedMul absCombined)
      let (q, rem) ← divRemU256 p denWide
      signedQuotient combined.isNegative q rem

/-- `compute_kf_pnl_delta`: the same steps from `i128` indices. -/
def computeKfPnlDelta (absBasis kSnap kNow fSnap fNow den : U128) : Except Halt U128 :=
  computeKfPnlDeltaWide absBasis kSnap (I256.fromI128 kNow) fSnap (I256.fromI128 fNow) den

/-! ### What a computation on words computes -/

/-- A computation computes an optional number: it returns a word that stands for
it, or reports the `Overflow` that `none` stands for. It does not panic. -/
inductive Computes {α β : Type} (value : α → β) : Except Halt α → Option β → Prop
  | ok (a : α) : Computes value (.ok a) (some (value a))
  | overflow : Computes value (.error .overflow) none

section Rules

variable {α β γ δ : Type} {value : α → β} {value' : γ → δ} {m : Except Halt α} {o : Option β}

theorem ok_bind (a : α) (f : α → Except Halt γ) : (Except.ok a >>= f) = f a := rfl

theorem Computes.returns {a : α} {b : β} (h : value a = b) : Computes value (.ok a) (some b) :=
  h ▸ .ok a

theorem Computes.okOr {x : Option α} (h : x.map value = o) : Computes value (okOr x) o := by
  rw [← h]
  cases x with
  | none => exact .overflow
  | some a => exact .ok a

theorem Computes.bind {f : α → Except Halt γ} {g : β → Option δ} (h : Computes value m o)
    (next : ∀ a, o = some (value a) → Computes value' (f a) (g (value a))) :
    Computes value' (m >>= f) (o >>= g) := by
  cases h with
  | ok a => exact next a rfl
  | overflow => exact .overflow

/-- A step that may halt for good and then answers an option. -/
theorem Computes.step {m : Except Halt (Option α)} {f : α → Except Halt γ} {g : β → Option δ}
    (h : ∃ r, m = .ok r ∧ r.map value = o)
    (next : ∀ a, o = some (value a) → Computes value' (f a) (g (value a))) :
    Computes value' (m >>= fun r => Wide.okOr r >>= f) (o >>= g) := by
  obtain ⟨r, rfl, hr⟩ := h
  rw [ok_bind]
  exact Computes.bind (Computes.okOr hr) next

end Rules

/-! ### The settlement -/

theorem fundingDen_value : (U256.fromU128 (BitVec.ofNat 128 FUNDING_DEN)).value = FUNDING_DEN := by
  decide

theorem scaleByFundingDen_computes (kDiff : I256) :
    Computes I256.value (scaleByFundingDen kDiff) (scaledKDiff kDiff.value) := by
  unfold scaleByFundingDen
  by_cases hz : kDiff.isZero = true
  · have := (I256.isZero_iff kDiff).mp hz
    rw [if_pos hz, this]
    exact .ok I256.ZERO
  rw [if_neg hz]
  by_cases hmin : kDiff = I256.MIN
  · rw [if_pos hmin, (I256.eq_min_iff kDiff).mp hmin]
    exact .overflow
  rw [if_neg hmin]
  obtain ⟨absK, ek, vk⟩ := I256.absU256_spec fun h => hmin ((I256.eq_min_iff kDiff).mpr h)
  have product := U256.checkedMul_spec absK (U256.fromU128 (BitVec.ofNat 128 FUNDING_DEN))
  rw [vk, fundingDen_value] at product
  rw [ek, ok_bind]
  refine Computes.step product fun prod _ => ?_
  refine Computes.bind (Computes.okOr (I256.fromU256OrOverflow_spec prod)) fun pos hpos => ?_
  rw [I256.isNegative_eq]
  by_cases hneg : kDiff.value < 0
  · have bounds := pos.value_bounds
    rw [if_pos (decide_eq_true hneg), if_pos hneg]
    refine Computes.okOr ((I256.checkedSub_spec I256.ZERO pos).trans ?_)
    have nonneg : 0 ≤ pos.value := by
      rw [toI256_eq hpos]
      exact Int.natCast_nonneg _
    rw [I256.value_zero, Percolator.I256.checkedSub, toI256, zero_sub]
    unfold I256_MIN I256_MAX at *
    rw [if_pos (by omega)]
    rfl
  · rw [if_neg (by simpa using hneg), if_neg hneg]
    exact .ok pos

/-- A magnitude narrowed to `i128::MAX`, and what `f` makes of it. -/
theorem narrow_computes {m : U256} {f : U128 → Except Halt U128} {result : Int}
    (hf : ∀ v : U128, v.toNat = m.value → v.toNat < 2 ^ 127 → ∃ r, f v = .ok r ∧ r.toInt = result) :
    Computes BitVec.toInt
      (okOr m.tryIntoU128 >>= fun v => if I128_MAX < v.toNat then .error .overflow else f v)
      (if (m.value : Int) ≤ I128_MAX then some result else none) := by
  have h := U256.tryIntoU128_spec m
  unfold Percolator.U256.tryIntoU128 U128_MAX at h
  unfold I128_MAX
  cases ht : m.tryIntoU128 with
  | none =>
      rw [ht, Option.map_none] at h
      split at h
      · cases h
      · rw [if_neg (by omega)]
        exact .overflow
  | some v =>
      rw [ht, Option.map_some] at h
      split at h
      · have hv : v.toNat = m.value := Option.some.inj h
        rw [okOr, ok_bind]
        by_cases hle : (m.value : Int) ≤ 2 ^ 127 - 1
        · rw [if_neg (by omega), if_pos hle]
          obtain ⟨r, e, hr⟩ := hf v hv (by omega)
          rw [e]
          exact .returns hr
        · rw [if_pos (by omega), if_neg hle]
          exact .overflow
      · cases h

theorem negate_small {v : U128} (h : v.toNat < 2 ^ 127) :
    ∃ r, negate v = .ok r ∧ r.toInt = -(v.toNat : Int) := by
  have hv : v.toInt = v.toNat := by rcases I256.toInt_cases v with ⟨_, _, _⟩ | ⟨_, _, _⟩ <;> omega
  refine ⟨-v, if_neg (by unfold I128_MIN; omega), ?_⟩
  have hneg : (-v).toNat = (2 ^ 128 - v.toNat) % 2 ^ 128 := BitVec.toNat_neg ..
  rcases I256.toInt_cases (-v) with ⟨_, _, _⟩ | ⟨_, _, _⟩ <;> omega

/-- A quotient rounded away from zero, narrowed and negated. -/
theorem roundedUp_computes (q : U256) :
    Computes BitVec.toInt
      (okOr (q.checkedAdd U256.ONE) >>= fun mag => okOr mag.tryIntoU128 >>= fun v =>
        if I128_MAX < v.toNat then .error .overflow else negate v)
      (if ((q.value + 1 : Nat) : Int) ≤ I128_MAX then some (-((q.value + 1 : Nat) : Int)) else none) := by
  have next := U256.checkedAdd_spec q U256.ONE
  rw [U256.value_one] at next
  have hq256 := q.value_lt
  unfold Percolator.U256.checkedAdd at next
  by_cases hmax : q.value = U256_MAX
  · unfold U256_MAX at hmax
    rw [if_neg (by unfold U256_MAX; omega)] at next
    rw [Option.map_eq_none_iff.mp next, if_neg (by unfold I128_MAX; omega)]
    exact .overflow
  · unfold U256_MAX at hmax
    rw [if_pos (by unfold U256_MAX; omega)] at next
    obtain ⟨m, em, hm⟩ := Option.map_eq_some_iff.mp next
    rw [em, ← hm]
    refine narrow_computes fun v hv hsmall => ?_
    rw [← hv]
    exact negate_small hsmall

/-- The division of magnitudes with the sign put back. -/
theorem signedQuotient_computes {negative : Bool} {p den : Nat} {q rem : U256} (hden : den ≠ 0)
    (hq : q.value = p / den) (hrem : rem.value = p % den) :
    Computes BitVec.toInt (signedQuotient negative q rem) (signedFloorDiv negative p den) := by
  have exactly : signedFloorDiv negative p den =
      if ((if negative then ceilDiv p den else p / den : Nat) : Int) ≤ I128_MAX then
        some (if negative then -((ceilDiv p den : Nat) : Int) else (p / den : Nat)) else none := by
    unfold signedFloorDiv
    cases negative <;> simp [hden]
  rw [exactly]
  unfold signedQuotient
  cases negative with
  | false =>
      simp only [Bool.false_eq_true, if_false]
      rw [← hq]
      refine narrow_computes fun v hv hsmall => ⟨v, rfl, ?_⟩
      rcases I256.toInt_cases v with ⟨_, _, _⟩ | ⟨_, _, _⟩ <;> omega
  | true =>
      simp only [if_true]
      unfold ceilDiv
      rw [← hq, ← hrem]
      by_cases hz : rem.isZero = true
      · rw [if_pos hz, if_pos ((U256.isZero_iff rem).mp hz)]
        refine narrow_computes fun v hv hsmall => ?_
        rw [← hv]
        exact negate_small hsmall
      · rw [if_neg hz, if_neg fun h => hz ((U256.isZero_iff rem).mpr h)]
        exact roundedUp_computes q

/-- The settlement on limbs computes the settlement on values. -/
theorem computeKfPnlDeltaWide_computes (absBasis kSnap : U128) (kNowWide : I256) (fSnap : U128)
    (fNowWide : I256) {den : U128} (hden : den ≠ 0) :
    Computes BitVec.toInt (computeKfPnlDeltaWide absBasis kSnap kNowWide fSnap fNowWide den)
      (Percolator.computeKfPnlDeltaWide absBasis.toNat kSnap.toInt kNowWide.value fSnap.toInt
        fNowWide.value den.toNat) := by
  rw [computeKfPnlDeltaWide_unfold]
  unfold computeKfPnlDeltaWide
  by_cases hb : absBasis = 0
  · rw [if_pos hb, if_pos (toNat_eq_zero_iff.mpr hb)]
    exact .returns BitVec.toInt_zero
  rw [if_neg hb, if_neg fun h => hb (toNat_eq_zero_iff.mp h)]
  have subK := I256.checkedSub_spec kNowWide (I256.fromI128 kSnap)
  have subF := I256.checkedSub_spec fNowWide (I256.fromI128 fSnap)
  rw [I256.fromI128_value] at subK subF
  refine Computes.bind (Computes.okOr subK) fun kDiff _ => ?_
  refine Computes.bind (scaleByFundingDen_computes kDiff) fun kScaled _ => ?_
  refine Computes.bind (Computes.okOr subF) fun fDiff _ => ?_
  refine Computes.bind (Computes.okOr (I256.checkedAdd_spec kScaled fDiff)) fun combined _ => ?_
  by_cases hz : combined.isZero = true
  · rw [if_pos hz, if_pos ((I256.isZero_iff combined).mp hz)]
    exact .returns BitVec.toInt_zero
  rw [if_neg hz, if_neg fun h => hz ((I256.isZero_iff combined).mpr h)]
  by_cases hmin : combined = I256.MIN
  · rw [if_pos hmin, if_pos ((I256.eq_min_iff combined).mp hmin)]
    exact .overflow
  rw [if_neg hmin, if_neg fun h => hmin ((I256.eq_min_iff combined).mpr h)]
  obtain ⟨absCombined, ec, vc⟩ := I256.absU256_spec fun h => hmin ((I256.eq_min_iff combined).mpr h)
  have denominator := U256.checkedMul_spec (U256.fromU128 den) (U256.fromU128 (BitVec.ofNat 128 FUNDING_DEN))
  have product := U256.checkedMul_spec (U256.fromU128 absBasis) absCombined
  rw [U256.value_fromU128, fundingDen_value] at denominator
  rw [U256.value_fromU128, vc] at product
  rw [ec, ok_bind]
  refine Computes.step denominator fun denWide hdw => ?_
  refine Computes.step product fun p _ => ?_
  have hdw : denWide.value ≠ 0 := by
    rw [(checkedMulU256_eq hdw).symm]
    exact Nat.mul_ne_zero (fun h => hden (toNat_eq_zero_iff.mp h)) (by decide)
  obtain ⟨q, rem, e, hq, hrem⟩ := divRemU256_spec p hdw
  rw [e, ok_bind, ← I256.isNegative_eq]
  exact signedQuotient_computes hdw hq hrem

end Wide
end Percolator
