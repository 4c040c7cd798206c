import Percolator.Engine.Interface
import Percolator.Wide.Engine

/-!
The arithmetic of `enqueue_adl` on limbs: what the deficit takes off K, the
headroom it must leave, the multiplier after the close, and the dust that scaling
creates.
-/

namespace Percolator
namespace Wide

open Effect

/-- `checked_add` of `i128`. -/
def checkedAddI128 (a b : U128) : Option U128 :=
  if I128_MIN ≤ a.toInt + b.toInt ∧ a.toInt + b.toInt ≤ I128_MAX then some (a + b) else none

/-- The headroom check of step 7 of `enqueue_adl`. -/
def adlHeadroom (kOpp aOld deltaKAbs : U128) : Except Halt (Option U128) := do
  let deltaK ← negate deltaKAbs
  match checkedAddI128 kOpp deltaK with
  | none => return none
  | some newK =>
      match ← (U256.fromU128 aOld).checkedMul (U256.fromU128 (BitVec.ofNat 128 MAX_ORACLE_PRICE)) with
      | none => return none
      | some mark =>
          let absNewK := U256.fromU128 (unsignedAbs newK)
          match (U256.fromU128 (BitVec.ofInt 128 I128_MAX)).checkedSub absNewK with
          | none => return none
          | some budget => return if U256.lt budget mark then none else some newK

/-- The K index that step 7 of `enqueue_adl` writes, if the deficit goes to it. -/
def socializedK (kOpp aOld oi dRem : U128) : Except Halt (Option U128) := do
  if dRem = 0 then return none
  else do
    let aPs ← okOr (if aOld.toNat * POS_SCALE < 2 ^ 128 then some (aOld * BitVec.ofNat 128 POS_SCALE)
      else none)
    match ← wideMulDivCeilU128OrOverI128max dRem aPs oi with
    | none => return none
    | some deltaKAbs => adlHeadroom kOpp aOld deltaKAbs

/-- The multiplier that steps 8 to 10 of `enqueue_adl` compute. -/
def adlCandidate (aOld oiPost oi : U128) : Except Halt U128 := do
  let (aCandidate, _) ← mulDivFloorU256WithRem (U256.fromU128 aOld) (U256.fromU128 oiPost)
    (U256.fromU128 oi)
  okOr aCandidate.tryIntoU128

/-- `global_a_dust_bound` of step 10 of `enqueue_adl`. -/
def globalADustBound (nOpp : U64) (oi aOld : U128) : Except Halt U128 := do
  let nOppU256 := U256.fromU128 (nOpp.setWidth 128)
  let oiPlusN := ((U256.fromU128 oi).checkedAdd nOppU256).getD U256.MAX
  let ceilTerm ← ceilDivPositiveChecked oiPlusN (U256.fromU128 aOld)
  let bound := (nOppU256.checkedAdd ceilTerm).getD U256.MAX
  return bound.tryIntoU128.getD (BitVec.allOnes 128)

/-- The words of the opposing side that `enqueue_adl` reads and writes. -/
structure OpposingWords where
  adlMult : U128
  adlCoeff : U128
  oiEffQ : U128
  phantomDustBoundQ : U128
  storedPosCount : U64
  sideMode : SideMode
deriving DecidableEq, Repr

/-- The words hold a side. -/
structure OpposingWords.Hold (w : OpposingWords) (v : SideState) : Prop where
  adlMult : v.adlMult = w.adlMult.toNat
  adlCoeff : v.adlCoeff = w.adlCoeff.toInt
  oiEffQ : v.oiEffQ = w.oiEffQ.toNat
  phantomDustBoundQ : v.phantomDustBoundQ = w.phantomDustBoundQ.toNat
  storedPosCount : v.storedPosCount = w.storedPosCount.toNat
  sideMode : v.sideMode = w.sideMode

/-- The dust bound after step 10 of `enqueue_adl`. -/
def dustAfter (w : OpposingWords) (oiPost : U128) : Except Halt U128 :=
  if oiPost.toNat < w.oiEffQ.toNat then do
    let bound ← globalADustBound w.storedPosCount w.oiEffQ w.adlMult
    okOr (checkedAdd w.phantomDustBoundQ bound)
  else .ok w.phantomDustBoundQ

/-- Steps 8 to 11 of `enqueue_adl` on the words of the opposing side. -/
def shrinkOpposing (w : OpposingWords) (qCloseQ : U128) : Except Halt OpposingWords := do
  let oiPost := w.oiEffQ - qCloseQ
  if oiPost = 0 then return { w with oiEffQ := 0 }
  else do
    let aNew ← adlCandidate w.adlMult oiPost w.oiEffQ
    if aNew = 0 then return { w with oiEffQ := 0 }
    else do
      let dust ← dustAfter w oiPost
      return { w with
        adlMult := aNew, oiEffQ := oiPost, phantomDustBoundQ := dust
        sideMode := if aNew.toNat < MIN_A_SIDE then .drainOnly else w.sideMode }

/-- Steps 7 to 11 of `enqueue_adl` on the words of the opposing side, of which
`qCloseQ` is closed against the deficit `dRem`. -/
def deleverage (w : OpposingWords) (dRem qCloseQ : U128) : Except Halt OpposingWords := do
  let newK ← socializedK w.adlCoeff w.adlMult w.oiEffQ dRem
  shrinkOpposing { w with adlCoeff := newK.getD w.adlCoeff } qCloseQ

/-- What `use_insurance_buffer` leaves of the fund and of the loss. -/
def useInsuranceBuffer (balance floor loss : U128) : U128 × U128 :=
  let available := if floor.toNat ≤ balance.toNat then balance - floor else 0
  let pay := if loss.toNat ≤ available.toNat then loss else available
  (balance - pay, loss - pay)

/-- The words that `enqueue_adl` reads and writes, past the liquidated side. -/
structure AdlWords where
  opposing : OpposingWords
  insuranceFund : U128
  insuranceFloor : U128
deriving DecidableEq, Repr

/-- The words hold an engine in which a position of side `liq` is closed. -/
structure AdlWords.Hold (w : AdlWords) (liq : Side) (s : RiskEngine) : Prop where
  opposing : w.opposing.Hold (s.sides liq.opposite)
  insuranceFund : s.insuranceFund = w.insuranceFund.toNat
  insuranceFloor : s.params.insuranceFloor = w.insuranceFloor.toNat

/-- Steps 4 to 11 of `enqueue_adl` on the words of the opposing side, past the
checks of step 5 and 6. -/
def closeAgainst (w : OpposingWords) (dRem qCloseQ : U128) : Except Halt OpposingWords :=
  if w.oiEffQ = 0 then .ok w
  else if w.storedPosCount = 0 then .ok { w with oiEffQ := w.oiEffQ - qCloseQ }
  else deleverage w dRem qCloseQ

/-- `enqueue_adl` past its checks, on the opposing side and the fund. -/
def enqueueAdl (w : AdlWords) (qCloseQ d : U128) : Except Halt AdlWords := do
  let paid := useInsuranceBuffer w.insuranceFund w.insuranceFloor d
  let opposing ← closeAgainst w.opposing paid.2 qCloseQ
  return { w with opposing := opposing, insuranceFund := paid.1 }

theorem checkedAddI128_spec (a b : U128) :
    (checkedAddI128 a b).map BitVec.toInt = Percolator.checkedAddI128 a.toInt b.toInt := by
  unfold checkedAddI128 Percolator.checkedAddI128 toI128
  by_cases fits : I128_MIN ≤ a.toInt + b.toInt ∧ a.toInt + b.toInt ≤ I128_MAX
  · rw [if_pos fits, if_pos fits, Option.map_some, BitVec.toInt_add]
    have := Int.bmod_def (a.toInt + b.toInt) (2 ^ 128)
    unfold I128_MIN I128_MAX at fits
    exact congrArg some (by omega)
  · rw [if_neg fits, if_neg fits, Option.map_none]

theorem adlHeadroom_spec (kOpp aOld : U128) {deltaKAbs : U128} (small : deltaKAbs.toNat < 2 ^ 127) :
    ∃ r, adlHeadroom kOpp aOld deltaKAbs = .ok r ∧
      r.map BitVec.toInt = Percolator.adlHeadroom kOpp.toInt aOld.toNat deltaKAbs.toNat := by
  obtain ⟨deltaK, negated, value⟩ := negate_small small
  have price : (U256.fromU128 (BitVec.ofNat 128 MAX_ORACLE_PRICE)).value = MAX_ORACLE_PRICE := by decide
  have most : (U256.fromU128 (BitVec.ofInt 128 I128_MAX)).value = I128_MAX.toNat := by decide
  have sum := checkedAddI128_spec kOpp deltaK
  rw [value] at sum
  obtain ⟨product, multiplied, mark⟩ := U256.checkedMul_spec (U256.fromU128 aOld)
    (U256.fromU128 (BitVec.ofNat 128 MAX_ORACLE_PRICE))
  rw [U256.value_fromU128, price] at mark
  unfold adlHeadroom Percolator.adlHeadroom
  rw [negated, ok_bind, ← sum, ← mark]
  cases checkedAddI128 kOpp deltaK with
  | none => exact ⟨none, rfl, rfl⟩
  | some newK =>
      simp only [multiplied, ok_bind]
      cases product with
      | none => exact ⟨none, rfl, rfl⟩
      | some m =>
          have left := U256.checkedSub_spec (U256.fromU128 (BitVec.ofInt 128 I128_MAX))
            (U256.fromU128 (unsignedAbs newK))
          rw [most, U256.value_fromU128, toNat_unsignedAbs] at left
          simp only [Option.map_some, Option.bind_eq_bind, Option.bind_some]
          rw [← left]
          cases (U256.fromU128 (BitVec.ofInt 128 I128_MAX)).checkedSub (U256.fromU128 (unsignedAbs newK)) with
          | none => exact ⟨none, rfl, rfl⟩
          | some budget =>
              refine ⟨_, rfl, ?_⟩
              simp only [Option.map_some, Option.bind_some]
              by_cases short : U256.lt budget m = true
              · rw [if_pos short, if_neg (by rw [U256.lt_iff] at short; omega)]
                rfl
              · rw [if_neg short, if_pos (by rw [U256.lt_iff] at short; omega)]
                rfl

theorem adlCandidate_exact (aOld : U128) {oiPost oi : U128} (le : oiPost.toNat ≤ oi.toNat) (hoi : oi ≠ 0) :
    ∃ a, adlCandidate aOld oiPost oi = .ok a ∧ a.toNat = aOld.toNat * oiPost.toNat / oi.toNat := by
  have hn : oi.toNat ≠ 0 := fun h => hoi (toNat_eq_zero_iff.mp h)
  have hd : (U256.fromU128 oi).value ≠ 0 := by rwa [U256.value_fromU128]
  have shrunk : aOld.toNat * oiPost.toNat / oi.toNat ≤ aOld.toNat :=
    Nat.div_le_of_le_mul (by rw [Nat.mul_comm oi.toNat]; exact Nat.mul_le_mul_left _ le)
  have := aOld.isLt
  obtain ⟨product, multiplied, ⟨q, r, divided, hq, -⟩ | ⟨-, large⟩⟩ :=
    product_divided (U256.fromU128 aOld) (U256.fromU128 oiPost) hd
  · simp only [U256.value_fromU128] at hq
    have narrowed := U256.tryIntoU128_spec q
    unfold Percolator.U256.tryIntoU128 U128_MAX at narrowed
    rw [if_pos (by omega)] at narrowed
    obtain ⟨a, some, value⟩ := Option.map_eq_some_iff.mp narrowed
    refine ⟨a, ?_, value.trans hq⟩
    unfold adlCandidate mulDivFloorU256WithRem
    rw [if_neg fun h => hd ((U256.isZero_iff _).mp h), multiplied, ok_bind, divided, ok_bind]
    simp only [some]
    rfl
  · simp only [U256.value_fromU128] at large
    unfold U256_MAX at large
    omega

theorem globalADustBound_exact (nOpp : U64) (oi : U128) {aOld : U128} (ha : aOld ≠ 0) :
    ∃ b, globalADustBound nOpp oi aOld = .ok b ∧
      b.toNat = Percolator.globalADustBound nOpp.toNat oi.toNat aOld.toNat := by
  have hd : (U256.fromU128 aOld).value ≠ 0 := by
    rw [U256.value_fromU128]
    exact fun h => ha (toNat_eq_zero_iff.mp h)
  have hn := nOpp.isLt
  have ho := oi.isLt
  have sum : ∃ t, (U256.fromU128 oi).checkedAdd (U256.fromU128 (nOpp.setWidth 128)) = some t ∧
      t.value = oi.toNat + nOpp.toNat := by
    have added := U256.checkedAdd_spec (U256.fromU128 oi) (U256.fromU128 (nOpp.setWidth 128))
    rw [U256.value_fromU128, U256.value_fromU128, toNat_widened] at added
    unfold Percolator.U256.checkedAdd U256_MAX at added
    rw [if_pos (by omega)] at added
    exact Option.map_eq_some_iff.mp added
  obtain ⟨t, added, value⟩ := sum
  obtain ⟨c, divided, ceil⟩ := (ceilDivPositiveChecked_returns t hd).returned
  rw [value, U256.value_fromU128] at ceil
  have few := ceilDiv_le_self (oi.toNat + nOpp.toNat) (Nat.pos_of_ne_zero (by rwa [U256.value_fromU128] at hd))
  have bound := U256.checkedAdd_spec (U256.fromU128 (nOpp.setWidth 128)) c
  rw [U256.value_fromU128, toNat_widened, ceil] at bound
  unfold Percolator.U256.checkedAdd U256_MAX at bound
  rw [if_pos (by omega)] at bound
  obtain ⟨b, summed, total⟩ := Option.map_eq_some_iff.mp bound
  unfold globalADustBound Percolator.globalADustBound
  simp only [added, Option.getD_some, divided, ok_bind, summed]
  refine ⟨_, rfl, ?_⟩
  have narrowed := U256.tryIntoU128_spec b
  unfold Percolator.U256.tryIntoU128 at narrowed
  rw [← total]
  by_cases fits : b.value ≤ U128_MAX
  · rw [if_pos fits] at narrowed
    obtain ⟨v, some, same⟩ := Option.map_eq_some_iff.mp narrowed
    rw [some, Option.getD_some, same, min_eq_left fits]
  · rw [if_neg fits] at narrowed
    rw [Option.map_eq_none_iff.mp narrowed, Option.getD_none, min_eq_right (by omega)]
    decide

/-- A magnitude that was answered is one of `i128`. -/
theorem fits_small {a b d n : Nat}
    (h : Percolator.wideMulDivCeilU128OrOverI128max a b d = some (.fits n)) : n < 2 ^ 127 := by
  unfold Percolator.wideMulDivCeilU128OrOverI128max I128_MAX at h
  split at h
  · cases h
  · split at h
    · have := DeltaK.fits.inj (Option.some.inj h)
      omega
    · cases h

theorem aPs_computes (aOld : U128) :
    Computes BitVec.toNat (okOr (if aOld.toNat * POS_SCALE < 2 ^ 128 then
      some (aOld * BitVec.ofNat 128 POS_SCALE) else none)) (checkedMulU128 aOld.toNat POS_SCALE) := by
  have scale : (BitVec.ofNat 128 POS_SCALE).toNat = POS_SCALE := by decide
  refine .okOr ?_
  unfold checkedMulU128 U128_MAX
  by_cases fits : aOld.toNat * POS_SCALE < 2 ^ 128
  · rw [if_pos fits, if_pos (by omega), Option.map_some, BitVec.toNat_mul, scale, Nat.mod_eq_of_lt fits]
  · rw [if_neg fits, if_neg (by omega), Option.map_none]

/-- A word is narrow. -/
theorem tryIntoU128_toNat (v : U128) : Percolator.U256.tryIntoU128 v.toNat = some v.toNat := by
  have := v.isLt
  exact if_pos (by unfold U128_MAX; omega)

theorem dustAfter_computes {w : OpposingWords} (oiPost : U128) (ha : w.adlMult ≠ 0) :
    Computes BitVec.toNat (dustAfter w oiPost) (if oiPost.toNat < w.oiEffQ.toNat then
      checkedAddU128 w.phantomDustBoundQ.toNat
        (Percolator.globalADustBound w.storedPosCount.toNat w.oiEffQ.toNat w.adlMult.toNat)
      else some w.phantomDustBoundQ.toNat) := by
  unfold dustAfter
  by_cases less : oiPost.toNat < w.oiEffQ.toNat
  · obtain ⟨bound, computed, value⟩ := globalADustBound_exact w.storedPosCount w.oiEffQ ha
    rw [if_pos less, if_pos less, computed, ok_bind, ← value]
    refine .okOr ?_
    unfold checkedAddU128 U128_MAX
    by_cases fits : w.phantomDustBoundQ.toNat + bound.toNat < 2 ^ 128
    · obtain ⟨added, sum⟩ := checkedAdd_some fits
      rw [added, if_pos (by omega), Option.map_some, sum]
    · rw [checkedAdd_none (by omega), if_neg (by omega), Option.map_none]
  · rw [if_neg less, if_neg less]
    exact .ok _

/-! ### The step as a whole -/

section Step

variable {s : RiskEngine} {l : List Event} {d : Side} {w : OpposingWords}

/-- The side after the deficit was written into K, or left uninsured. -/
def RiskEngine.withK (s : RiskEngine) (d : Side) (k : Option Int) : RiskEngine :=
  s.setSide d { s.sides d with adlCoeff := k.getD (s.sides d).adlCoeff }

theorem RiskEngine.withK_none (s : RiskEngine) (d : Side) : Wide.RiskEngine.withK s d none = s := s.setSide_eta d

/-- The deficit on words is the deficit of the model, its overflow included. -/
theorem socializeDeficit_words {oi dRem : U128} (hold : w.Hold (s.sides d)) (hoi : oi ≠ 0) :
    wp (socializeDeficit d oi.toNat dRem.toNat)
      (fun _ s' _ => ∃ newK, socializedK w.adlCoeff w.adlMult oi dRem = .ok newK ∧
        s' = RiskEngine.withK s d (newK.map BitVec.toInt))
      (fun e _ => e = .err .overflow ∧
        socializedK w.adlCoeff w.adlMult oi dRem = .error .overflow) s l := by
  set Q : Nat → RiskEngine → List Event → Prop := fun _ s' _ =>
    ∃ newK, socializedK w.adlCoeff w.adlMult oi dRem = .ok newK ∧
      s' = RiskEngine.withK s d (newK.map BitVec.toInt) with hQ
  set E : Plain → RiskEngine → Prop := fun e _ => e = .err .overflow ∧
    socializedK w.adlCoeff w.adlMult oi dRem = .error .overflow with hE
  have uninsured (k : Nat) (l : List Event)
      (h : socializedK w.adlCoeff w.adlMult oi dRem = .ok none) : Q k s l :=
    ⟨none, h, (RiskEngine.withK_none s d).symm⟩
  simp only [socializeDeficit, wp_bind, wp_read, wp_ite, wp_pure, wp_expect]
  rw [hold.adlMult, hold.adlCoeff]
  refine ⟨fun zero => ?_, fun due => ?_⟩
  · refine uninsured 0 l ?_
    unfold socializedK
    rw [if_pos (toNat_eq_zero_iff.mp zero)]
    rfl
  have due : ¬ dRem = 0 := fun h => due (toNat_eq_zero_iff.mpr h)
  refine wp_orErr_computes (aPs_computes w.adlMult) (fun aPs scaled => ?_) fun overflow => ⟨rfl, ?_⟩
  · have words : socializedK w.adlCoeff w.adlMult oi dRem =
        (wideMulDivCeilU128OrOverI128max dRem aPs oi >>= fun r =>
          match r with
          | none => .ok none
          | some deltaKAbs => adlHeadroom w.adlCoeff w.adlMult deltaKAbs) := by
      unfold socializedK
      rw [if_neg due, scaled]
      rfl
    have rounded := wideMulDivCeilU128OrOverI128max_returns dRem aPs hoi
    refine ⟨fun halts => ?_, fun delta answers => ?_⟩
    · have bounded := (ceilDiv_le_self (dRem.toNat * aPs.toNat)
        (Nat.pos_of_ne_zero fun h => hoi (toNat_eq_zero_iff.mp h))).trans (product_narrow dRem aPs)
      unfold Percolator.wideMulDivCeilU128OrOverI128max at halts
      rw [if_neg (not_or.mpr ⟨fun h => hoi (toNat_eq_zero_iff.mp h), not_lt.mpr bounded⟩)] at halts
      split at halts <;> cases halts
    · rw [answers] at rounded
      obtain ⟨r, divided, same⟩ := rounded.returned
      rw [divided, ok_bind] at words
      cases r with
      | none =>
          subst same
          exact uninsured 0 l words
      | some deltaKAbs =>
          subst same
          obtain ⟨newK, checked, headroom⟩ :=
            adlHeadroom_spec w.adlCoeff w.adlMult (fits_small answers)
          have written : Q 0 (RiskEngine.withK s d (newK.map BitVec.toInt)) l :=
            ⟨newK, words.trans checked, rfl⟩
          rw [headroom] at written
          dsimp only [Wide.deltaK]
          cases kept : Percolator.adlHeadroom w.adlCoeff.toInt w.adlMult.toNat deltaKAbs.toNat with
          | none =>
              rw [kept, RiskEngine.withK_none] at written
              exact written
          | some k =>
              rw [kept] at written
              simp only [wp_bind, wp_writeSide, wp_pure]
              exact written
  · unfold socializedK
    rw [if_neg due, overflow]
    rfl

/-- The close on words is the close of the model, its overflow included. -/
theorem shrinkOpposing_words {ctx : InstructionContext} {liq : Side} {q : U128} {k : Nat}
    (hold : w.Hold (s.sides liq.opposite)) (hoi : w.oiEffQ ≠ 0) (le : q.toNat ≤ w.oiEffQ.toNat) :
    wp (Percolator.shrinkOpposing ctx liq w.oiEffQ.toNat q.toNat k)
      (fun _ s' _ => ∃ w', shrinkOpposing w q = .ok w' ∧ w'.Hold (s'.sides liq.opposite))
      (fun e _ => e = .err .overflow ∧ shrinkOpposing w q = .error .overflow) s l := by
  have post : (w.oiEffQ - q).toNat = w.oiEffQ.toNat - q.toNat := BitVec.toNat_sub_of_le le
  have left : (w.oiEffQ - q).toNat ≤ w.oiEffQ.toNat := by omega
  obtain ⟨aNew, candidate, value⟩ := adlCandidate_exact w.adlMult left hoi
  rw [post] at value
  have emptied {side : SideState}
      (words : shrinkOpposing w q = .ok { w with oiEffQ := 0 })
      (cleared : side = { s.sides liq.opposite with oiEffQ := 0 }) :
      ∃ w', shrinkOpposing w q = .ok w' ∧ w'.Hold side := by
    refine ⟨_, words, ?_⟩
    rw [cleared]
    exact ⟨hold.adlMult, hold.adlCoeff, rfl, hold.phantomDustBoundQ, hold.storedPosCount, hold.sideMode⟩
  have shrinks : Percolator.mulDivFloorU256WithRem (s.sides liq.opposite).adlMult
      (w.oiEffQ.toNat - q.toNat) w.oiEffQ.toNat =
        some (aNew.toNat, w.adlMult.toNat * (w.oiEffQ.toNat - q.toNat) % w.oiEffQ.toNat) := by
    unfold Percolator.mulDivFloorU256WithRem
    have := aNew.isLt
    rw [hold.adlMult, ← value, if_neg]
    rintro (zero | large)
    · exact hoi (toNat_eq_zero_iff.mp zero)
    · unfold U256_MAX at large
      omega
  simp only [Percolator.shrinkOpposing, wp_bind, wp_read, wp_ite, wp_writeSide, wp_emit, wp_pure,
    wp_expect, wp_orErr, wp_whenever]
  refine ⟨fun drained => ?_, fun remains => ⟨fun halts => ?_, fun answer divided => ?_⟩⟩
  · refine emptied ?_ (RiskEngine.setSide_same ..)
    unfold shrinkOpposing
    rw [if_pos (toNat_eq_zero_iff.mp (post.trans drained))]
    rfl
  · rw [shrinks] at halts
    cases halts
  rw [shrinks] at divided
  cases divided
  have remains : w.oiEffQ - q ≠ 0 := fun h => remains (post.symm.trans (toNat_eq_zero_iff.mpr h))
  refine ⟨fun scaled => ⟨fun wide => ?_, fun a narrowed => ?_⟩, fun exhausted => ?_⟩
  · rw [tryIntoU128_toNat] at wide
    cases wide
  · rw [tryIntoU128_toNat] at narrowed
    cases narrowed
    have scaled : aNew ≠ 0 := fun h => scaled (toNat_eq_zero_iff.mpr h)
    -- a multiplier of zero scales to zero, and the dust is not computed
    have ha : w.adlMult ≠ 0 := fun zero => by
      rw [zero, toNat_zero, Nat.zero_mul, Nat.zero_div] at value
      exact scaled (toNat_eq_zero_iff.mp value)
    have words : shrinkOpposing w q = dustAfter w (w.oiEffQ - q) >>= fun dust => .ok { w with
        adlMult := aNew, oiEffQ := w.oiEffQ - q, phantomDustBoundQ := dust
        sideMode := if aNew.toNat < MIN_A_SIDE then .drainOnly else w.sideMode } := by
      unfold shrinkOpposing
      rw [if_neg remains, candidate, ok_bind, if_neg scaled]
      rfl
    -- the mode follows the multiplier, whether or not the close made dust
    have held {kept drains : SideState} {dust : U128}
        (bound : dustAfter w (w.oiEffQ - q) = .ok dust)
        (shrunk : kept = { s.sides liq.opposite with
          adlMult := aNew.toNat, oiEffQ := w.oiEffQ.toNat - q.toNat, phantomDustBoundQ := dust.toNat })
        (draining : drains = { kept with sideMode := .drainOnly }) :
        (aNew.toNat < MIN_A_SIDE → ∃ w', shrinkOpposing w q = .ok w' ∧ w'.Hold drains) ∧
        (¬ aNew.toNat < MIN_A_SIDE → ∃ w', shrinkOpposing w q = .ok w' ∧ w'.Hold kept) := by
      subst draining shrunk
      rw [bound] at words
      refine ⟨fun low => ⟨_, words, ?_⟩, fun high => ⟨_, words, ?_⟩⟩
      · exact ⟨rfl, hold.adlCoeff, post.symm, rfl, hold.storedPosCount, (if_pos low).symm⟩
      · exact ⟨rfl, hold.adlCoeff, post.symm, rfl, hold.storedPosCount,
          hold.sideMode.trans (if_neg high).symm⟩
    have dust := dustAfter_computes (w.oiEffQ - q) ha
    rw [post, ← hold.phantomDustBoundQ, ← hold.storedPosCount, ← hold.adlMult] at dust
    refine ⟨fun less => ?_, fun whole => ?_⟩
    · rw [if_pos less] at dust
      simp only [incPhantomDustBoundBy, wp_bind, wp_read, wp_writeSide, RiskEngine.setSide_same]
      refine wp_orErr_computes dust (fun bound made => ?_) fun overflow => ⟨rfl, ?_⟩
      · simp only [RiskEngine.setSide_same]
        exact held made rfl rfl
      · rw [words, overflow]
        rfl
    · have made : dustAfter w (w.oiEffQ - q) = .ok w.phantomDustBoundQ := if_neg (by omega)
      rw [RiskEngine.setSide_same, RiskEngine.setSide_same]
      exact held made (by rw [← hold.phantomDustBoundQ]) rfl
  · refine emptied ?_ ?_
    · unfold shrinkOpposing
      rw [if_neg remains, candidate, ok_bind, if_pos (toNat_eq_zero_iff.mp (not_not.mp exhausted))]
      rfl
    · simp [liq.opposite_ne]

/-- Steps 7 to 11 on words are steps 7 to 11 of the model. -/
theorem deleverage_words {ctx : InstructionContext} {liq : Side} {dRem q : U128}
    (hold : w.Hold (s.sides liq.opposite)) (hoi : w.oiEffQ ≠ 0) (le : q.toNat ≤ w.oiEffQ.toNat) :
    wp (do
        let k ← socializeDeficit liq.opposite w.oiEffQ.toNat dRem.toNat
        Percolator.shrinkOpposing ctx liq w.oiEffQ.toNat q.toNat k)
      (fun _ s' _ => ∃ w', deleverage w dRem q = .ok w' ∧ w'.Hold (s'.sides liq.opposite))
      (fun e _ => e = .err .overflow ∧ deleverage w dRem q = .error .overflow) s l := by
  unfold deleverage
  rw [wp_bind]
  refine wp_mono (socializeDeficit_words hold hoi) ?_ ?_
  · rintro k s₁ l₁ ⟨newK, made, rfl⟩
    rw [made]
    refine shrinkOpposing_words (w := { w with adlCoeff := newK.getD w.adlCoeff }) ?_ hoi le
    unfold RiskEngine.withK
    rw [RiskEngine.setSide_same]
    refine ⟨hold.adlMult, ?_, hold.oiEffQ, hold.phantomDustBoundQ, hold.storedPosCount, hold.sideMode⟩
    cases newK with
    | none => exact hold.adlCoeff
    | some v => rfl
  · rintro e s₁ ⟨err, overflow⟩
    rw [overflow]
    exact ⟨err, rfl⟩

/-- The run of steps 7 to 11 writes the two sides only. -/
theorem deleverage_frame {ctx : InstructionContext} {liq : Side} {oi dRem q : Nat} :
    wp (do
        let k ← socializeDeficit liq.opposite oi dRem
        Percolator.shrinkOpposing ctx liq oi q k)
      (fun _ s' _ => s'.insuranceFund = s.insuranceFund ∧ s'.params = s.params)
      (fun _ _ => True) s l := by
  have socialized : wp (socializeDeficit liq.opposite oi dRem)
      (fun _ s' _ => s'.insuranceFund = s.insuranceFund ∧ s'.params = s.params) (fun _ _ => True) s l := by
    simp only [socializeDeficit, wp_bind, wp_read, wp_ite, wp_pure, wp_orErr, wp_expect, implies_true,
      true_and]
    intro _ aPs _ delta _
    cases delta with
    | overI128Magnitude => exact ⟨rfl, rfl⟩
    | fits deltaKAbs =>
        dsimp only
        cases Percolator.adlHeadroom (s.sides liq.opposite).adlCoeff (s.sides liq.opposite).adlMult
            deltaKAbs with
        | none => exact wp_pure.mpr ⟨rfl, rfl⟩
        | some newK =>
            simp only [wp_bind, wp_writeSide, wp_pure]
            exact ⟨rfl, rfl⟩
  rw [wp_bind]
  refine wp_mono socialized ?_ fun _ _ _ => trivial
  rintro k s₁ l₁ ⟨fund, params⟩
  simp only [Percolator.shrinkOpposing, incPhantomDustBoundBy, wp_bind, wp_read, wp_ite, wp_writeSide,
    wp_emit, wp_pure, wp_expect, wp_orErr, wp_whenever, implies_true, true_and]
  simp [fund, params]

theorem useInsuranceBuffer_exact (balance floor loss : U128) :
    (useInsuranceBuffer balance floor loss).1.toNat =
        balance.toNat - min loss.toNat (balance.toNat - floor.toNat) ∧
      (useInsuranceBuffer balance floor loss).2.toNat =
        loss.toNat - min loss.toNat (balance.toNat - floor.toNat) := by
  have sub {a b : U128} (le : b.toNat ≤ a.toNat) : (a - b).toNat = a.toNat - b.toNat :=
    BitVec.toNat_sub_of_le le
  have available : (if floor.toNat ≤ balance.toNat then balance - floor else 0).toNat =
      balance.toNat - floor.toNat := by
    split
    · next le => exact sub le
    · next short => rw [toNat_zero, Nat.sub_eq_zero_of_le (by omega)]
  unfold useInsuranceBuffer
  simp only [available]
  split
  · next covered =>
      rw [min_eq_left covered]
      exact ⟨sub (by omega), sub le_rfl⟩
  · next short =>
      rw [min_eq_right (by omega), ← available]
      exact ⟨sub (by omega), sub (by omega)⟩

/-- `enqueue_adl` on words is `enqueue_adl` of the model: the same words, the same
overflow, no panic. -/
theorem enqueueAdl_words {w : AdlWords} {ctx : InstructionContext} {liq : Side} {q deficit : U128}
    (hold : w.Hold liq s) :
    (∀ ctx' s' l', Percolator.enqueueAdl ctx liq q.toNat deficit.toNat s = .ok ctx' s' l' →
      ∃ w', enqueueAdl w q deficit = .ok w' ∧ w'.Hold liq s') ∧
    ∀ e s', Percolator.enqueueAdl ctx liq q.toNat deficit.toNat s = .fault e s' →
      e = .corrupt .enqueueAdl ∧ ((s.sides liq).oiEffQ < q.toNat ∨
        w.opposing.oiEffQ ≠ 0 ∧ w.opposing.oiEffQ.toNat < q.toNat) ∨
      e = .plain (.err .overflow) ∧ enqueueAdl w q deficit = .error .overflow := by
  set Q : InstructionContext → RiskEngine → List Event → Prop := fun _ s' _ =>
    ∃ w', enqueueAdl w q deficit = .ok w' ∧ w'.Hold liq s' with hQ
  set E : Fault → RiskEngine → Prop := fun e _ =>
    e = .corrupt .enqueueAdl ∧ ((s.sides liq).oiEffQ < q.toNat ∨
      w.opposing.oiEffQ ≠ 0 ∧ w.opposing.oiEffQ.toNat < q.toNat) ∨
    e = .plain (.err .overflow) ∧ enqueueAdl w q deficit = .error .overflow with hE
  suffices ran : wp (Percolator.enqueueAdl ctx liq q.toNat deficit.toNat) Q E s [] from
    ⟨fun ctx' s' l' run => wp_at ran run, fun e s' run => wp_sound_fault (E := E) run ran⟩
  obtain ⟨balance, dRem⟩ := useInsuranceBuffer_exact w.insuranceFund w.insuranceFloor deficit
  have opposite : liq.opposite ≠ liq := liq.opposite_ne
  simp only [Percolator.enqueueAdl, Percolator.useInsuranceBuffer, wp_bind, wp_read, wp_ite,
    wp_writeSide, wp_corruptIf, wp_lift, wp_pure, wp_update]
  simp only [RiskEngine.withInsuranceFund_sides, RiskEngine.setSide_sides, opposite, if_true, if_false,
    RiskEngine.setSide_insuranceFund, RiskEngine.setSide_params, hold.insuranceFund,
    hold.insuranceFloor, ← balance, ← dRem, hold.opposing.oiEffQ, hold.opposing.storedPosCount]
  set s₁ := (s.setSide liq _).withInsuranceFund _ with hs₁
  have ready : w.opposing.Hold (s₁.sides liq.opposite) := by
    rw [hs₁, RiskEngine.withInsuranceFund_sides, RiskEngine.setSide_sides, if_neg opposite]
    exact hold.opposing
  set rest := (useInsuranceBuffer w.insuranceFund w.insuranceFloor deficit).2 with hrest
  have words : enqueueAdl w q deficit = closeAgainst w.opposing rest q >>= fun v => .ok { w with
      opposing := v, insuranceFund := (useInsuranceBuffer w.insuranceFund w.insuranceFloor deficit).1 } :=
    rfl
  have held {s' : RiskEngine} {v : OpposingWords} (closed : closeAgainst w.opposing rest q = .ok v)
      (side : v.Hold (s'.sides liq.opposite))
      (frame : s'.insuranceFund = s₁.insuranceFund ∧ s'.params = s₁.params) :
      ∃ w', enqueueAdl w q deficit = .ok w' ∧ w'.Hold liq s' := by
    rw [closed] at words
    exact ⟨_, words, side, frame.1, frame.2 ▸ hold.insuranceFloor⟩
  refine ⟨fun short => .inl ⟨rfl, .inl short⟩, fun _ => ⟨fun vacant => ?_, fun live =>
    ⟨fun short => .inl ⟨rfl, .inr ⟨?_, short⟩⟩, fun enough => ⟨fun unheld => ?_, fun stored => ?_⟩⟩⟩⟩
  · exact held (if_pos (toNat_eq_zero_iff.mp vacant)) ready ⟨rfl, rfl⟩
  · exact fun zero => live (toNat_eq_zero_iff.mpr zero)
  · have unstored : w.opposing.storedPosCount = 0 := BitVec.eq_of_toNat_eq unheld
    refine held (v := { w.opposing with oiEffQ := w.opposing.oiEffQ - q }) ?_ ?_ ⟨rfl, rfl⟩
    · unfold closeAgainst
      rw [if_neg fun zero => live (toNat_eq_zero_iff.mpr zero), if_pos unstored]
    · rw [RiskEngine.setSide_same]
      exact ⟨hold.opposing.adlMult, hold.opposing.adlCoeff,
        (BitVec.toNat_sub_of_le (not_lt.mp enough)).symm, hold.opposing.phantomDustBoundQ, rfl,
        hold.opposing.sideMode⟩
  · have closed : closeAgainst w.opposing rest q = deleverage w.opposing rest q := by
      unfold closeAgainst
      rw [if_neg fun zero => live (toNat_eq_zero_iff.mpr zero),
        if_neg fun none => stored (congrArg BitVec.toNat none)]
    refine wp_bind.mp (wp_mono (wp_and (deleverage_words ready
      (fun zero => live (toNat_eq_zero_iff.mpr zero)) (not_lt.mp enough)) deleverage_frame) ?_ ?_)
    · rintro a s' l' ⟨⟨v, same, side⟩, frame⟩
      exact held (closed.trans same) side frame
    · rintro e s' ⟨⟨rfl, overflow⟩, -⟩
      exact .inr ⟨rfl, by rw [words, closed, overflow]; rfl⟩

/-- The words of `tradedMarket` in which a long position is closed. -/
def tradedWords : AdlWords where
  opposing := ⟨1000000000000000, 0, 50000000, 0, 1, .normal⟩
  insuranceFund := 100
  insuranceFloor := 0

/-- Of 50 units open, 20 are closed with a deficit that the fund of 100 does not cover. -/
theorem tradedMarket_enqueueAdl_words :
    ∃ w', enqueueAdl tradedWords 20000000 5100 = .ok w' ∧ w'.opposing.adlMult.toNat = 600000000000000 ∧
      w'.opposing.adlCoeff.toInt = -100000000000000000 ∧ w'.insuranceFund.toNat = 0 := by
  have hold : tradedWords.Hold .long tradedMarket :=
    ⟨⟨by decide +kernel, by decide +kernel, by decide +kernel, by decide +kernel, by decide +kernel,
      by decide +kernel⟩, by decide +kernel, by decide +kernel⟩
  set o := Percolator.enqueueAdl .new .long (20000000 : U128).toNat (5100 : U128).toNat tradedMarket with ho
  have shrunk : o.ended = true ∧ (o.final.sides .short).adlMult = 600000000000000 ∧
      (o.final.sides .short).adlCoeff = -100000000000000000 ∧ o.final.insuranceFund = 0 := by
    decide +kernel
  obtain ⟨_, _, run⟩ := Outcome.eq_ok shrunk.1
  obtain ⟨w', words, held⟩ := (enqueueAdl_words hold).1 _ _ _ (ho.symm.trans run)
  refine ⟨w', words, ?_, ?_, ?_⟩
  · exact held.opposing.adlMult.symm.trans shrunk.2.1
  · exact held.opposing.adlCoeff.symm.trans shrunk.2.2.1
  · exact held.insuranceFund.symm.trans shrunk.2.2.2

end Step

end Wide
end Percolator
