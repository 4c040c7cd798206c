import Percolator.Engine.Accrual
import Percolator.Engine.Adl
import Percolator.Engine.Equity

/-!
`execute_trade_not_atomic`: the bilateral trade with its gates, the attachment
of both legs, fees and the post-trade margin.
-/

namespace Percolator

open Effect

/-- The end of every Live instruction that touches accounts: schedule the resets
and finalize them. -/
def endOfInstructionResets (ctx : InstructionContext) : Op Unit := do
  let ctx ← scheduleEndOfInstructionResets ctx
  finalizeEndOfInstructionResets ctx

/-- The start of every such instruction: accrue, then anchor the slot. -/
def accrueAndAnchor (nowSlot oraclePrice : Nat) (fundingRateE9 : Int) : Act Unit := do
  accrueMarketTo nowSlot oraclePrice fundingRateE9
  update (·.withCurrentSlot nowSlot)

/-- `oi_long_component` and `oi_short_component`. -/
def oiComponent (d : Side) (pos : Int) : Nat :=
  match d with
  | .long => pos.toNat
  | .short => (-pos).toNat

/-- One side of `bilateral_oi_after`. -/
def oiAfter (d : Side) (oi : Nat) (oldA newA oldB newB : Int) : Op Nat := do
  let minusA ← demand (checkedSub oi (oiComponent d oldA)) (.corrupt .bilateralOiAfter)
  let minusB ← demand (checkedSub minusA (oiComponent d oldB)) (.corrupt .bilateralOiAfter)
  let plusA ← orErr (checkedAddU128 minusB (oiComponent d newA)) .overflow
  orErr (checkedAddU128 plusA (oiComponent d newB)) .overflow

/-- `bilateral_oi_after`. -/
def bilateralOiAfter (oldA newA oldB newB : Int) : Op (Nat × Nat) := do
  let s ← read
  let long ← oiAfter .long (s.sides .long).oiEffQ oldA newA oldB newB
  let short ← oiAfter .short (s.sides .short).oiEffQ oldA newA oldB newB
  pure (long, short)

/-- The pre-trade requirement of a position, zero for a flat one. -/
def mmReqAt (p : RiskParams) (eff : Int) (oraclePrice : Nat) : Option Nat :=
  if eff = 0 then some 0
  else do mmReq p (← notionalOf eff.natAbs oraclePrice)

/-- `enforce_one_side_margin`. -/
def enforceOneSideMargin (idx oraclePrice : Nat) (oldEff newEff bufferPre : Int) (fee : Nat)
    (candidateTradePnl : Int) : Act Unit := do
  let s ← read
  let eqFeeNeutral := accountEquityMaintRawWide (s.accounts idx) + fee
  if newEff = 0 then do
    let mmReqPre ← expect (mmReqAt s.params oldEff oraclePrice)
    rejectIf (min eqFeeNeutral 0 < min (bufferPre + mmReqPre) 0) .undercollateralized
  else if newEff.natAbs > oldEff.natAbs ∨ (0 < oldEff ∧ newEff < 0) ∨ (oldEff < 0 ∧ 0 < newEff) ∨
      oldEff = 0 then do
    let ok ← expect (isAboveInitialMarginTradeOpen s idx oraclePrice candidateTradePnl)
    rejectIf (ok = false) .undercollateralized
  else do
    let healthy ← expect (isAboveMaintenanceMargin s idx oraclePrice)
    if healthy then pure ()
    else if ((0 < oldEff ∧ 0 < newEff) ∨ (oldEff < 0 ∧ newEff < 0)) ∧
        newEff.natAbs < oldEff.natAbs then do
      let mmReqPost ← expect ((notional s idx oraclePrice).bind (mmReq s.params))
      let mmReqPre ← expect ((notionalOf oldEff.natAbs oraclePrice).bind (mmReq s.params))
      rejectIf (¬ (bufferPre < eqFeeNeutral - mmReqPost ∧
        min (bufferPre + mmReqPre) 0 ≤ min eqFeeNeutral 0)) .undercollateralized
    else fail (err .undercollateralized)

/-- How many of two positions are on side `d`. -/
def legsOn (d : Side) (effA effB : Int) : Int :=
  (if sideOfI128 effA = some d then 1 else 0) + (if sideOfI128 effB = some d then 1 else 0)

/-- The net position cap of side `d`. -/
def checkPositionCap (d : Side) (oldA newA oldB newB : Int) : Act Unit := do
  let s ← read
  let final := (s.sides d).storedPosCount + legsOn d newA newB - legsOn d oldA oldB
  rejectIf (final < 0) .corruptState
  rejectIf ((s.params.maxActivePositionsPerSide : Int) < final) .overflow

/-- Whether side `d` refuses to grow. -/
def RiskEngine.blocks (s : RiskEngine) (d : Side) (oiAfterD : Nat) : Prop :=
  (s.sides d).sideMode ≠ .normal ∧ (s.sides d).oiEffQ < oiAfterD

instance (s : RiskEngine) (d : Side) (n : Nat) : Decidable (s.blocks d n) := by
  unfold RiskEngine.blocks; infer_instance

/-- What a trade fixes about its two legs before it mutates anything. -/
structure TradePlan where
  oldEffA : Int
  oldEffB : Int
  newEffA : Int
  newEffB : Int
  bufferPreA : Int
  bufferPreB : Int
  oiLongAfter : Nat
  oiShortAfter : Nat

/-- Steps 13 to 20 of a trade: new positions, their bounds, bilateral open
interest and the gates on it. -/
def planTrade (a b oraclePrice : Nat) (sizeQ : Int) : Op TradePlan := do
  let s ← read
  let oldEffA ← expect (effectivePosQ s a)
  let oldEffB ← expect (effectivePosQ s b)
  let mmReqPreA ← expect (mmReqAt s.params oldEffA oraclePrice)
  let mmReqPreB ← expect (mmReqAt s.params oldEffB oraclePrice)
  let bufferPreA := accountEquityMaintRawWide (s.accounts a) - mmReqPreA
  let bufferPreB := accountEquityMaintRawWide (s.accounts b) - mmReqPreB
  let newEffA ← orErr (checkedAddI128 oldEffA sizeQ) .overflow
  let negSizeQ ← orErr (checkedNegI128 sizeQ) .overflow
  let newEffB ← orErr (checkedAddI128 oldEffB negSizeQ) .overflow
  rejectIf (MAX_POSITION_ABS_Q < newEffA.natAbs) .overflow
  rejectIf (MAX_POSITION_ABS_Q < newEffB.natAbs) .overflow
  let notionalA ← expect (notionalOf newEffA.natAbs oraclePrice)
  rejectIf (MAX_ACCOUNT_NOTIONAL < notionalA) .overflow
  let notionalB ← expect (notionalOf newEffB.natAbs oraclePrice)
  rejectIf (MAX_ACCOUNT_NOTIONAL < notionalB) .overflow
  maybeFinalizeReadyResetSides
  let (oiLongAfter, oiShortAfter) ← bilateralOiAfter oldEffA newEffA oldEffB newEffB
  rejectIf (MAX_OI_SIDE_Q < oiLongAfter ∨ MAX_OI_SIDE_Q < oiShortAfter) .overflow
  let s ← read
  rejectIf (s.blocks .long oiLongAfter) .sideBlocked
  rejectIf (s.blocks .short oiShortAfter) .sideBlocked
  checkPositionCap .long oldEffA newEffA oldEffB newEffB
  checkPositionCap .short oldEffA newEffA oldEffB newEffB
  pure ⟨oldEffA, oldEffB, newEffA, newEffB, bufferPreA, bufferPreB, oiLongAfter, oiShortAfter⟩

/-- The slippage of a trade, credited to `a` and debited to `b`. -/
def settleTradePnl (a b : Nat) (tradePnlA : Int) (ctx : InstructionContext) :
    Act InstructionContext := do
  let tradePnlB ← orErr (checkedNegI128 tradePnlA) .overflow
  let s ← read
  let pnlA ← orErr (checkedAddI128 (s.accounts a).pnl tradePnlA) .overflow
  rejectIf (pnlA = I128_MIN) .overflow
  let ctx ← setPnlAdmitted a pnlA ctx
  let s ← read
  let pnlB ← orErr (checkedAddI128 (s.accounts b).pnl tradePnlB) .overflow
  rejectIf (pnlB = I128_MIN) .overflow
  setPnlAdmitted b pnlB ctx

/-- Attach both legs and write the planned open interest. -/
def attachLegs (a b : Nat) (plan : TradePlan) : Act Unit := do
  attachEffectivePosition a plan.newEffA
  attachEffectivePosition b plan.newEffB
  writeSide .long ({ · with oiEffQ := plan.oiLongAfter })
  writeSide .short ({ · with oiEffQ := plan.oiShortAfter })

/-- The fee of a trade. -/
def tradeFee (p : RiskParams) (sizeQ : Int) (execPrice : Nat) : Option Nat := do
  let tradeNotional ← notionalOf sizeQ.natAbs execPrice
  if 0 < tradeNotional ∧ 0 < p.tradingFeeBps then mulDivCeilU128 tradeNotional p.tradingFeeBps 10000
  else return 0

/-- Charge the fee of a trade to both legs and return its impacts. -/
def chargeTradeFee (a b fee : Nat) : Act (Nat × Nat) := do
  if 0 < fee then do
    rejectIf (MAX_PROTOCOL_FEE_ABS < fee) .overflow
    let (_, impactA, _) ← chargeFeeToInsurance a fee
    let (_, impactB, _) ← chargeFeeToInsurance b fee
    pure (impactA, impactB)
  else pure (0, 0)

/-- The flat-close guard and the margin of both legs. -/
def checkLegs (a b oraclePrice : Nat) (plan : TradePlan) (feeImpactA feeImpactB : Nat)
    (tradePnlA : Int) : Act Unit := do
  let s ← read
  rejectIf (plan.newEffA = 0 ∧ (s.accounts a).pnl < 0) .undercollateralized
  rejectIf (plan.newEffB = 0 ∧ (s.accounts b).pnl < 0) .undercollateralized
  enforceOneSideMargin a oraclePrice plan.oldEffA plan.newEffA plan.bufferPreA feeImpactA tradePnlA
  enforceOneSideMargin b oraclePrice plan.oldEffB plan.newEffB plan.bufferPreB feeImpactB (-tradePnlA)

/-- `execute_trade_not_atomic`. -/
def executeTrade (a b oraclePrice nowSlot : Nat) (sizeQ : Int) (execPrice : Nat)
    (fundingRateE9 : Int) (admitHMin admitHMax : Nat) : Op Unit := do
  validateAdmissionPair admitHMin admitHMax
  rejectIf (oraclePrice = 0 ∨ MAX_ORACLE_PRICE < oraclePrice) .overflow
  rejectIf (execPrice = 0 ∨ MAX_ORACLE_PRICE < execPrice) .overflow
  rejectIf (sizeQ ≤ 0) .overflow
  rejectIf (MAX_TRADE_SIZE_Q < sizeQ.natAbs) .overflow
  let tradeNotionalCheck ← expect (notionalOf sizeQ.natAbs execPrice)
  rejectIf (MAX_ACCOUNT_NOTIONAL < tradeNotionalCheck) .overflow
  let s ← read
  rejectIf (s.isUsed a = false ∨ s.isUsed b = false) .accountNotFound
  rejectIf (a = b) .overflow
  rejectIf (s.marketMode ≠ .live) .unauthorized
  accrueAndAnchor nowSlot oraclePrice fundingRateE9
  let ctx ← touchAccountLiveLocal a (.newWithAdmission admitHMin admitHMax)
  let ctx ← touchAccountLiveLocal b ctx
  endOfInstructionResets .new
  let plan ← planTrade a b oraclePrice sizeQ
  let tradePnlA ← orErr (computeTradePnl sizeQ (oraclePrice - execPrice)) .overflow
  let ctx ← settleTradePnl a b tradePnlA ctx
  attachLegs a b plan
  settleLosses a
  settleLosses b
  let fee ← expect (tradeFee s.params sizeQ execPrice)
  let (feeImpactA, feeImpactB) ← chargeTradeFee a b fee
  checkLegs a b oraclePrice plan feeImpactA feeImpactB tradePnlA
  finalizeTouchedAccountsPostLive ctx
  endOfInstructionResets ctx
  assertPublicPostconditions

end Percolator
