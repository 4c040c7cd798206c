import Percolator.Engine.Trade

/-!
Liquidation and the keeper crank.
-/

namespace Percolator

open Effect

/-- The liquidation fee on a quantity closed. -/
def liquidationFee (p : RiskParams) (qCloseQ oraclePrice : Nat) : Option Nat := do
  let notionalVal ← notionalOf qCloseQ oraclePrice
  let raw ← mulDivCeilU128 notionalVal p.liquidationFeeBps 10000
  return min (max raw p.minLiquidationAbs) p.liquidationFeeCap

/-- The position attached to `newEff`, its losses settled and the liquidation
fee charged: what both policies do before ADL. -/
def closeAtOracle (idx : Nat) (newEff : Int) (qCloseQ oraclePrice : Nat) : Act Unit := do
  attachEffectivePosition idx newEff
  settleLosses idx
  let s ← read
  let fee ← expect (liquidationFee s.params qCloseQ oraclePrice)
  let _ ← chargeFeeToInsurance idx fee

/-- The `ExactPartial` branch of `liquidate_at_oracle_internal`. -/
def liquidatePartial (idx oraclePrice : Nat) (oldEff : Int) (liqSide : Side) (qCloseQ : Nat)
    (ctx : InstructionContext) : Op InstructionContext := do
  rejectIf (qCloseQ = 0 ∨ oldEff.natAbs ≤ qCloseQ) .overflow
  let newEffAbs : Nat := oldEff.natAbs - qCloseQ
  closeAtOracle idx (if 0 < oldEff then newEffAbs else -newEffAbs) qCloseQ oraclePrice
  let ctx ← enqueueAdl ctx liqSide qCloseQ 0
  let s ← read
  let healthy ← expect (isAboveMaintenanceMargin s idx oraclePrice)
  rejectIf (healthy = false) .undercollateralized
  pure ctx

/-- The `FullClose` branch of `liquidate_at_oracle_internal`. -/
def liquidateFull (idx oraclePrice : Nat) (oldEff : Int) (liqSide : Side)
    (ctx : InstructionContext) : Op InstructionContext := do
  closeAtOracle idx 0 oldEff.natAbs oraclePrice
  let s ← read
  let effPost ← expect (effectivePosQ s idx)
  let deficit := decide (effPost = 0 ∧ (s.accounts idx).pnl < 0)
  rejectIf (deficit = true ∧ (s.accounts idx).pnl = I128_MIN) .corruptState
  let d := if deficit then (s.accounts idx).pnl.natAbs else 0
  let ctx ← enqueueAdl ctx liqSide oldEff.natAbs d
  whenever (d ≠ 0) (do
    let _ ← setPnlWithReserve idx 0 .noPositiveIncreaseAllowed none)
  pure ctx

/-- `liquidate_at_oracle_internal`; a position that is not zero has a side. -/
def liquidateAtOracleInternal (idx oraclePrice : Nat) (policy : LiquidationPolicy)
    (ctx : InstructionContext) : Op (Bool × InstructionContext) := do
  let s ← read
  if s.isUsed idx = false then pure (false, ctx)
  else do
    rejectIf (oraclePrice = 0 ∨ MAX_ORACLE_PRICE < oraclePrice) .overflow
    let oldEff ← expect (effectivePosQ s idx)
    match sideOfI128 oldEff with
    | none => pure (false, ctx)
    | some liqSide => do
        let healthy ← expect (isAboveMaintenanceMargin s idx oraclePrice)
        if healthy then pure (false, ctx)
        else do
          let ctx ← (match policy with
            | .exactPartial qCloseQ => liquidatePartial idx oraclePrice oldEff liqSide qCloseQ ctx
            | .fullClose => liquidateFull idx oraclePrice oldEff liqSide ctx)
          pure (true, ctx)

/-- `liquidate_at_oracle_not_atomic`. -/
def liquidateAtOracle (idx nowSlot oraclePrice : Nat) (policy : LiquidationPolicy)
    (fundingRateE9 : Int) (admitHMin admitHMax : Nat) : Op Bool := do
  validateAdmissionPair admitHMin admitHMax
  let s ← read
  rejectIf (s.isUsed idx = false) .accountNotFound
  rejectIf (s.marketMode ≠ .live) .unauthorized
  accrueAndAnchor nowSlot oraclePrice fundingRateE9
  let ctx ← touchAccountLiveLocal idx (.newWithAdmission admitHMin admitHMax)
  let (result, ctx) ← liquidateAtOracleInternal idx oraclePrice policy ctx
  finalizeTouchedAccountsPostLive ctx
  endOfInstructionResets ctx
  assertPublicPostconditions
  pure result

/-- `validate_keeper_hint`; the outer `none` is a panic. -/
def validateKeeperHint (s : RiskEngine) (idx : Nat) (eff : Int) (hint : Option LiquidationPolicy)
    (oraclePrice : Nat) : Option (Option LiquidationPolicy) :=
  match hint with
  | none => some none
  | some .fullClose => some (some .fullClose)
  | some (.exactPartial qCloseQ) =>
      if qCloseQ = 0 ∨ eff.natAbs ≤ qCloseQ then some none
      else do
        let a := s.accounts idx
        let fee ← liquidationFee s.params qCloseQ oraclePrice
        let fromCapital := min fee a.capital
        let applied := fromCapital + min (fee - fromCapital) (feeHeadroom a.feeCredits)
        let predictedMmReq ← mmReqAt s.params (eff.natAbs - qCloseQ : Nat) oraclePrice
        return if accountEquityMaintRawWide a - applied ≤ predictedMmReq then none
          else some (.exactPartial qCloseQ)

/-- One candidate of the crank: touch it and liquidate it on a valid hint. -/
def crankCandidate (idx : Nat) (hint : Option LiquidationPolicy) (oraclePrice : Nat)
    (ctx : InstructionContext) : Op (Bool × InstructionContext) := do
  let ctx ← touchAccountLiveLocal idx ctx
  let s ← read
  let eff ← expect (effectivePosQ s idx)
  if eff = 0 then pure (false, ctx)
  else do
    let healthy ← expect (isAboveMaintenanceMargin s idx oraclePrice)
    if healthy then pure (false, ctx)
    else do
      let policy ← expect (validateKeeperHint s idx eff hint oraclePrice)
      match policy with
      | none => pure (false, ctx)
      | some policy => liquidateAtOracleInternal idx oraclePrice policy ctx

/-- The loop of `keeper_crank_not_atomic` with `budget` attempts left. No reset
is pending when a candidate is touched, and a touch schedules none. -/
def crankLoop (oraclePrice : Nat) : List (Nat × Option LiquidationPolicy) → Nat → Nat →
    InstructionContext → Op (Nat × InstructionContext)
  | [], _, count, ctx => pure (count, ctx)
  | (idx, hint) :: rest, budget, count, ctx => do
      let s ← read
      if budget = 0 ∨ ctx.pendingReset .long = true ∨ ctx.pendingReset .short = true then
        pure (count, ctx)
      else if s.isUsed idx = false then crankLoop oraclePrice rest budget count ctx
      else do
        let (liquidated, ctx) ← crankCandidate idx hint oraclePrice ctx
        crankLoop oraclePrice rest (budget - 1) (if liquidated then count + 1 else count) ctx

/-- `CrankOutcome`. -/
structure CrankOutcome where
  advanced : Bool
  numLiquidations : Nat
  numGcClosed : Nat

/-- `keeper_crank_not_atomic`. -/
def keeperCrank (nowSlot oraclePrice : Nat)
    (orderedCandidates : List (Nat × Option LiquidationPolicy)) (maxRevalidations : Nat)
    (fundingRateE9 : Int) (admitHMin admitHMax : Nat) : Op CrankOutcome := do
  validateAdmissionPair admitHMin admitHMax
  rejectIf (oraclePrice = 0 ∨ MAX_ORACLE_PRICE < oraclePrice) .overflow
  let s ← read
  rejectIf (s.marketMode ≠ .live) .unauthorized
  rejectIf (MAX_TOUCHED_PER_INSTRUCTION < maxRevalidations) .overflow
  rejectIf (nowSlot < s.currentSlot) .overflow
  rejectIf (nowSlot < s.lastMarketSlot) .overflow
  accrueAndAnchor nowSlot oraclePrice fundingRateE9
  let s ← read
  let advanced := decide (s.lastCrankSlot < nowSlot)
  whenever (advanced = true) (update ({ · with lastCrankSlot := nowSlot }))
  let (count, ctx) ← crankLoop oraclePrice orderedCandidates maxRevalidations 0
    (.newWithAdmission admitHMin admitHMax)
  finalizeTouchedAccountsPostLive ctx
  endOfInstructionResets ctx
  assertPublicPostconditions
  pure ⟨advanced, count, 0⟩

end Percolator
