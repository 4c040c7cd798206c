import Percolator.Engine.Instructions

/-!
Resolution: `resolve_market_not_atomic`, reconciliation of stale accounts, and
the terminal close with its shared payout snapshot.
-/

namespace Percolator

open Effect

/-- The last Live steps of a resolution: the branch and the band check. -/
def resolveLivePart (resolveMode : ResolveMode) (resolvedPrice liveOraclePrice nowSlot : Nat)
    (fundingRateE9 : Int) : Act Unit := do
  match resolveMode with
  | .degenerate => do
      let s ← read
      rejectIf (liveOraclePrice ≠ s.lastOraclePrice) .overflow
      rejectIf (fundingRateE9 ≠ 0) .overflow
      update ({ · with currentSlot := nowSlot, lastMarketSlot := nowSlot })
  | .ordinary => do
      accrueMarketTo nowSlot liveOraclePrice fundingRateE9
      let s ← read
      let lhs ← orErr (checkedMulU128 ((resolvedPrice : Int) - s.lastOraclePrice).natAbs 10000) .overflow
      let rhs ← orErr (checkedMulU128 s.params.resolvePriceDeviationBps s.lastOraclePrice) .overflow
      rejectIf (rhs < lhs) .overflow

/-- The terminal K delta of a side. -/
def resolvedKDelta (v : SideState) (priceDiff : Int) : Option Int :=
  if v.sideMode = .resetPending then some 0 else checkedU128MulI128 v.adlMult priceDiff

/-- The state change of a resolution before the sides are reset. -/
def RiskEngine.enterResolved (s : RiskEngine) (resolvedPrice liveOraclePrice nowSlot : Nat)
    (kDelta : Side → Int) : RiskEngine :=
  { s with
    currentSlot := nowSlot, marketMode := .resolved, resolvedPrice := resolvedPrice
    resolvedLivePrice := liveOraclePrice, resolvedSlot := nowSlot
    resolvedPayoutHNum := 0, resolvedPayoutHDen := 0, resolvedPayoutReady := false
    pnlMaturedPosTot := s.pnlPosTot
    sides := fun d => { s.sides d with resolvedKTerminalDelta := kDelta d, oiEffQ := 0 } }

/-- Begin the reset of side `d` unless one is under way. -/
def drainSide (d : Side) : Act Unit := do
  let s ← read
  whenever ((s.sides d).sideMode ≠ .resetPending) (beginFullDrainReset d)

/-- Finalize the reset of side `d` when nothing is stored on it. -/
def reopenSide (d : Side) : Act Unit := do
  let s ← read
  let v := s.sides d
  whenever (v.sideMode = .resetPending ∧ v.staleAccountCount = 0 ∧ v.storedPosCount = 0)
    (finalizeSideReset d)

/-- `resolve_market_not_atomic`. -/
def resolveMarket (resolveMode : ResolveMode) (resolvedPrice liveOraclePrice nowSlot : Nat)
    (fundingRateE9 : Int) : Op Unit := do
  let s ← read
  rejectIf (s.marketMode ≠ .live) .unauthorized
  rejectIf (nowSlot < s.currentSlot) .overflow
  rejectIf (nowSlot < s.lastMarketSlot) .overflow
  rejectIf (resolvedPrice = 0 ∨ MAX_ORACLE_PRICE < resolvedPrice) .overflow
  rejectIf (liveOraclePrice = 0 ∨ MAX_ORACLE_PRICE < liveOraclePrice) .overflow
  resolveLivePart resolveMode resolvedPrice liveOraclePrice nowSlot fundingRateE9
  let s ← read
  let priceDiff : Int := resolvedPrice - liveOraclePrice
  let kLong ← orErr (resolvedKDelta (s.sides .long) priceDiff) .overflow
  let kShort ← orErr (resolvedKDelta (s.sides .short) (-priceDiff)) .overflow
  update (·.enterResolved resolvedPrice liveOraclePrice nowSlot fun
    | .long => kLong
    | .short => kShort)
  drainSide .long
  drainSide .short
  reopenSide .long
  reopenSide .short
  let s ← read
  rejectIf ((s.sides .long).oiEffQ ≠ 0 ∨ (s.sides .short).oiEffQ ≠ 0) .corruptState
  assertPublicPostconditions

/-- The settlement of a stale position in `reconcile_resolved_not_atomic`. -/
def reconcilePosition (idx : Nat) (d : Side) : Act Unit := do
  let s ← read
  let a := s.accounts idx
  let v := s.sides d
  rejectIf (a.adlABasis = 0) .corruptState
  let den ← orErr (checkedMulU128 a.adlABasis POS_SCALE) .overflow
  rejectIf (a.adlEpochSnap = v.adlEpoch) .corruptState
  rejectIf (checkedAddU64 a.adlEpochSnap 1 ≠ some v.adlEpoch) .corruptState
  rejectIf (v.staleAccountCount = 0) .corruptState
  let kTerminal ← orErr (I256.checkedAdd v.adlEpochStartK v.resolvedKTerminalDelta) .overflow
  let pnlDelta ← orErr (computeKfPnlDeltaWide a.positionBasisQ.natAbs a.adlKSnap kTerminal a.fSnap
    v.fEpochStartNum den) .overflow
  let newPnl ← orErr (checkedAddI128 a.pnl pnlDelta) .overflow
  rejectIf (newPnl = I128_MIN) .overflow
  whenever (pnlDelta ≠ 0) (do
    setPnl idx newPnl
    update fun s => s.withPnlMaturedPosTot s.pnlPosTot)
  let stale ← orErr (checkedSub v.staleAccountCount 1) .corruptState
  writeSide d ({ · with staleAccountCount := stale })
  setPositionBasisQ idx 0
  writeAccount idx (·.flatSnaps)

/-- `reconcile_resolved_not_atomic`. -/
def reconcileResolved (idx : Nat) : Op Unit := do
  let s ← read
  rejectIf (s.marketMode ≠ .resolved) .unauthorized
  rejectIf (s.isUsed idx = false) .accountNotFound
  update (·.withCurrentSlot s.resolvedSlot)
  prepareAccountForResolvedTouch idx
  match sideOfI128 (s.accounts idx).positionBasisQ with
  | some d => do
      reconcilePosition idx d
      settleLosses idx
      resolveFlatNegative idx
      assertPublicPostconditions
  | none => do
      settleLosses idx
      resolveFlatNegative idx
      assertPublicPostconditions

/-- `is_terminal_ready`. -/
def isTerminalReady (s : RiskEngine) : Bool :=
  s.resolvedPayoutReady ||
    (decide ((s.sides .long).storedPosCount = 0) && decide ((s.sides .short).storedPosCount = 0) &&
      decide ((s.sides .long).staleAccountCount = 0) &&
      decide ((s.sides .short).staleAccountCount = 0) && decide (s.negPnlAccountCount = 0))

/-- Capture the payout snapshot that every positive close shares. -/
def captureSnapshot : Act Unit := do
  let s ← read
  whenever (s.resolvedPayoutReady = false) (update fun s => { s with
    pnlMaturedPosTot := s.pnlPosTot
    resolvedPayoutHNum := min s.residual s.pnlPosTot
    resolvedPayoutHDen := s.pnlPosTot
    resolvedPayoutReady := true })

/-- Pay the positive PnL of account `idx` into its capital at the snapshot ratio. -/
def payResolvedPnl (idx : Nat) : Act Unit := do
  let s ← read
  rejectIf ((s.accounts idx).reservedPnl ≠ 0) .corruptState
  let released := (s.accounts idx).releasedPos
  whenever (0 < released) (do
    rejectIf (s.resolvedPayoutHDen = 0) .corruptState
    let y ← expect (wideMulDivFloorU128 released s.resolvedPayoutHNum s.resolvedPayoutHDen)
    let _ ← setPnlWithReserve idx 0 .noPositiveIncreaseAllowed none
    let s ← read
    let newCap ← orErr (checkedAddU128 (s.accounts idx).capital y) .overflow
    setCapital idx newCap)

/-- `close_resolved_terminal_not_atomic`. -/
def closeResolvedTerminal (idx : Nat) : Op Nat := do
  let s ← read
  rejectIf (s.marketMode ≠ .resolved) .unauthorized
  rejectIf (s.isUsed idx = false) .accountNotFound
  rejectIf ((s.accounts idx).positionBasisQ ≠ 0) .undercollateralized
  rejectIf ((s.accounts idx).pnl < 0) .undercollateralized
  prepareAccountForResolvedTouch idx
  let s ← read
  whenever (0 < (s.accounts idx).pnl) (do
    rejectIf (isTerminalReady s = false) .unauthorized
    captureSnapshot
    payResolvedPnl idx)
  feeDebtSweep idx
  writeAccount idx fun a => a.withFeeCredits (max a.feeCredits 0)
  let capital ← payOutAll idx
  freeSlot idx
  sweepEmptyMarketSurplusToInsurance
  assertPublicPostconditions
  pure capital

/-- `ResolvedCloseResult`. -/
inductive ResolvedCloseResult where
  | progressOnly
  | closed (capital : Nat)
deriving DecidableEq, Repr

/-- `force_close_resolved_not_atomic`. -/
def forceCloseResolved (idx : Nat) : Op ResolvedCloseResult := do
  reconcileResolved idx
  maybeFinalizeReadyResetSides
  let s ← read
  if 0 < (s.accounts idx).pnl ∧ isTerminalReady s = false then pure .progressOnly
  else do
    let capital ← closeResolvedTerminal idx
    pure (.closed capital)

end Percolator
