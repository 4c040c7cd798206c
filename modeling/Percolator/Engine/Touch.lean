import Mathlib.Data.List.Sort
import Percolator.Engine.Ledger

/-!
Settling an account against the indices of its side, the live touch, and the
finalization of the touched accounts of an instruction.
-/

namespace Percolator

open Effect

/-- The PnL of account `idx` after the delta between its snapshots and the
indices `kNow`, `fNow`. -/
def settledPnl (a : Account) (kNow fNow : Int) : Act Int := do
  let den ← orErr (checkedMulU128 a.adlABasis POS_SCALE) .overflow
  let pnlDelta ← orErr
    (computeKfPnlDelta a.positionBasisQ.natAbs a.adlKSnap kNow a.fSnap fNow den) .overflow
  let newPnl ← orErr (checkedAddI128 a.pnl pnlDelta) .overflow
  rejectIf (newPnl = I128_MIN) .overflow
  pure newPnl

/-- The same-epoch branch of `settle_side_effects_live`. -/
def settleCurrent (idx : Nat) (d : Side) (ctx : InstructionContext) : Act InstructionContext := do
  let s ← read
  let a := s.accounts idx
  let v := s.sides d
  let qEffNew ← expect (mulDivFloorU128 a.positionBasisQ.natAbs v.adlMult a.adlABasis)
  let newPnl ← settledPnl a v.adlCoeff v.fNum
  let ctx ← setPnlAdmitted idx newPnl ctx
  (if qEffNew = 0 then do
    incPhantomDustBound d
    setPositionBasisQ idx 0
    writeAccount idx (·.flatSnaps)
  else
    writeAccount idx (·.withSnaps v.adlCoeff v.fNum v.adlEpoch))
  pure ctx

/-- The epoch-mismatch branch of `settle_side_effects_live`. -/
def settleStale (idx : Nat) (d : Side) (ctx : InstructionContext) : Op InstructionContext := do
  let s ← read
  let a := s.accounts idx
  let v := s.sides d
  corruptIf (v.sideMode ≠ .resetPending) .settleSideEffectsLive
  corruptIf (checkedAddU64 a.adlEpochSnap 1 ≠ some v.adlEpoch) .settleSideEffectsLive
  let newPnl ← settledPnl a v.adlEpochStartK v.fEpochStartNum
  corruptIf (v.staleAccountCount = 0) .settleSideEffectsLive
  let ctx ← setPnlAdmitted idx newPnl ctx
  setPositionBasisQ idx 0
  writeSide d ({ · with staleAccountCount := v.staleAccountCount - 1 })
  writeAccount idx (·.flatSnaps)
  pure ctx

/-- `settle_side_effects_live`. -/
def settleSideEffectsLive (idx : Nat) (ctx : InstructionContext) : Op InstructionContext := do
  let s ← read
  let a := s.accounts idx
  match sideOfI128 a.positionBasisQ with
  | none => pure ctx
  | some d => do
      corruptIf (a.adlABasis = 0) .settleSideEffectsLive
      if a.adlEpochSnap = (s.sides d).adlEpoch then settleCurrent idx d ctx
      else settleStale idx d ctx

/-- `touch_account_live_local`. -/
def touchAccountLiveLocal (idx : Nat) (ctx : InstructionContext) : Op InstructionContext := do
  let s ← read
  rejectIf (s.marketMode ≠ .live) .unauthorized
  rejectIf (s.isUsed idx = false) .accountNotFound
  let ctx ← orErr (ctx.addTouched idx) .overflow
  emit (.touched idx)
  validateReserveShape idx
  admitOutstandingReserveOnTouch idx
  advanceProfitWarmup idx
  let ctx ← settleSideEffectsLive idx ctx
  settleLosses idx
  let s ← read
  let eff ← expect (effectivePosQ s idx)
  whenever (eff = 0 ∧ (s.accounts idx).pnl < 0) (resolveFlatNegative idx)
  pure ctx

/-- `Residual` as a view: zero when the seniors exceed the vault. -/
def RiskEngine.residual (s : RiskEngine) : Nat := s.vault - (s.cTot + s.insuranceFund)

/-- Convert `x` of released PnL of account `idx` into `y` of capital. -/
def convertInto (idx x y : Nat) : Act Unit := do
  consumeReleasedPnl idx x
  let s ← read
  let newCap ← orErr (checkedAddU128 (s.accounts idx).capital y) .overflow
  setCapital idx newCap

/-- One turn of the loop of `finalize_touched_accounts_post_live`. -/
def finalizeTouched (isWhole : Bool) (idx : Nat) : Act Unit := do
  let s ← read
  let a := s.accounts idx
  whenever (isWhole = true ∧ a.positionBasisQ = 0 ∧ 0 < a.pnl ∧ 0 < a.releasedPos)
    (convertInto idx a.releasedPos a.releasedPos)
  feeDebtSweep idx

/-- `finalize_touched_accounts_post_live`: `h_snapshot_num` equals a positive
`h_snapshot_den` when matured PnL is within the residual. -/
def finalizeTouchedAccountsPostLive (ctx : InstructionContext) : Act Unit := do
  let s ← read
  let isWhole := decide (0 < s.pnlMaturedPosTot ∧ s.pnlMaturedPosTot ≤ s.residual)
  forEach (finalizeTouched isWhole) (ctx.touchedAccounts.insertionSort (· ≤ ·))

end Percolator
