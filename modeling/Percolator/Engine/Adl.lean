import Percolator.Engine.Ledger

/-!
ADL and side resets: `enqueue_adl`, full-drain resets, and the scheduling and
finalization of resets at the end of an instruction.
-/

namespace Percolator

open Effect

/-- The K index after `delta_k_abs` is taken off it, if it stays in `i128` and
leaves room for one mark at the highest price. -/
def adlHeadroom (kOpp : Int) (aOld deltaKAbs : Nat) : Option Int := do
  let newK ← checkedAddI128 kOpp (-deltaKAbs)
  let mark ← U256.checkedMul aOld MAX_ORACLE_PRICE
  let budget ← checkedSub I128_MAX.toNat newK.natAbs
  if mark ≤ budget then some newK else none

/-- Step 7 of `enqueue_adl`: write the deficit `dRem` into K of the opposing side,
or leave it uninsured. Returns what was taken off K. -/
def socializeDeficit (opp : Side) (oi dRem : Nat) : Act Nat := do
  let s ← read
  if dRem = 0 then pure 0
  else do
    let aPs ← orErr (checkedMulU128 (s.sides opp).adlMult POS_SCALE) .overflow
    let delta ← expect (wideMulDivCeilU128OrOverI128max dRem aPs oi)
    match delta with
    | .overI128Magnitude => pure 0
    | .fits deltaKAbs =>
        match adlHeadroom (s.sides opp).adlCoeff (s.sides opp).adlMult deltaKAbs with
        | none => pure 0
        | some newK => do
            writeSide opp ({ · with adlCoeff := newK })
            pure deltaKAbs

/-- The bound of step 10 of `enqueue_adl` on the dust that scaling A creates. -/
def globalADustBound (storedPosCount oi aOld : Nat) : Nat :=
  min (storedPosCount + ceilDiv (oi + storedPosCount) aOld) U128_MAX

/-- Steps 8 to 11 of `enqueue_adl`: scale A of the opposing side to its open
interest after the close. -/
def shrinkOpposing (ctx : InstructionContext) (liqSide : Side) (oi qCloseQ deltaKAbs : Nat) :
    Act InstructionContext := do
  let opp := liqSide.opposite
  let s ← read
  let aOld := (s.sides opp).adlMult
  let oiPost := oi - qCloseQ
  if oiPost = 0 then do
    writeSide opp ({ · with oiEffQ := 0 })
    emit (.deleveraged opp deltaKAbs aOld aOld)
    let ctx := ctx.setPendingReset opp
    pure (if (s.sides liqSide).oiEffQ = 0 then ctx.setPendingReset liqSide else ctx)
  else do
    let (aCandidate, _) ← expect (mulDivFloorU256WithRem aOld oiPost oi)
    if aCandidate ≠ 0 then do
      let aNew ← orErr (U256.tryIntoU128 aCandidate) .overflow
      writeSide opp ({ · with adlMult := aNew, oiEffQ := oiPost })
      whenever (oiPost < oi)
        (incPhantomDustBoundBy opp (globalADustBound (s.sides opp).storedPosCount oi aOld))
      whenever (aNew < MIN_A_SIDE) (writeSide opp ({ · with sideMode := .drainOnly }))
      emit (.deleveraged opp deltaKAbs aOld aNew)
      pure ctx
    else do
      writeSide opp ({ · with oiEffQ := 0 })
      writeSide liqSide ({ · with oiEffQ := 0 })
      emit (.deleveraged opp deltaKAbs aOld aOld)
      pure ((ctx.setPendingReset opp).setPendingReset liqSide)

/-- `enqueue_adl`. -/
def enqueueAdl (ctx : InstructionContext) (liqSide : Side) (qCloseQ d : Nat) :
    Op InstructionContext := do
  let opp := liqSide.opposite
  let s ← read
  corruptIf ((s.sides liqSide).oiEffQ < qCloseQ) .enqueueAdl
  writeSide liqSide fun v => { v with oiEffQ := v.oiEffQ - qCloseQ }
  let dRem ← useInsuranceBuffer d
  let s ← read
  let oi := (s.sides opp).oiEffQ
  if oi = 0 then
    pure (if (s.sides liqSide).oiEffQ = 0 then (ctx.setPendingReset liqSide).setPendingReset opp
      else ctx)
  else do
    corruptIf (oi < qCloseQ) .enqueueAdl
    if (s.sides opp).storedPosCount = 0 then do
      writeSide opp ({ · with oiEffQ := oi - qCloseQ })
      pure (if oi - qCloseQ = 0 then
          if (s.sides liqSide).oiEffQ = 0 then (ctx.setPendingReset opp).setPendingReset liqSide
          else ctx.setPendingReset opp
        else ctx)
    else do
      let deltaKAbs ← socializeDeficit opp oi dRem
      shrinkOpposing ctx liqSide oi qCloseQ deltaKAbs

/-- `begin_full_drain_reset`. -/
def beginFullDrainReset (d : Side) : Act Unit := do
  let s ← read
  rejectIf ((s.sides d).oiEffQ ≠ 0) .corruptState
  writeSide d fun v => { v with
    adlEpochStartK := v.adlCoeff, fEpochStartNum := v.fNum, adlCoeff := 0, fNum := 0 }
  let epoch ← orErr (checkedAddU64 (s.sides d).adlEpoch 1) .overflow
  writeSide d fun v => { v with
    adlEpoch := epoch, adlMult := ADL_ONE, staleAccountCount := v.storedPosCount
    phantomDustBoundQ := 0, sideMode := .resetPending }
  emit (.drained d)

/-- Whether a side waits for a reset that nothing holds up any more. -/
def SideState.Ready (v : SideState) : Prop :=
  v.sideMode = .resetPending ∧ v.oiEffQ = 0 ∧ v.staleAccountCount = 0 ∧ v.storedPosCount = 0

instance (v : SideState) : Decidable v.Ready := by unfold SideState.Ready; infer_instance

/-- `finalize_side_reset`. -/
def finalizeSideReset (d : Side) : Act Unit := do
  let s ← read
  rejectIf (¬ (s.sides d).Ready) .corruptState
  writeSide d ({ · with sideMode := .normal })

/-- A branch of `schedule_end_of_instruction_resets` for empty sides: clear the
open interest of both sides when it is at most `clearBoundQ`. The two are equal
past the first check, so that one comparison stands for both. -/
def clearResidual (ctx : InstructionContext) (hasResidual : Bool) (clearBoundQ : Nat) :
    Op InstructionContext := do
  let s ← read
  if hasResidual then do
    corruptIf ((s.sides .long).oiEffQ ≠ (s.sides .short).oiEffQ) .scheduleEndOfInstructionResets
    corruptIf (clearBoundQ < (s.sides .long).oiEffQ) .scheduleEndOfInstructionResets
    writeSide .long ({ · with oiEffQ := 0 })
    writeSide .short ({ · with oiEffQ := 0 })
    pure ((ctx.setPendingReset .long).setPendingReset .short)
  else pure ctx

/-- The dust clearance at the start of `schedule_end_of_instruction_resets`. -/
def clearDust (ctx : InstructionContext) : Op InstructionContext := do
  let s ← read
  let long := s.sides .long
  let short := s.sides .short
  let open' := decide (long.oiEffQ ≠ 0 ∨ short.oiEffQ ≠ 0)
  if long.storedPosCount = 0 ∧ short.storedPosCount = 0 then do
    corruptIf (U128_MAX < long.phantomDustBoundQ + short.phantomDustBoundQ)
      .scheduleEndOfInstructionResets
    clearResidual ctx
      (open' || decide (long.phantomDustBoundQ ≠ 0) || decide (short.phantomDustBoundQ ≠ 0))
      (long.phantomDustBoundQ + short.phantomDustBoundQ)
  else if long.storedPosCount = 0 then
    clearResidual ctx (open' || decide (long.phantomDustBoundQ ≠ 0)) long.phantomDustBoundQ
  else if short.storedPosCount = 0 then
    clearResidual ctx (open' || decide (short.phantomDustBoundQ ≠ 0)) short.phantomDustBoundQ
  else pure ctx

/-- Schedule the reset of side `d` if it is draining and drained. -/
def scheduleDrained (d : Side) (s : RiskEngine) (ctx : InstructionContext) : InstructionContext :=
  if (s.sides d).sideMode = .drainOnly ∧ (s.sides d).oiEffQ = 0 then ctx.setPendingReset d else ctx

/-- `schedule_end_of_instruction_resets`. -/
def scheduleEndOfInstructionResets (ctx : InstructionContext) : Op InstructionContext := do
  let ctx ← clearDust ctx
  let s ← read
  pure (scheduleDrained .short s (scheduleDrained .long s ctx))

/-- Bring side `d` back to `Normal` when it is ready. -/
def finalizeReadySide (d : Side) : Act Unit := do
  let s ← read
  whenever (s.sides d).Ready (writeSide d ({ · with sideMode := .normal }))

/-- `maybe_finalize_ready_reset_sides`. -/
def maybeFinalizeReadyResetSides : Act Unit := do
  finalizeReadySide .long
  finalizeReadySide .short

/-- Begin the reset of side `d` when it is scheduled and not under way. -/
def beginPendingReset (ctx : InstructionContext) (d : Side) : Act Unit := do
  let s ← read
  whenever (ctx.pendingReset d = true ∧ (s.sides d).sideMode ≠ .resetPending)
    (beginFullDrainReset d)

/-- `finalize_end_of_instruction_resets`. -/
def finalizeEndOfInstructionResets (ctx : InstructionContext) : Act Unit := do
  beginPendingReset ctx .long
  beginPendingReset ctx .short
  maybeFinalizeReadyResetSides

end Percolator
