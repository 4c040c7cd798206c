import Percolator.Engine.Reserve

/-!
The canonical mutators: PnL with its reserve routing, capital, position basis
and position attachment, and the movements between capital, PnL, fee debt and
insurance that are built from them.
-/

namespace Percolator

open Effect

/-- Keep `neg_pnl_account_count` in step with a change of PnL. -/
def trackNegPnl (old newPnl : Int) : Act Unit := do
  let s ← read
  (if old < 0 ∧ 0 ≤ newPnl then do
    let n ← orErr (checkedSub s.negPnlAccountCount 1) .corruptState
    update (·.withNegPnlAccountCount n)
  else if 0 ≤ old ∧ newPnl < 0 then do
    let n ← orErr (checkedAddU64 s.negPnlAccountCount 1) .corruptState
    update (·.withNegPnlAccountCount n)
  else pure ())

/-- The invariant pair that ends every path of `set_pnl_with_reserve`. -/
def checkPnlPair (idx : Nat) (newPnl : Int) : Act Unit := do
  let s ← read
  rejectIf (s.pnlPosTot < s.pnlMaturedPosTot) .corruptState
  rejectIf (i128ClampPos newPnl < (s.accounts idx).reservedPnl) .corruptState

/-- The positive-increase branch of `set_pnl_with_reserve`. -/
def increasePnl (idx : Nat) (newPnl : Int) (mode : ReserveMode) (ctx : Option InstructionContext) :
    Act (Option InstructionContext) := do
  let s ← read
  let old := (s.accounts idx).pnl
  let reserveAdd := i128ClampPos newPnl - i128ClampPos old
  let tot ← orErr (checkedAddU128 s.pnlPosTot reserveAdd) .overflow
  update (·.withPnlPosTot tot)
  trackNegPnl old newPnl
  writeAccount idx (·.withPnl newPnl)
  match mode with
  | .noPositiveIncreaseAllowed => fail (err .overflow)
  | .immediateReleaseResolvedOnly => do
      let matured ← orErr (checkedAddU128 s.pnlMaturedPosTot reserveAdd) .overflow
      update (·.withPnlMaturedPosTot matured)
      checkPnlPair idx newPnl
      pure ctx
  | .useAdmissionPair admitHMin admitHMax => do
      let ctx ← orErr ctx .corruptState
      let (admitted, ctx) ← admitFreshReserveHLock idx reserveAdd ctx admitHMin admitHMax
      (if admitted = 0 then do
        let matured ← orErr (checkedAddU128 s.pnlMaturedPosTot reserveAdd) .overflow
        update (·.withPnlMaturedPosTot matured)
      else appendOrRouteNewReserve idx reserveAdd s.currentSlot admitted)
      checkPnlPair idx newPnl
      pure (some ctx)

/-- A Live loss takes reserve first, newest first, and only then matured PnL. -/
def takeLiveLoss (idx posLoss : Nat) : Act Unit := do
  let s ← read
  let reserveLoss := min posLoss (s.accounts idx).reservedPnl
  whenever (0 < reserveLoss) (applyReserveLossNewestFirst idx reserveLoss)
  whenever (0 < posLoss - reserveLoss) (do
    let matured ← orErr (checkedSub s.pnlMaturedPosTot (posLoss - reserveLoss)) .corruptState
    update (·.withPnlMaturedPosTot matured))

/-- A Resolved loss takes matured PnL; there is no reserve. -/
def takeResolvedLoss (idx posLoss : Nat) : Act Unit := do
  let s ← read
  rejectIf ((s.accounts idx).reservedPnl ≠ 0) .corruptState
  whenever (0 < posLoss) (do
    let matured ← orErr (checkedSub s.pnlMaturedPosTot posLoss) .corruptState
    update (·.withPnlMaturedPosTot matured))

/-- The branch of `set_pnl_with_reserve` without a positive increase. -/
def decreasePnl (idx : Nat) (newPnl : Int) : Act Unit := do
  let s ← read
  let old := (s.accounts idx).pnl
  let posLoss := i128ClampPos old - i128ClampPos newPnl
  let tot ← orErr (checkedSub s.pnlPosTot posLoss) .overflow
  update (·.withPnlPosTot tot)
  (if s.marketMode = .live then takeLiveLoss idx posLoss else takeResolvedLoss idx posLoss)
  trackNegPnl old newPnl
  writeAccount idx (·.withPnl newPnl)
  let s ← read
  let a := s.accounts idx
  rejectIf (i128ClampPos newPnl = 0 ∧ s.marketMode = .live ∧
    (a.reservedPnl ≠ 0 ∨ a.schedPresent = true ∨ a.pendingPresent = true)) .corruptState
  checkPnlPair idx newPnl

/-- The error with which a reserve mode refuses a positive increase in a market mode. -/
def ReserveMode.refusal : ReserveMode → MarketMode → Option RiskError
  | .noPositiveIncreaseAllowed, _ => some .overflow
  | .immediateReleaseResolvedOnly, .live => some .unauthorized
  | .immediateReleaseResolvedOnly, .resolved => none
  | .useAdmissionPair _ _, .live => none
  | .useAdmissionPair _ _, .resolved => some .unauthorized

/-- `set_pnl_with_reserve`. -/
def setPnlWithReserve (idx : Nat) (newPnl : Int) (mode : ReserveMode)
    (ctx : Option InstructionContext) : Act (Option InstructionContext) := do
  rejectIf (newPnl = I128_MIN) .overflow
  let s ← read
  let oldPos := i128ClampPos (s.accounts idx).pnl
  let newPos := i128ClampPos newPnl
  rejectIf (oldPos < (s.accounts idx).reservedPnl) .corruptState
  rejectIf (s.marketMode ≠ .live ∧ (s.accounts idx).reservedPnl ≠ 0) .corruptState
  (if oldPos < newPos then
    match mode.refusal s.marketMode with
    | some e => fail (err e)
    | none => pure ()
  else pure ())
  rejectIf (s.marketMode = .live ∧ MAX_ACCOUNT_POSITIVE_PNL < newPos) .overflow
  if oldPos < newPos then do
    let newTot ← orErr (checkedAddU128 s.pnlPosTot (newPos - oldPos)) .overflow
    rejectIf (s.marketMode = .live ∧ MAX_PNL_POS_TOT < newTot) .overflow
    increasePnl idx newPnl mode ctx
  else do
    decreasePnl idx newPnl
    pure ctx

/-- `set_pnl`. -/
def setPnl (idx : Nat) (newPnl : Int) : Act Unit := do
  let _ ← setPnlWithReserve idx newPnl .immediateReleaseResolvedOnly none

/-- `set_pnl_with_reserve` in the admission mode of an instruction. -/
def setPnlAdmitted (idx : Nat) (newPnl : Int) (ctx : InstructionContext) :
    Act InstructionContext := do
  let ctx' ← setPnlWithReserve idx newPnl
    (.useAdmissionPair ctx.admitHMinShared ctx.admitHMaxShared) (some ctx)
  pure (ctx'.getD ctx)

/-- `released_pos`: `max(PNL, 0) - R`. -/
def Account.releasedPos (a : Account) : Nat := i128ClampPos a.pnl - a.reservedPnl

/-- `consume_released_pnl`. -/
def consumeReleasedPnl (idx x : Nat) : Act Unit := do
  rejectIf (x = 0) .corruptState
  let s ← read
  let a := s.accounts idx
  let oldRel ← orErr (checkedSub (i128ClampPos a.pnl) a.reservedPnl) .corruptState
  rejectIf (oldRel < x) .corruptState
  let tot ← orErr (checkedSub s.pnlPosTot x) .corruptState
  update (·.withPnlPosTot tot)
  let matured ← orErr (checkedSub s.pnlMaturedPosTot x) .corruptState
  update (·.withPnlMaturedPosTot matured)
  rejectIf (tot < matured) .corruptState
  let newPnl ← orErr (checkedSubI128 a.pnl x) .overflow
  rejectIf (newPnl = I128_MIN) .overflow
  writeAccount idx (·.withPnl newPnl)

/-- `set_capital`. -/
def setCapital (idx newCapital : Nat) : Act Unit := do
  let s ← read
  let old := (s.accounts idx).capital
  let total ← (if old ≤ newCapital then orErr (checkedAddU128 s.cTot (newCapital - old)) .overflow
    else orErr (checkedSub s.cTot (old - newCapital)) .corruptState)
  update (·.withCTot total)
  writeAccount idx (·.withCapital newCapital)

/-- `set_position_basis_q`. -/
def setPositionBasisQ (idx : Nat) (newBasis : Int) : Act Unit := do
  let s ← read
  (match sideOfI128 (s.accounts idx).positionBasisQ with
    | some d => do
        let n ← orErr (checkedSub (s.sides d).storedPosCount 1) .corruptState
        writeSide d ({ · with storedPosCount := n })
    | none => pure ())
  let s ← read
  (match sideOfI128 newBasis with
    | some d => do
        let n ← orErr (checkedAddU64 (s.sides d).storedPosCount 1) .corruptState
        writeSide d ({ · with storedPosCount := n })
    | none => pure ())
  writeAccount idx (·.withPositionBasisQ newBasis)

/-- `inc_phantom_dust_bound_by`. -/
def incPhantomDustBoundBy (d : Side) (amountQ : Nat) : Act Unit := do
  let s ← read
  let n ← orErr (checkedAddU128 (s.sides d).phantomDustBoundQ amountQ) .overflow
  writeSide d ({ · with phantomDustBoundQ := n })

/-- `inc_phantom_dust_bound`. -/
def incPhantomDustBound (d : Side) : Act Unit := incPhantomDustBoundBy d 1

/-- The canonical zero-position snapshots. -/
@[simps] def Account.flatSnaps (a : Account) : Account :=
  { a with adlABasis := ADL_ONE, adlKSnap := 0, fSnap := 0, adlEpochSnap := 0 }

/-- The snapshots of a position attached to a side in state `v`. -/
@[simps] def Account.attachSnaps (a : Account) (v : SideState) : Account :=
  { a with adlABasis := v.adlMult, adlKSnap := v.adlCoeff, fSnap := v.fNum, adlEpochSnap := v.adlEpoch }

/-- Whether replacing the position of `a` orphans a fractional remainder on its side `v`. -/
def Account.OrphansDust (a : Account) (v : SideState) : Prop :=
  a.adlEpochSnap = v.adlEpoch ∧ a.adlABasis ≠ 0 ∧
    a.positionBasisQ.natAbs * v.adlMult % a.adlABasis ≠ 0

instance (a : Account) (v : SideState) : Decidable (a.OrphansDust v) := by
  unfold Account.OrphansDust; infer_instance

/-- `attach_effective_position`. -/
def attachEffectivePosition (idx : Nat) (newEffPosQ : Int) : Act Unit := do
  let s ← read
  let a := s.accounts idx
  (match sideOfI128 a.positionBasisQ with
    | some d => whenever (a.OrphansDust (s.sides d)) (incPhantomDustBound d)
    | none => pure ())
  match sideOfI128 newEffPosQ with
  | none => do
      setPositionBasisQ idx 0
      writeAccount idx (·.flatSnaps)
  | some d => do
      rejectIf (MAX_POSITION_ABS_Q < newEffPosQ.natAbs) .overflow
      setPositionBasisQ idx newEffPosQ
      let s ← read
      writeAccount idx (·.attachSnaps (s.sides d))

/-- `effective_pos_q`; `none` is a panic of the native product. -/
def effectivePosQ (s : RiskEngine) (idx : Nat) : Option Int :=
  let a := s.accounts idx
  match sideOfI128 a.positionBasisQ with
  | none => some 0
  | some d =>
      if a.adlEpochSnap ≠ (s.sides d).adlEpoch ∨ a.adlABasis = 0 then some 0
      else do
        let effectiveAbs ← mulDivFloorU128 a.positionBasisQ.natAbs (s.sides d).adlMult a.adlABasis
        if I128_MAX < effectiveAbs then return 0
        return match d with
          | .long => (effectiveAbs : Int)
          | .short => -(effectiveAbs : Int)

/-- `settle_losses`. -/
def settleLosses (idx : Nat) : Act Unit := do
  let s ← read
  let a := s.accounts idx
  whenever (a.pnl < 0) (do
    rejectIf (a.pnl = I128_MIN) .corruptState
    let pay := min a.pnl.natAbs a.capital
    whenever (0 < pay) (do
      setCapital idx (a.capital - pay)
      let newPnl ← orErr (checkedAddI128 a.pnl (asI128 pay)) .corruptState
      rejectIf (newPnl = I128_MIN) .corruptState
      setPnl idx newPnl))

/-- `use_insurance_buffer`: what the fund above its floor does not cover of `loss`. -/
def useInsuranceBuffer (loss : Nat) : Act Nat := do
  let s ← read
  let pay := min loss (s.insuranceFund - s.params.insuranceFloor)
  update (·.withInsuranceFund (s.insuranceFund - pay))
  pure (loss - pay)

/-- `absorb_protocol_loss`; `record_uninsured_protocol_loss` does nothing. -/
def absorbProtocolLoss (loss : Nat) : Act Unit := do
  let _ ← useInsuranceBuffer loss

/-- `resolve_flat_negative`. -/
def resolveFlatNegative (idx : Nat) : Act Unit := do
  let s ← read
  let eff ← expect (effectivePosQ s idx)
  whenever (eff = 0 ∧ (s.accounts idx).pnl < 0) (do
    rejectIf ((s.accounts idx).pnl = I128_MIN) .corruptState
    absorbProtocolLoss (s.accounts idx).pnl.natAbs
    setPnl idx 0)

/-- `fee_debt_sweep`. -/
def feeDebtSweep (idx : Nat) : Act Unit := do
  let s ← read
  let a := s.accounts idx
  let pay := min (feeDebtU128Checked a.feeCredits) a.capital
  whenever (0 < pay) (do
    setCapital idx (a.capital - pay)
    let credits ← orErr (checkedAddI128 a.feeCredits (min (pay : Int) I128_MAX)) .corruptState
    writeAccount idx (·.withFeeCredits credits)
    let fund ← orErr (checkedAddU128 s.insuranceFund pay) .overflow
    update (·.withInsuranceFund fund))

/-- What fee debt an account can still take on. -/
def feeHeadroom (feeCredits : Int) : Nat :=
  match checkedAddI128 feeCredits I128_MAX with
  | some h => h.toNat
  | none => 0

/-- `charge_fee_to_insurance`: returns what was paid, the equity impact and what was dropped. -/
def chargeFeeToInsurance (idx fee : Nat) : Act (Nat × Nat × Nat) := do
  rejectIf (MAX_PROTOCOL_FEE_ABS < fee) .overflow
  let s ← read
  let a := s.accounts idx
  let feePaid := min fee a.capital
  whenever (0 < feePaid) (do
    setCapital idx (a.capital - feePaid)
    let fund ← orErr (checkedAddU128 s.insuranceFund feePaid) .overflow
    update (·.withInsuranceFund fund))
  let collectible := min (fee - feePaid) (feeHeadroom a.feeCredits)
  whenever (0 < collectible) (writeAccount idx fun a => a.withFeeCredits (a.feeCredits - collectible))
  pure (feePaid, feePaid + collectible, fee - (feePaid + collectible))

/-- `sync_account_fee_to_slot`. -/
def syncAccountFeeToSlot (idx feeSlotAnchor feeRatePerSlot : Nat) : Act Unit := do
  let s ← read
  rejectIf (s.isUsed idx = false) .accountNotFound
  let last := (s.accounts idx).lastFeeSlot
  rejectIf (feeSlotAnchor < last) .overflow
  rejectIf ((match s.marketMode with | .live => s.currentSlot | .resolved => s.resolvedSlot) <
    feeSlotAnchor) .overflow
  whenever (feeSlotAnchor ≠ last) (do
    whenever (feeRatePerSlot ≠ 0) (do
      let raw ← orErr (U256.checkedMul feeRatePerSlot (feeSlotAnchor - last)) .overflow
      let feeAbs := min raw MAX_PROTOCOL_FEE_ABS
      whenever (0 < feeAbs) (do
        let _ ← chargeFeeToInsurance idx feeAbs))
    writeAccount idx (·.withLastFeeSlot feeSlotAnchor))

end Percolator
