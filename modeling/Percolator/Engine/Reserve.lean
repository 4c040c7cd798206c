import Percolator.Engine.State

/-!
The two-bucket warmup reserve of an account: its shape, appending new reserve,
consuming a loss newest first, the linear schedule, and admission.
-/

namespace Percolator

open Effect

/-- Clear the scheduled bucket. -/
@[simps] def Account.clearSched (a : Account) : Account :=
  { a with
    schedPresent := false, schedRemainingQ := 0, schedAnchorQ := 0, schedStartSlot := 0
    schedHorizon := 0, schedReleaseQ := 0 }

/-- Clear the pending bucket. -/
@[simps] def Account.clearPending (a : Account) : Account :=
  { a with
    pendingPresent := false, pendingRemainingQ := 0, pendingHorizon := 0, pendingCreatedSlot := 0 }

/-- Turn the pending bucket into the scheduled one, started at `nowSlot`. -/
@[simps] def Account.promotePending (a : Account) (nowSlot : Nat) : Account :=
  { a with
    schedPresent := true, schedRemainingQ := a.pendingRemainingQ
    schedAnchorQ := a.pendingRemainingQ, schedStartSlot := nowSlot
    schedHorizon := a.pendingHorizon, schedReleaseQ := 0
    pendingPresent := false, pendingRemainingQ := 0, pendingHorizon := 0, pendingCreatedSlot := 0 }

/-- Promote the pending bucket of an account without a scheduled one. -/
def Account.promoted (a : Account) (nowSlot : Nat) : Account :=
  if a.schedPresent = false ∧ a.pendingPresent = true then a.promotePending nowSlot else a

/-- Clear an empty scheduled bucket and promote the pending one, if any. -/
def Account.rolledOver (a : Account) (nowSlot : Nat) : Account :=
  if a.schedRemainingQ = 0 then
    if a.pendingPresent then a.clearSched.promotePending nowSlot else a.clearSched
  else a

/-- Start a scheduled bucket. -/
@[simps] def Account.openSched (a : Account) (amount nowSlot horizon : Nat) : Account :=
  { a with
    schedPresent := true, schedRemainingQ := amount, schedAnchorQ := amount
    schedStartSlot := nowSlot, schedHorizon := horizon, schedReleaseQ := 0 }

/-- Start a pending bucket. -/
@[simps] def Account.openPending (a : Account) (amount nowSlot horizon : Nat) : Account :=
  { a with
    pendingPresent := true, pendingRemainingQ := amount, pendingHorizon := horizon
    pendingCreatedSlot := nowSlot }

/-- Clear both buckets and the reserve. -/
@[simps] def Account.clearReserve (a : Account) : Account :=
  { a with
    reservedPnl := 0
    schedPresent := false, schedRemainingQ := 0, schedAnchorQ := 0, schedStartSlot := 0
    schedHorizon := 0, schedReleaseQ := 0
    pendingPresent := false, pendingRemainingQ := 0, pendingHorizon := 0, pendingCreatedSlot := 0 }

/-- What the scheduled bucket holds. -/
def Account.schedHeld (a : Account) : Nat := if a.schedPresent then a.schedRemainingQ else 0

/-- What the pending bucket holds. -/
def Account.pendingHeld (a : Account) : Nat := if a.pendingPresent then a.pendingRemainingQ else 0

/-- The conditions of `validate_reserve_shape`. -/
structure ReserveShape (p : RiskParams) (a : Account) : Prop where
  schedAbsent : a.schedPresent = false → a.schedRemainingQ = 0 ∧ a.schedAnchorQ = 0 ∧
    a.schedStartSlot = 0 ∧ a.schedHorizon = 0 ∧ a.schedReleaseQ = 0
  schedPresent : a.schedPresent = true → 0 < a.schedHorizon ∧ p.hMin ≤ a.schedHorizon ∧
    a.schedHorizon ≤ p.hMax ∧ a.schedRemainingQ + a.schedReleaseQ ≤ U128_MAX ∧
    a.schedRemainingQ + a.schedReleaseQ ≤ a.schedAnchorQ ∧ 0 < a.schedRemainingQ
  pendingAbsent : a.pendingPresent = false → a.pendingRemainingQ = 0 ∧ a.pendingHorizon = 0 ∧
    a.pendingCreatedSlot = 0
  pendingPresent : a.pendingPresent = true → 0 < a.pendingHorizon ∧ p.hMin ≤ a.pendingHorizon ∧
    a.pendingHorizon ≤ p.hMax ∧ 0 < a.pendingRemainingQ
  total : a.schedHeld + a.pendingHeld ≤ U128_MAX ∧ a.schedHeld + a.pendingHeld = a.reservedPnl
  reserved_le : a.reservedPnl ≤ i128ClampPos a.pnl

/-- `validate_reserve_shape` as a test. -/
def reserveShapeCheck (p : RiskParams) (a : Account) : Bool :=
  (if a.schedPresent then
    decide (0 < a.schedHorizon) && decide (p.hMin ≤ a.schedHorizon) &&
    decide (a.schedHorizon ≤ p.hMax) && decide (a.schedRemainingQ + a.schedReleaseQ ≤ U128_MAX) &&
    decide (a.schedRemainingQ + a.schedReleaseQ ≤ a.schedAnchorQ) && decide (0 < a.schedRemainingQ)
  else
    decide (a.schedRemainingQ = 0) && decide (a.schedAnchorQ = 0) &&
    decide (a.schedStartSlot = 0) && decide (a.schedHorizon = 0) && decide (a.schedReleaseQ = 0)) &&
  (if a.pendingPresent then
    decide (0 < a.pendingHorizon) && decide (p.hMin ≤ a.pendingHorizon) &&
    decide (a.pendingHorizon ≤ p.hMax) && decide (0 < a.pendingRemainingQ)
  else
    decide (a.pendingRemainingQ = 0) && decide (a.pendingHorizon = 0) &&
    decide (a.pendingCreatedSlot = 0)) &&
  decide (a.schedHeld + a.pendingHeld ≤ U128_MAX) &&
  decide (a.schedHeld + a.pendingHeld = a.reservedPnl) &&
  decide (a.reservedPnl ≤ i128ClampPos a.pnl)

theorem reserveShapeCheck_iff {p : RiskParams} {a : Account} :
    reserveShapeCheck p a = true ↔ ReserveShape p a := by
  constructor
  · intro h
    simp only [reserveShapeCheck, Bool.and_eq_true, decide_eq_true_eq] at h
    obtain ⟨⟨⟨⟨hs, hp⟩, h1⟩, h2⟩, h3⟩ := h
    refine ⟨fun e => ?_, fun e => ?_, fun e => ?_, fun e => ?_, ⟨h1, h2⟩, h3⟩ <;>
      simp only [e, Bool.false_eq_true, if_true, if_false, Bool.and_eq_true, decide_eq_true_eq] at hs hp
    · tauto
    · tauto
    · tauto
    · tauto
  · rintro ⟨h1, h2, h3, h4, ⟨h5, h6⟩, h7⟩
    simp only [reserveShapeCheck, h6, h7, decide_true, Bool.and_true]
    cases hs : a.schedPresent <;> cases hp : a.pendingPresent <;> simp_all

/-- `validate_reserve_shape`. -/
def validateReserveShape (idx : Nat) : Act Unit := do
  let s ← read
  rejectIf (reserveShapeCheck s.params (s.accounts idx) = false) .corruptState

/-- `append_or_route_new_reserve`. -/
def appendOrRouteNewReserve (idx reserveAdd nowSlot hLock : Nat) : Act Unit := do
  validateReserveShape idx
  writeAccount idx (·.promoted nowSlot)
  let s ← read
  let a := s.accounts idx
  (if a.schedPresent = false then
    writeAccount idx (·.openSched reserveAdd nowSlot hLock)
  else if a.pendingPresent = false ∧ a.schedStartSlot = nowSlot ∧ a.schedHorizon = hLock ∧
      a.schedReleaseQ = 0 then do
    let remaining ← orErr (checkedAddU128 a.schedRemainingQ reserveAdd) .overflow
    writeAccount idx (·.withSchedRemainingQ remaining)
    let anchor ← orErr (checkedAddU128 a.schedAnchorQ reserveAdd) .overflow
    writeAccount idx (·.withSchedAnchorQ anchor)
  else if a.pendingPresent = false then
    writeAccount idx (·.openPending reserveAdd nowSlot hLock)
  else do
    let remaining ← orErr (checkedAddU128 a.pendingRemainingQ reserveAdd) .overflow
    writeAccount idx (·.withPending remaining (max a.pendingHorizon hLock)))
  let reserved ← orErr (checkedAddU128 a.reservedPnl reserveAdd) .overflow
  writeAccount idx (·.withReservedPnl reserved)

/-- Take `take` out of the pending bucket and clear it when empty. -/
def Account.takePending (a : Account) (take : Nat) : Account :=
  if take = 0 then a
  else if a.pendingRemainingQ - take = 0 then a.clearPending
  else a.withPending (a.pendingRemainingQ - take) a.pendingHorizon

/-- Take `take` out of the scheduled bucket and clear it when empty. -/
def Account.takeSched (a : Account) (take : Nat) : Account :=
  if take = 0 then a
  else if a.schedRemainingQ - take = 0 then a.clearSched
  else a.withSchedRemainingQ (a.schedRemainingQ - take)

/-- `apply_reserve_loss_newest_first`. -/
def applyReserveLossNewestFirst (idx reserveLoss : Nat) : Act Unit := do
  validateReserveShape idx
  let s ← read
  let a := s.accounts idx
  let totalAvail ← orErr (checkedAddU128 a.pendingHeld a.schedHeld) .corruptState
  rejectIf (totalAvail < reserveLoss) .corruptState
  let newReservedPnl ← orErr (checkedSub a.reservedPnl reserveLoss) .corruptState
  let takePend := min reserveLoss a.pendingHeld
  let takeSched := reserveLoss - takePend
  writeAccount idx fun a =>
    ((a.takePending takePend).takeSched takeSched).withReservedPnl newReservedPnl

/-- `prepare_account_for_resolved_touch`. -/
def prepareAccountForResolvedTouch (idx : Nat) : Act Unit :=
  writeAccount idx (·.clearReserve)

/-- The linear schedule: what has matured of `anchor` after `elapsed` slots. -/
def schedTotal (anchor elapsed horizon : Nat) : Option Nat :=
  if horizon ≤ elapsed then some anchor else mulDivFloorU128 anchor elapsed horizon

/-- Move `release` of the schedule of account `idx` to matured PnL. -/
def releaseSched (idx release : Nat) : Act Unit := do
  let s ← read
  let a := s.accounts idx
  whenever (0 < release) (do
    let remaining ← orErr (checkedSub a.schedRemainingQ release) .corruptState
    writeAccount idx (·.withSchedRemainingQ remaining)
    let reserved ← orErr (checkedSub a.reservedPnl release) .corruptState
    writeAccount idx (·.withReservedPnl reserved)
    let matured ← orErr (checkedAddU128 s.pnlMaturedPosTot release) .overflow
    update (·.withPnlMaturedPosTot matured)
    emit (.released idx release))

/-- `advance_profit_warmup`. -/
def advanceProfitWarmup (idx : Nat) : Act Unit := do
  validateReserveShape idx
  let s ← read
  if (s.accounts idx).reservedPnl = 0 then pure ()
  else do
    writeAccount idx (·.promoted s.currentSlot)
    let s ← read
    let a := s.accounts idx
    rejectIf (a.schedPresent = false) .corruptState
    rejectIf (s.currentSlot < a.schedStartSlot) .corruptState
    rejectIf (a.schedHorizon = 0) .corruptState
    let total ← expect (schedTotal a.schedAnchorQ (s.currentSlot - a.schedStartSlot) a.schedHorizon)
    rejectIf (total < a.schedReleaseQ) .corruptState
    releaseSched idx (min a.schedRemainingQ (total - a.schedReleaseQ))
    writeAccount idx (·.withSchedReleaseQ total)
    writeAccount idx (·.rolledOver s.currentSlot)
    let s ← read
    rejectIf ((s.accounts idx).reservedPnl = 0 ∧
      ((s.accounts idx).schedPresent = true ∨ (s.accounts idx).pendingPresent = true)) .corruptState
    rejectIf (s.pnlPosTot < s.pnlMaturedPosTot) .corruptState

/-- `Residual = V - C_tot - I`, failing as the admission helpers do. -/
def residualNow (s : RiskEngine) : Act Nat := do
  let senior ← orErr (checkedAddU128 s.cTot s.insuranceFund) .overflow
  orErr (checkedSub s.vault senior) .corruptState

/-- `admit_fresh_reserve_h_lock`. -/
def admitFreshReserveHLock (idx fresh : Nat) (ctx : InstructionContext) (admitHMin admitHMax : Nat) :
    Act (Nat × InstructionContext) := do
  if ctx.isHMaxSticky idx then pure (admitHMax, ctx)
  else do
    let s ← read
    let residual ← residualNow s
    let maturedPlusFresh ← orErr (checkedAddU128 s.pnlMaturedPosTot fresh) .overflow
    let admitted := if maturedPlusFresh ≤ residual then admitHMin else admitHMax
    if admitted = admitHMax then do
      let ctx ← orErr (ctx.markHMaxSticky idx) .overflow
      pure (admitted, ctx)
    else pure (admitted, ctx)

/-- `admit_outstanding_reserve_on_touch`. -/
def admitOutstandingReserveOnTouch (idx : Nat) : Act Unit := do
  let s ← read
  whenever (s.marketMode = .live) (do
    validateReserveShape idx
    let a := s.accounts idx
    let reserveTotal ← orErr (checkedAddU128 a.schedHeld a.pendingHeld) .corruptState
    whenever (reserveTotal ≠ 0) (do
      let residual ← residualNow s
      let newMatured ← orErr (checkedAddU128 s.pnlMaturedPosTot reserveTotal) .overflow
      whenever (newMatured ≤ residual) (do
        rejectIf (s.pnlPosTot < newMatured) .corruptState
        update (·.withPnlMaturedPosTot newMatured)
        writeAccount idx (·.clearReserve)
        emit (.accelerated idx reserveTotal))))

end Percolator
