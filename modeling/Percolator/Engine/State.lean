import Mathlib.Tactic.Simps.Basic
import Percolator.Base.Tally
import Percolator.Engine.Num

/-!
The state of the risk engine: accounts, sides, parameters, the engine record,
the per-instruction context, and the effects the engine's functions run in.

The `_long`/`_short` pairs of fields are one `SideState` for each `Side`. The
account array, the bitmap and the free-list arrays are functions from slot
numbers, and `maxAccounts` is their length, the constant `MAX_ACCOUNTS` of the
build.
-/

namespace Percolator

inductive Side where
  | long
  | short
deriving DecidableEq, Repr

/-- `opposite_side`. -/
def Side.opposite : Side → Side
  | .long => .short
  | .short => .long

/-- `side_of_i128`. -/
def sideOfI128 (v : Int) : Option Side :=
  if v = 0 then none else if 0 < v then some .long else some .short

inductive MarketMode where
  | live
  | resolved
deriving DecidableEq, Repr

inductive SideMode where
  | normal
  | drainOnly
  | resetPending
deriving DecidableEq, Repr

inductive ResolveMode where
  | ordinary
  | degenerate
deriving DecidableEq, Repr

inductive ReserveMode where
  | useAdmissionPair (admitHMin admitHMax : Nat)
  | immediateReleaseResolvedOnly
  | noPositiveIncreaseAllowed
deriving DecidableEq, Repr

inductive LiquidationPolicy where
  | fullClose
  | exactPartial (qCloseQ : Nat)
deriving DecidableEq, Repr

structure RiskParams where
  maintenanceMarginBps : Nat
  initialMarginBps : Nat
  tradingFeeBps : Nat
  maxAccounts : Nat
  maxCrankStalenessSlots : Nat
  liquidationFeeBps : Nat
  liquidationFeeCap : Nat
  minLiquidationAbs : Nat
  minInitialDeposit : Nat
  minNonzeroMmReq : Nat
  minNonzeroImReq : Nat
  insuranceFloor : Nat
  hMin : Nat
  hMax : Nat
  resolvePriceDeviationBps : Nat
  maxAccrualDtSlots : Nat
  maxAbsFundingE9PerSlot : Nat
  minFundingLifetimeSlots : Nat
  maxActivePositionsPerSide : Nat
deriving DecidableEq, Repr

/-- A 32-byte key or payload. -/
abbrev Bytes32 : Type := BitVec 256

structure Account where
  capital : Nat
  kind : Nat
  pnl : Int
  reservedPnl : Nat
  positionBasisQ : Int
  adlABasis : Nat
  adlKSnap : Int
  fSnap : Int
  adlEpochSnap : Nat
  matcherProgram : Bytes32
  matcherContext : Bytes32
  owner : Bytes32
  feeCredits : Int
  lastFeeSlot : Nat
  schedPresent : Bool
  schedRemainingQ : Nat
  schedAnchorQ : Nat
  schedStartSlot : Nat
  schedHorizon : Nat
  schedReleaseQ : Nat
  pendingPresent : Bool
  pendingRemainingQ : Nat
  pendingHorizon : Nat
  pendingCreatedSlot : Nat
deriving DecidableEq, Repr

/-- `empty_account`. -/
def emptyAccount : Account where
  capital := 0
  kind := 0
  pnl := 0
  reservedPnl := 0
  positionBasisQ := 0
  adlABasis := ADL_ONE
  adlKSnap := 0
  fSnap := 0
  adlEpochSnap := 0
  matcherProgram := 0
  matcherContext := 0
  owner := 0
  feeCredits := 0
  lastFeeSlot := 0
  schedPresent := false
  schedRemainingQ := 0
  schedAnchorQ := 0
  schedStartSlot := 0
  schedHorizon := 0
  schedReleaseQ := 0
  pendingPresent := false
  pendingRemainingQ := 0
  pendingHorizon := 0
  pendingCreatedSlot := 0

/-- The fields the engine keeps once for each side. -/
structure SideState where
  adlMult : Nat
  adlCoeff : Int
  adlEpoch : Nat
  adlEpochStartK : Int
  oiEffQ : Nat
  sideMode : SideMode
  storedPosCount : Nat
  staleAccountCount : Nat
  phantomDustBoundQ : Nat
  fNum : Int
  fEpochStartNum : Int
  resolvedKTerminalDelta : Int
deriving DecidableEq, Repr

structure RiskEngine where
  maxAccounts : Nat
  vault : Nat
  insuranceFund : Nat
  params : RiskParams
  currentSlot : Nat
  marketMode : MarketMode
  resolvedPrice : Nat
  resolvedSlot : Nat
  resolvedPayoutHNum : Nat
  resolvedPayoutHDen : Nat
  resolvedPayoutReady : Bool
  resolvedLivePrice : Nat
  lastCrankSlot : Nat
  cTot : Nat
  pnlPosTot : Nat
  pnlMaturedPosTot : Nat
  gcCursor : Nat
  sides : Side → SideState
  materializedAccountCount : Nat
  negPnlAccountCount : Nat
  lastOraclePrice : Nat
  fundPxLast : Nat
  lastMarketSlot : Nat
  used : Nat → Bool
  numUsedAccounts : Nat
  freeHead : Nat
  nextFree : Nat → Nat
  prevFree : Nat → Nat
  accounts : Nat → Account

/-! ### Field updates -/

section Accounts

variable (a : Account)

@[simps] def Account.withCapital (v : Nat) : Account := { a with capital := v }
@[simps] def Account.withPnl (v : Int) : Account := { a with pnl := v }
@[simps] def Account.withReservedPnl (v : Nat) : Account := { a with reservedPnl := v }
@[simps] def Account.withPositionBasisQ (v : Int) : Account := { a with positionBasisQ := v }
@[simps] def Account.withOwner (v : Bytes32) : Account := { a with owner := v }
@[simps] def Account.withFeeCredits (v : Int) : Account := { a with feeCredits := v }
@[simps] def Account.withLastFeeSlot (v : Nat) : Account := { a with lastFeeSlot := v }
@[simps] def Account.withSchedRemainingQ (v : Nat) : Account := { a with schedRemainingQ := v }
@[simps] def Account.withSchedAnchorQ (v : Nat) : Account := { a with schedAnchorQ := v }
@[simps] def Account.withSchedReleaseQ (v : Nat) : Account := { a with schedReleaseQ := v }

/-- Replace the amount and the horizon of the pending bucket. -/
@[simps] def Account.withPending (amount horizon : Nat) : Account :=
  { a with pendingRemainingQ := amount, pendingHorizon := horizon }

/-- Replace the snapshots of the side's indices. -/
@[simps] def Account.withSnaps (k f : Int) (epoch : Nat) : Account :=
  { a with adlKSnap := k, fSnap := f, adlEpochSnap := epoch }

end Accounts

section Engine

variable (s : RiskEngine)

@[simps] def RiskEngine.withVault (v : Nat) : RiskEngine := { s with vault := v }
@[simps] def RiskEngine.withInsuranceFund (v : Nat) : RiskEngine := { s with insuranceFund := v }
@[simps] def RiskEngine.withCTot (v : Nat) : RiskEngine := { s with cTot := v }
@[simps] def RiskEngine.withPnlPosTot (v : Nat) : RiskEngine := { s with pnlPosTot := v }
@[simps] def RiskEngine.withPnlMaturedPosTot (v : Nat) : RiskEngine := { s with pnlMaturedPosTot := v }
@[simps] def RiskEngine.withNegPnlAccountCount (v : Nat) : RiskEngine := { s with negPnlAccountCount := v }
@[simps] def RiskEngine.withCurrentSlot (v : Nat) : RiskEngine := { s with currentSlot := v }

/-- Replace the fields of side `d`. -/
@[simps] def RiskEngine.setSide (d : Side) (v : SideState) : RiskEngine :=
  { s with sides := fun e => if e = d then v else s.sides e }

/-- Replace account `i`. -/
@[simps] def RiskEngine.setAccount (i : Nat) (a : Account) : RiskEngine :=
  { s with accounts := put s.accounts i a }

end Engine

@[simp] theorem RiskEngine.setAccount_setAccount (s : RiskEngine) (i : Nat) (a b : Account) :
    (s.setAccount i a).setAccount i b = s.setAccount i b := by simp [setAccount]

@[simp] theorem RiskEngine.setAccount_eta (s : RiskEngine) (i : Nat) :
    s.setAccount i (s.accounts i) = s := by simp [setAccount]

@[simp] theorem RiskEngine.setSide_same (s : RiskEngine) (d : Side) (v : SideState) :
    (s.setSide d v).sides d = v := if_pos rfl

@[simp] theorem RiskEngine.setSide_setSide (s : RiskEngine) (d : Side) (v w : SideState) :
    (s.setSide d v).setSide d w = s.setSide d w := by
  unfold setSide
  congr 1
  funext e
  by_cases h : e = d <;> simp [h]

@[simp] theorem RiskEngine.setSide_eta (s : RiskEngine) (d : Side) : s.setSide d (s.sides d) = s := by
  have h : (fun e => if e = d then s.sides d else s.sides e) = s.sides := funext fun e => by
    by_cases he : e = d <;> simp [he]
  unfold setSide
  rw [h]

/-- `is_used`. -/
def RiskEngine.isUsed (s : RiskEngine) (idx : Nat) : Bool := decide (idx < s.maxAccounts) && s.used idx

/-- The slots in use. -/
def RiskEngine.usedSlots (s : RiskEngine) : Finset Nat :=
  (Finset.range s.maxAccounts).filter fun i => s.used i = true

/-! ### Account-local updates -/

section Commute

variable (s : RiskEngine) (i v : Nat) (a : Account)

@[simp] theorem RiskEngine.withVault_setAccount :
    (s.withVault v).setAccount i a = (s.setAccount i a).withVault v := rfl

@[simp] theorem RiskEngine.withInsuranceFund_setAccount :
    (s.withInsuranceFund v).setAccount i a = (s.setAccount i a).withInsuranceFund v := rfl

@[simp] theorem RiskEngine.withCTot_setAccount :
    (s.withCTot v).setAccount i a = (s.setAccount i a).withCTot v := rfl

@[simp] theorem RiskEngine.withPnlPosTot_setAccount :
    (s.withPnlPosTot v).setAccount i a = (s.setAccount i a).withPnlPosTot v := rfl

@[simp] theorem RiskEngine.withPnlMaturedPosTot_setAccount :
    (s.withPnlMaturedPosTot v).setAccount i a = (s.setAccount i a).withPnlMaturedPosTot v := rfl

@[simp] theorem RiskEngine.withNegPnlAccountCount_setAccount :
    (s.withNegPnlAccountCount v).setAccount i a = (s.setAccount i a).withNegPnlAccountCount v := rfl

end Commute

/-- The totals of the engine over capital, PnL and the vault. -/
structure Totals where
  vault : Nat
  insuranceFund : Nat
  cTot : Nat
  pnlPosTot : Nat
  pnlMaturedPosTot : Nat
  negPnlAccountCount : Nat

def RiskEngine.totals (s : RiskEngine) : Totals :=
  ⟨s.vault, s.insuranceFund, s.cTot, s.pnlPosTot, s.pnlMaturedPosTot, s.negPnlAccountCount⟩

/-- Replace account `i` and the totals. -/
@[simps] def RiskEngine.rebook (s : RiskEngine) (i : Nat) (a : Account) (t : Totals) : RiskEngine :=
  { s with
    vault := t.vault, insuranceFund := t.insuranceFund, cTot := t.cTot, pnlPosTot := t.pnlPosTot
    pnlMaturedPosTot := t.pnlMaturedPosTot, negPnlAccountCount := t.negPnlAccountCount
    accounts := put s.accounts i a }

section Rebook

variable (s : RiskEngine) (i : Nat) (a b : Account) (t u : Totals)

@[simp] theorem RiskEngine.rebook_totals : (s.rebook i a t).totals = t := rfl

@[simp] theorem RiskEngine.rebook_rebook : (s.rebook i a t).rebook i b u = s.rebook i b u := by
  simp [rebook]

@[simp] theorem RiskEngine.rebook_eta : s.rebook i (s.accounts i) s.totals = s := by
  simp [rebook, totals]

end Rebook

/-! ### Faults, checks and events -/

inductive RiskError where
  | insufficientBalance
  | undercollateralized
  | unauthorized
  | pnlNotWarmedUp
  | overflow
  | accountNotFound
  | sideBlocked
  | corruptState
deriving DecidableEq, Repr

/-- An error result or a panic. -/
inductive Plain where
  | err (e : RiskError)
  | panic
deriving DecidableEq, Repr

/-- The checks of the source that guard what its state should never violate. -/
inductive Check where
  | settleSideEffectsLive
  | enqueueAdl
  | scheduleEndOfInstructionResets
  | bilateralOiAfter
  | assertPublicPostconditions
deriving DecidableEq, Repr

/-- How an operation faults. A `CorruptState` raised by one of the checks above
carries the check, which the source's error does not. -/
inductive Fault where
  | plain (p : Plain)
  | corrupt (check : Check)
deriving DecidableEq, Repr

/-- The source's error of a fault; `none` for a panic. -/
def Fault.riskError : Fault → Option RiskError
  | .plain (.err e) => some e
  | .plain .panic => none
  | .corrupt _ => some .corruptState

/-- Whether a fault is no failure of a check: a plain one, or the one overflow
of the two dust bounds that `schedule_end_of_instruction_resets` reports. -/
def Fault.Sound : Fault → RiskEngine → Prop
  | .plain _, _ => True
  | .corrupt .scheduleEndOfInstructionResets, s =>
      U128_MAX < (s.sides .long).phantomDustBoundQ + (s.sides .short).phantomDustBoundQ
  | .corrupt _, _ => False

@[simp] theorem Fault.sound_plain (p : Plain) (s : RiskEngine) : (Fault.plain p).Sound s := trivial

/-- What a run does that later states do not show. -/
inductive Event where
  /-- `touch_account_live_local` reached account `idx`. -/
  | touched (idx : Nat)
  /-- The market accrued: price change, funding price, funding rate, slots. -/
  | accrued (deltaP : Int) (fundPx : Nat) (rate : Int) (dt : Nat)
  /-- ADL took `deltaKAbs` off the K index of a side and scaled A. -/
  | deleveraged (side : Side) (deltaKAbs aOld aNew : Nat)
  /-- A side began a full-drain reset. -/
  | drained (side : Side)
  /-- The linear schedule of account `idx` released `amount`. -/
  | released (idx amount : Nat)
  /-- A touch of account `idx` admitted its whole outstanding reserve. -/
  | accelerated (idx amount : Nat)
deriving DecidableEq, Repr

/-- Effects that fault plainly. -/
abbrev Act : Type → Type := Effect Plain Event RiskEngine

/-- Effects that may fault in a check. -/
abbrev Op : Type → Type := Effect Fault Event RiskEngine

instance : MonadLift Act Op := ⟨Effect.mapFault .plain⟩

@[simp] theorem Effect.wp_lift {α : Type} {m : Act α} {Q : α → RiskEngine → List Event → Prop}
    {E : Fault → RiskEngine → Prop} {s : RiskEngine} {l : List Event} :
    wp (liftM m : Op α) Q E s l ↔ wp m Q (fun p => E (.plain p)) s l :=
  wp_mapFault

theorem Effect.Runs.lift {α : Type} {m : Act α} {a : α} {s s' : RiskEngine} (h : Runs m s a s') :
    Runs (liftM m : Op α) s a s' := h.mapFault

/-- Return an error. -/
def err (e : RiskError) : Plain := .err e

/-- `expect`/`unwrap`: a missing value is a panic. -/
def expect {α : Type} (o : Option α) : Act α := Effect.demand o .panic

/-- `ok_or(e)?`. -/
def orErr {α : Type} (o : Option α) (e : RiskError) : Act α := Effect.demand o (.err e)

/-- `if c { return Err(e) }`. -/
def rejectIf (c : Prop) [Decidable c] (e : RiskError) : Act Unit := Effect.failIf c (.err e)

/-- `if c { return Err(CorruptState) }` inside a named check. -/
def corruptIf (c : Prop) [Decidable c] (check : Check) : Op Unit := Effect.failIf c (.corrupt check)

/-- Write account `idx`. -/
def writeAccount (idx : Nat) (f : Account → Account) : Act Unit :=
  Effect.update fun s => s.setAccount idx (f (s.accounts idx))

/-- Write side `d`. -/
def writeSide (d : Side) (f : SideState → SideState) : Act Unit :=
  Effect.update fun s => s.setSide d (f (s.sides d))

section Rules

variable {α : Type} {Q : α → RiskEngine → List Event → Prop} {U : Unit → RiskEngine → List Event → Prop}
  {E : Plain → RiskEngine → Prop} {s : RiskEngine} {l : List Event}

@[simp] theorem Effect.wp_expect {o : Option α} :
    wp (expect o) Q E s l ↔ (o = none → E .panic s) ∧ ∀ a, o = some a → Q a s l := wp_demand

@[simp] theorem Effect.wp_orErr {o : Option α} {e : RiskError} :
    wp (orErr o e) Q E s l ↔ (o = none → E (.err e) s) ∧ ∀ a, o = some a → Q a s l := wp_demand

@[simp] theorem Effect.wp_rejectIf {c : Prop} [Decidable c] {e : RiskError} :
    wp (rejectIf c e) U E s l ↔ (c → E (.err e) s) ∧ (¬ c → U () s l) := wp_failIf

@[simp] theorem Effect.wp_corruptIf {c : Prop} [Decidable c] {check : Check}
    {F : Fault → RiskEngine → Prop} :
    wp (corruptIf c check) U F s l ↔ (c → F (.corrupt check) s) ∧ (¬ c → U () s l) := wp_failIf

@[simp] theorem Effect.wp_writeAccount {idx : Nat} {f : Account → Account} :
    wp (writeAccount idx f) U E s l ↔ U () (s.setAccount idx (f (s.accounts idx))) l := wp_update

/-- A conditional write is a write of a conditional account. -/
theorem Effect.wp_whenever_write {c : Prop} [Decidable c] {idx : Nat} {f : Account → Account} :
    wp (whenever c (writeAccount idx f)) U E s l ↔
      U () (s.setAccount idx (if c then f (s.accounts idx) else s.accounts idx)) l := by
  by_cases h : c <;> simp [h]

@[simp] theorem Effect.wp_writeSide {d : Side} {f : SideState → SideState} :
    wp (writeSide d f) U E s l ↔ U () (s.setSide d (f (s.sides d))) l := wp_update

end Rules

/-! ### The instruction context -/

/-- `InstructionContext`: the arrays with their counts are lists in insertion order. -/
structure InstructionContext where
  pendingReset : Side → Bool
  admitHMinShared : Nat
  admitHMaxShared : Nat
  touchedAccounts : List Nat
  hMaxStickyAccounts : List Nat

/-- `new_with_admission`. -/
def InstructionContext.newWithAdmission (admitHMin admitHMax : Nat) : InstructionContext :=
  ⟨fun _ => false, admitHMin, admitHMax, [], []⟩

/-- `new`. -/
def InstructionContext.new : InstructionContext := newWithAdmission 0 0

/-- `is_h_max_sticky`. -/
def InstructionContext.isHMaxSticky (ctx : InstructionContext) (idx : Nat) : Bool :=
  ctx.hMaxStickyAccounts.contains idx

/-- `mark_h_max_sticky`; `none` when the set is full. -/
def InstructionContext.markHMaxSticky (ctx : InstructionContext) (idx : Nat) :
    Option InstructionContext :=
  if ctx.isHMaxSticky idx then some ctx
  else if ctx.hMaxStickyAccounts.length < MAX_TOUCHED_PER_INSTRUCTION then
    some { ctx with hMaxStickyAccounts := ctx.hMaxStickyAccounts ++ [idx] }
  else none

/-- `add_touched`; `none` when the set is full. -/
def InstructionContext.addTouched (ctx : InstructionContext) (idx : Nat) :
    Option InstructionContext :=
  if ctx.touchedAccounts.contains idx then some ctx
  else if ctx.touchedAccounts.length < MAX_TOUCHED_PER_INSTRUCTION then
    some { ctx with touchedAccounts := ctx.touchedAccounts ++ [idx] }
  else none

/-- `set_pending_reset`. -/
def InstructionContext.setPendingReset (ctx : InstructionContext) (d : Side) : InstructionContext :=
  { ctx with pendingReset := fun e => if e = d then true else ctx.pendingReset e }

end Percolator
