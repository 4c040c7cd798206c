import Percolator.Base.Keeps
import Percolator.Engine.Instructions

/-!
What the engine leaves alone: the vault, the table of slots and the owners.

Only deposits and withdrawals move the vault, only `materialize_at` and `free_slot` take and give up
slots, and only `set_owner` names an owner. Everything else keeps all of them.
-/

namespace Percolator

open Effect

variable {s s' : RiskEngine} {i j slot now price : Nat} {d : Side} {ctx : InstructionContext}

/-- The parts of the engine that most of its functions never write. -/
structure Fixtures where
  vault : Nat
  params : RiskParams
  maxAccounts : Nat
  gcCursor : Nat
  used : Nat → Bool
  numUsedAccounts : Nat
  materializedAccountCount : Nat
  freeHead : Nat
  nextFree : Nat → Nat
  prevFree : Nat → Nat
  owner : Nat → Bytes32

def RiskEngine.fixtures (s : RiskEngine) : Fixtures where
  vault := s.vault
  params := s.params
  maxAccounts := s.maxAccounts
  gcCursor := s.gcCursor
  used := s.used
  numUsedAccounts := s.numUsedAccounts
  materializedAccountCount := s.materializedAccountCount
  freeHead := s.freeHead
  nextFree := s.nextFree
  prevFree := s.prevFree
  owner := fun i => (s.accounts i).owner

/-- The effect writes no fixture of the engine. -/
abbrev Fixed {ε α : Type} (m : Effect ε Event RiskEngine α) : Prop := Keeps RiskEngine.fixtures m

/-! ### Writes -/

theorem fixtures_setAccount {a : Account} (owner : a.owner = (s.accounts i).owner) :
    (s.setAccount i a).fixtures = s.fixtures := by
  have owners : (fun j => ((s.setAccount i a).accounts j).owner) = fun j => (s.accounts j).owner := by
    funext j
    by_cases same : j = i
    · rw [same]
      exact (congrArg Account.owner (put_same _ _ _)).trans owner
    · exact congrArg Account.owner (put_other _ _ same)
  unfold RiskEngine.fixtures
  rw [owners]
  rfl

instance {f : Account → Account} [h : Spares Account.owner f] : Fixed (writeAccount i f) := by
  have spares : Spares RiskEngine.fixtures fun s => s.setAccount i (f (s.accounts i)) :=
    ⟨fun s => fixtures_setAccount (h.spared (s.accounts i))⟩
  exact inferInstanceAs (Fixed (update fun s => s.setAccount i (f (s.accounts i))))

instance {f : SideState → SideState} : Fixed (writeSide d f) := by
  have spares : Spares RiskEngine.fixtures fun s => s.setSide d (f (s.sides d)) := ⟨fun s => rfl⟩
  exact inferInstanceAs (Fixed (update fun s => s.setSide d (f (s.sides d))))

section Updates

variable {n m k : Nat} {x : Int} {b : Bool}

instance : Spares RiskEngine.fixtures fun s => s.withCurrentSlot n := ⟨fun _ => rfl⟩
instance : Spares RiskEngine.fixtures fun s => s.withInsuranceFund n := ⟨fun _ => rfl⟩
instance : Spares RiskEngine.fixtures fun s => s.withCTot n := ⟨fun _ => rfl⟩
instance : Spares RiskEngine.fixtures fun s => s.withPnlPosTot n := ⟨fun _ => rfl⟩
instance : Spares RiskEngine.fixtures fun s => s.withPnlMaturedPosTot n := ⟨fun _ => rfl⟩
instance : Spares RiskEngine.fixtures fun s => s.withNegPnlAccountCount n := ⟨fun _ => rfl⟩

instance : Spares Account.owner fun a => a.withCapital n := ⟨fun _ => rfl⟩
instance : Spares Account.owner fun a => a.withPnl x := ⟨fun _ => rfl⟩
instance : Spares Account.owner fun a => a.withFeeCredits x := ⟨fun _ => rfl⟩
instance : Spares Account.owner fun a => a.withPositionBasisQ x := ⟨fun _ => rfl⟩
instance : Spares Account.owner fun a => a.withReservedPnl n := ⟨fun _ => rfl⟩
instance : Spares Account.owner fun a => a.withSchedRemainingQ n := ⟨fun _ => rfl⟩
instance : Spares Account.owner fun a => a.withSchedAnchorQ n := ⟨fun _ => rfl⟩
instance : Spares Account.owner fun a => a.withSchedReleaseQ n := ⟨fun _ => rfl⟩
instance : Spares Account.owner fun a => a.withPending n m := ⟨fun _ => rfl⟩
instance : Spares Account.owner fun a => a.openSched n m k := ⟨fun _ => rfl⟩
instance : Spares Account.owner fun a => a.openPending n m k := ⟨fun _ => rfl⟩
instance : Spares Account.owner fun a => a.clearReserve := ⟨fun _ => rfl⟩
instance : Spares Account.owner fun a => a.flatSnaps := ⟨fun _ => rfl⟩
instance {v : SideState} : Spares Account.owner fun a => a.attachSnaps v := ⟨fun _ => rfl⟩

end Updates

/-! ### Checks -/

section Checks

variable {τ α : Type} {v : RiskEngine → τ} {c : Prop} [Decidable c] {o : Option α}

instance {e : RiskError} : Keeps v (rejectIf c e) := inferInstanceAs (Keeps v (failIf c _))

instance {check : Check} : Keeps v (corruptIf c check) := inferInstanceAs (Keeps v (failIf c _))

instance {e : RiskError} : Keeps v (orErr o e) := inferInstanceAs (Keeps v (demand o _))

instance : Keeps v (expect o) := inferInstanceAs (Keeps v (demand o _))

instance {m : Act α} [Keeps v m] : Keeps v (liftM m : Op α) := inferInstanceAs (Keeps v (mapFault _ m))

end Checks

-- the search for an instance goes through the whole body of a function
set_option synthInstance.maxSize 1000000

/-! ### Reserve and ledger -/

section Ledger

variable {n k lock hMin hMax : Nat} {x y : Int} {mode : ReserveMode} {octx : Option InstructionContext}

instance : Spares Account.owner fun a => a.promoted now := by
  constructor
  intro a
  unfold Account.promoted
  split_ifs <;> rfl

instance : Spares Account.owner fun a => a.rolledOver now := by
  constructor
  intro a
  unfold Account.rolledOver
  split_ifs <;> rfl

instance : Spares Account.owner fun a => ((a.takePending n).takeSched k).withReservedPnl lock := by
  constructor
  intro a
  unfold Account.takePending Account.takeSched
  split_ifs <;> rfl

instance : Fixed (validateReserveShape i) := by
  unfold validateReserveShape
  infer_instance

instance : Fixed (appendOrRouteNewReserve i n now lock) := by
  dsimp only [appendOrRouteNewReserve]
  infer_instance

instance : Fixed (applyReserveLossNewestFirst i n) := by
  dsimp only [applyReserveLossNewestFirst]
  infer_instance

instance : Fixed (releaseSched i n) := by
  dsimp only [releaseSched]
  infer_instance

instance : Fixed (advanceProfitWarmup i) := by
  dsimp only [advanceProfitWarmup]
  infer_instance

instance : Fixed (residualNow s) := by
  unfold residualNow
  infer_instance

instance : Fixed (admitFreshReserveHLock i n ctx hMin hMax) := by
  dsimp only [admitFreshReserveHLock]
  infer_instance

instance : Fixed (admitOutstandingReserveOnTouch i) := by
  dsimp only [admitOutstandingReserveOnTouch]
  infer_instance

instance : Fixed (trackNegPnl x y) := by
  unfold trackNegPnl
  infer_instance

instance : Fixed (checkPnlPair i x) := by
  unfold checkPnlPair
  infer_instance

instance : Fixed (increasePnl i x mode octx) := by
  unfold increasePnl
  refine .bind inferInstance fun s => .bind inferInstance fun tot => .bind inferInstance fun _ => ?_
  refine .bind inferInstance fun _ => .bind inferInstance fun _ => ?_
  cases mode with
  | noPositiveIncreaseAllowed => infer_instance
  | immediateReleaseResolvedOnly => infer_instance
  | useAdmissionPair hMin hMax =>
      refine .bind inferInstance fun ctx => .bind inferInstance ?_
      rintro ⟨admitted, ctx⟩
      infer_instance

instance : Fixed (takeLiveLoss i n) := by
  dsimp only [takeLiveLoss]
  infer_instance

instance : Fixed (takeResolvedLoss i n) := by
  unfold takeResolvedLoss
  infer_instance

instance : Fixed (decreasePnl i x) := by
  dsimp only [decreasePnl]
  infer_instance

instance : Fixed (setPnlWithReserve i x mode octx) := by
  have refuse : ∀ mm, Fixed (match mode.refusal mm with | some e => (fail (err e) : Act Unit) | none => pure ()) := by
    intro mm
    cases mode.refusal mm <;> infer_instance
  dsimp only [setPnlWithReserve]
  infer_instance

instance : Fixed (setPnl i x) := by
  unfold setPnl
  infer_instance

instance : Fixed (setPnlAdmitted i x ctx) := by
  unfold setPnlAdmitted
  infer_instance

instance : Fixed (consumeReleasedPnl i n) := by
  dsimp only [consumeReleasedPnl]
  infer_instance

instance : Fixed (setCapital i n) := by
  dsimp only [setCapital]
  infer_instance

instance : Fixed (settleLosses i) := by
  dsimp only [settleLosses]
  infer_instance

instance : Fixed (useInsuranceBuffer n) := by
  dsimp only [useInsuranceBuffer]
  infer_instance

instance : Fixed (absorbProtocolLoss n) := by
  unfold absorbProtocolLoss
  infer_instance

instance : Fixed (resolveFlatNegative i) := by
  unfold resolveFlatNegative
  infer_instance

instance : Fixed (feeDebtSweep i) := by
  dsimp only [feeDebtSweep]
  infer_instance

instance : Fixed (chargeFeeToInsurance i n) := by
  have credit : ∀ m, Spares Account.owner fun a => a.withFeeCredits (a.feeCredits - m) := fun m => ⟨fun _ => rfl⟩
  dsimp only [chargeFeeToInsurance]
  infer_instance

end Ledger

/-! ### Positions -/

section Positions

variable {n m k : Nat} {x : Int}

instance : Fixed (setPositionBasisQ i x) := by
  unfold setPositionBasisQ
  refine .bind inferInstance fun s => .bind ?_ fun _ => .bind inferInstance fun s => .bind ?_ fun _ => inferInstance
  · cases sideOfI128 (s.accounts i).positionBasisQ <;> infer_instance
  · cases sideOfI128 x <;> infer_instance

instance : Fixed (incPhantomDustBoundBy d n) := by
  unfold incPhantomDustBoundBy
  infer_instance

instance : Fixed (incPhantomDustBound d) := by
  unfold incPhantomDustBound
  infer_instance

instance : Fixed (attachEffectivePosition i x) := by
  unfold attachEffectivePosition
  refine .bind inferInstance fun s => .bind ?_ fun _ => ?_
  · cases sideOfI128 (s.accounts i).positionBasisQ <;> infer_instance
  · cases sideOfI128 x <;> infer_instance

end Positions

/-! ### Settlement and the touch -/

section Touch

variable {n k : Nat} {a : Account} {x y rate : Int} {whole : Bool}

instance {v : SideState} : Spares Account.owner fun a => a.withSnaps v.adlCoeff v.fNum v.adlEpoch := ⟨fun _ => rfl⟩

instance : Fixed (settledPnl a x y) := by
  unfold settledPnl
  infer_instance

instance : Fixed (settleCurrent i d ctx) := by
  dsimp only [settleCurrent]
  infer_instance

instance : Fixed (settleStale i d ctx) := by
  dsimp only [settleStale]
  infer_instance

instance : Fixed (settleSideEffectsLive i ctx) := by
  dsimp only [settleSideEffectsLive]
  refine .bind inferInstance fun s => ?_
  cases sideOfI128 (s.accounts i).positionBasisQ <;> infer_instance

instance : Fixed (touchAccountLiveLocal i ctx) := by
  unfold touchAccountLiveLocal
  infer_instance

instance : Fixed (convertInto i n k) := by
  unfold convertInto
  infer_instance

instance : Fixed (finalizeTouched whole i) := by
  dsimp only [finalizeTouched]
  infer_instance

instance : Fixed (finalizeTouchedAccountsPostLive ctx) := by
  dsimp only [finalizeTouchedAccountsPostLive]
  infer_instance

instance : Fixed (checkLiveAccrualEnvelope now) := by
  unfold checkLiveAccrualEnvelope
  infer_instance

instance : Fixed (validateAdmissionPair n k) := by
  unfold validateAdmissionPair
  infer_instance

instance : Fixed (accrueMarketTo now price rate) := by
  have moved : Spares RiskEngine.fixtures fun s : RiskEngine =>
      { s with currentSlot := now, lastMarketSlot := now, lastOraclePrice := price, fundPxLast := price } :=
    ⟨fun _ => rfl⟩
  dsimp only [accrueMarketTo]
  refine .bind inferInstance fun s => .bind inferInstance fun _ => .bind inferInstance fun _ => ?_
  refine .bind inferInstance fun _ => .bind inferInstance fun _ => .bind inferInstance fun _ => ?_
  split_ifs
  · infer_instance
  · refine .bind inferInstance fun _ => .bind inferInstance ?_
    rintro ⟨kLong, kShort⟩
    refine .bind inferInstance ?_
    rintro ⟨fLong, fShort⟩
    infer_instance

instance : Fixed (accrueAndAnchor now price rate) := by
  unfold accrueAndAnchor
  infer_instance

end Touch

/-! ### ADL and the resets -/

section Adl

variable {n k oi : Nat}

instance : Fixed (socializeDeficit d oi n) := by
  unfold socializeDeficit
  refine .bind inferInstance fun s => ?_
  split_ifs
  · infer_instance
  · refine .bind inferInstance fun _ => .bind inferInstance fun delta => ?_
    cases delta with
    | overI128Magnitude => infer_instance
    | fits deltaKAbs =>
        dsimp only
        cases adlHeadroom (s.sides d).adlCoeff (s.sides d).adlMult deltaKAbs <;> infer_instance

instance : Fixed (shrinkOpposing ctx d oi n k) := by
  dsimp only [shrinkOpposing]
  refine .bind inferInstance fun s => ?_
  split_ifs
  · infer_instance
  · infer_instance
  all_goals
    refine .bind inferInstance ?_
    rintro ⟨candidate, rest⟩
    infer_instance

instance : Fixed (enqueueAdl ctx d n k) := by
  dsimp only [enqueueAdl]
  infer_instance

instance : Fixed (beginFullDrainReset d) := by
  unfold beginFullDrainReset
  infer_instance

instance {b : Bool} : Fixed (clearResidual ctx b n) := by
  unfold clearResidual
  infer_instance

instance : Fixed (clearDust ctx) := by
  dsimp only [clearDust]
  infer_instance

instance : Fixed (scheduleEndOfInstructionResets ctx) := by
  unfold scheduleEndOfInstructionResets
  infer_instance

instance : Fixed (finalizeReadySide d) := by
  unfold finalizeReadySide
  infer_instance

instance : Fixed maybeFinalizeReadyResetSides := by
  unfold maybeFinalizeReadyResetSides
  infer_instance

instance : Fixed (beginPendingReset ctx d) := by
  unfold beginPendingReset
  infer_instance

instance : Fixed (finalizeEndOfInstructionResets ctx) := by
  unfold finalizeEndOfInstructionResets
  infer_instance

instance : Fixed (endOfInstructionResets ctx) := by
  unfold endOfInstructionResets
  infer_instance

instance : Fixed assertPublicPostconditions := by
  unfold assertPublicPostconditions
  infer_instance

instance : Fixed sweepEmptyMarketSurplusToInsurance := by
  unfold sweepEmptyMarketSurplusToInsurance
  infer_instance

end Adl

/-! ### Instructions -/

section Instructions

variable {a b n fee exec hMin hMax : Nat} {q rate x oldA oldB newA newB : Int} {plan : TradePlan}
  {policy : LiquidationPolicy}

instance : Fixed (oiAfter d n oldA newA oldB newB) := by
  unfold oiAfter
  infer_instance

instance : Fixed (bilateralOiAfter oldA newA oldB newB) := by
  unfold bilateralOiAfter
  infer_instance

instance : Fixed (checkPositionCap d oldA newA oldB newB) := by
  dsimp only [checkPositionCap]
  infer_instance

instance : Fixed (planTrade a b price q) := by
  dsimp only [planTrade]
  infer_instance

instance : Fixed (settleTradePnl a b x ctx) := by
  unfold settleTradePnl
  infer_instance

instance : Fixed (attachLegs a b plan) := by
  unfold attachLegs
  infer_instance

instance : Fixed (chargeTradeFee a b fee) := by
  dsimp only [chargeTradeFee]
  infer_instance

instance : Fixed (enforceOneSideMargin i price oldA newA x n rate) := by
  dsimp only [enforceOneSideMargin]
  infer_instance

instance : Fixed (checkLegs a b price plan n fee x) := by
  unfold checkLegs
  infer_instance

/-- A trade moves no tokens and gives up no slot. -/
instance : Fixed (executeTrade a b price now q exec rate hMin hMax) := by
  unfold executeTrade
  refine .bind inferInstance fun _ => .bind inferInstance fun _ => .bind inferInstance fun _ => ?_
  refine .bind inferInstance fun _ => .bind inferInstance fun _ => .bind inferInstance fun _ => ?_
  refine .bind inferInstance fun _ => .bind inferInstance fun s => .bind inferInstance fun _ => ?_
  infer_instance

instance : Fixed (closeAtOracle i x n price) := by
  unfold closeAtOracle
  infer_instance

instance : Fixed (liquidatePartial i price x d n ctx) := by
  dsimp only [liquidatePartial]
  infer_instance

instance : Fixed (liquidateFull i price x d ctx) := by
  dsimp only [liquidateFull]
  infer_instance

instance : Fixed (liquidateAtOracleInternal i price policy ctx) := by
  unfold liquidateAtOracleInternal
  refine .bind inferInstance fun s => ?_
  split_ifs
  · infer_instance
  · refine .bind inferInstance fun _ => .bind inferInstance fun oldEff => ?_
    cases sideOfI128 oldEff with
    | none => infer_instance
    | some d => cases policy <;> infer_instance

instance : Fixed (liquidateAtOracle i now price policy rate hMin hMax) := by
  dsimp only [liquidateAtOracle]
  infer_instance

instance : Fixed (settleAccount i price now rate hMin hMax) := by
  unfold settleAccount
  infer_instance

instance : Fixed (checkLiveSlot now) := by
  unfold checkLiveSlot
  infer_instance

instance : Fixed (vaultAfter s n) := by
  unfold vaultAfter
  infer_instance

instance : Fixed (checkWithdrawMargin i n price) := by
  unfold checkWithdrawMargin
  infer_instance

instance : Fixed (reclaimDust i) := by
  have forgive : Spares Account.owner fun a => a.withFeeCredits (max a.feeCredits 0) := ⟨fun _ => rfl⟩
  dsimp only [reclaimDust]
  infer_instance

end Instructions

end Percolator
