import Percolator.Base.Run
import Percolator.Engine.Resolution

/-!
The public operations of the engine as one type, and the histories they make: an
operation commits, or it is rolled back by its caller.
-/

namespace Percolator

open Effect

/-- A public operation with its arguments. Slots are `u64`; the other arguments
are checked by the operations themselves. -/
inductive Instruction where
  | setOwner (idx : Nat) (owner : Bytes32)
  | deposit (idx amount : Nat) (nowSlot : UInt64)
  | withdraw (idx amount oraclePrice : Nat) (nowSlot : UInt64) (fundingRateE9 : Int)
      (admitHMin admitHMax : Nat)
  | settleAccount (idx oraclePrice : Nat) (nowSlot : UInt64) (fundingRateE9 : Int)
      (admitHMin admitHMax : Nat)
  | executeTrade (a b oraclePrice : Nat) (nowSlot : UInt64) (sizeQ : Int) (execPrice : Nat)
      (fundingRateE9 : Int) (admitHMin admitHMax : Nat)
  | liquidateAtOracle (idx : Nat) (nowSlot : UInt64) (oraclePrice : Nat) (policy : LiquidationPolicy)
      (fundingRateE9 : Int) (admitHMin admitHMax : Nat)
  | keeperCrank (nowSlot : UInt64) (oraclePrice : Nat)
      (orderedCandidates : List (Nat × Option LiquidationPolicy)) (maxRevalidations : Nat)
      (fundingRateE9 : Int) (admitHMin admitHMax : Nat)
  | convertReleasedPnl (idx xReq oraclePrice : Nat) (nowSlot : UInt64) (fundingRateE9 : Int)
      (admitHMin admitHMax : Nat)
  | closeAccount (idx : Nat) (nowSlot : UInt64) (oraclePrice : Nat) (fundingRateE9 : Int)
      (admitHMin admitHMax : Nat)
  | resolveMarket (resolveMode : ResolveMode) (resolvedPrice liveOraclePrice : Nat)
      (nowSlot : UInt64) (fundingRateE9 : Int)
  | forceCloseResolved (idx : Nat)
  | reconcileResolved (idx : Nat)
  | closeResolvedTerminal (idx : Nat)
  | reclaimEmptyAccount (idx : Nat) (nowSlot : UInt64)
  | topUpInsuranceFund (amount : Nat) (nowSlot : UInt64)
  | chargeAccountFee (idx feeAbs : Nat) (nowSlot : UInt64)
  | settleFlatNegativePnl (idx : Nat) (nowSlot : UInt64)
  | syncAccountFee (idx : Nat) (nowSlot : UInt64) (feeRatePerSlot : Nat)
  | depositFeeCredits (idx amount : Nat) (nowSlot : UInt64)
  | accrueMarketTo (nowSlot : UInt64) (oraclePrice : Nat) (fundingRateE9 : Int)

/-- Forget the result of an operation. -/
def discard {α : Type} (m : Op α) : Op Unit := do
  let _ ← m

/-- The operation itself. -/
def Instruction.run : Instruction → Op Unit
  | .setOwner idx owner => Percolator.setOwner idx owner
  | .deposit idx amount now => Percolator.deposit idx amount now.toNat
  | .withdraw idx amount price now rate hMin hMax =>
      Percolator.withdraw idx amount price now.toNat rate hMin hMax
  | .settleAccount idx price now rate hMin hMax =>
      Percolator.settleAccount idx price now.toNat rate hMin hMax
  | .executeTrade a b price now sizeQ exec rate hMin hMax =>
      Percolator.executeTrade a b price now.toNat sizeQ exec rate hMin hMax
  | .liquidateAtOracle idx now price policy rate hMin hMax =>
      discard (Percolator.liquidateAtOracle idx now.toNat price policy rate hMin hMax)
  | .keeperCrank now price candidates budget rate hMin hMax =>
      discard (Percolator.keeperCrank now.toNat price candidates budget rate hMin hMax)
  | .convertReleasedPnl idx xReq price now rate hMin hMax =>
      Percolator.convertReleasedPnl idx xReq price now.toNat rate hMin hMax
  | .closeAccount idx now price rate hMin hMax =>
      discard (Percolator.closeAccount idx now.toNat price rate hMin hMax)
  | .resolveMarket mode resolved live now rate =>
      Percolator.resolveMarket mode resolved live now.toNat rate
  | .forceCloseResolved idx => discard (Percolator.forceCloseResolved idx)
  | .reconcileResolved idx => Percolator.reconcileResolved idx
  | .closeResolvedTerminal idx => discard (Percolator.closeResolvedTerminal idx)
  | .reclaimEmptyAccount idx now => Percolator.reclaimEmptyAccount idx now.toNat
  | .topUpInsuranceFund amount now => discard (Percolator.topUpInsuranceFund amount now.toNat)
  | .chargeAccountFee idx fee now => Percolator.chargeAccountFee idx fee now.toNat
  | .settleFlatNegativePnl idx now => Percolator.settleFlatNegativePnl idx now.toNat
  | .syncAccountFee idx now rate => Percolator.syncAccountFee idx now.toNat rate
  | .depositFeeCredits idx amount now => Percolator.depositFeeCredits idx amount now.toNat
  | .accrueMarketTo now price rate => liftM (Percolator.accrueMarketTo now.toNat price rate)

/-- One operation of a history, with its events: it commits, or its caller rolls it back. -/
inductive Performed (s : RiskEngine) : List (Instruction × List Event) → RiskEngine → Prop
  | committed {ins : Instruction} {s' : RiskEngine} {l : List Event} (ok : ins.run s = .ok () s' l) :
      Performed s [(ins, l)] s'
  | rolledBack {ins : Instruction} {f : Fault} {s' : RiskEngine} (fault : ins.run s = .fault f s') :
      Performed s [(ins, [])] s

/-- A finite sequence of operations. -/
def History : RiskEngine → List (Instruction × List Event) → RiskEngine → Prop := Run Performed

/-- A market as `init_in_place` leaves it, with its parameters checked. -/
def Initial (s : RiskEngine) : Prop :=
  ∃ (s₀ : RiskEngine) (p : RiskParams) (initSlot : UInt64) (initOraclePrice : Nat) (l : List Event),
    initInPlace p initSlot.toNat initOraclePrice s₀ = .ok () s l

/-- The states that a market can reach. -/
def Reachable (s : RiskEngine) : Prop := ∃ s₀ l, Initial s₀ ∧ History s₀ l s

/-! ### Performing operations -/

/-- Perform an operation, and roll it back when it faults. -/
def Instruction.perform (ins : Instruction) (s : RiskEngine) : RiskEngine :=
  match ins.run s with
  | .ok _ s' _ => s'
  | .fault _ _ => s

theorem Instruction.performed (ins : Instruction) (s : RiskEngine) :
    Performed s [(ins, (ins.run s).events)] (ins.perform s) := by
  unfold Instruction.perform
  cases h : ins.run s with
  | ok _ s' l => exact .committed h
  | fault f s' => exact .rolledBack h

theorem Instruction.run_eq_ok {ins : Instruction} {s : RiskEngine} (h : (ins.run s).ended = true) :
    ins.run s = .ok () (ins.perform s) (ins.run s).events := by
  unfold Instruction.perform
  cases ran : ins.run s with
  | ok _ s' l => rfl
  | fault f s' =>
      rw [ran] at h
      cases h

/-- Perform a list of operations in order. -/
def performAll (s : RiskEngine) : List Instruction → RiskEngine
  | [] => s
  | ins :: rest => performAll (ins.perform s) rest

/-- The operations of a list with their events, performed in order. -/
def logAll (s : RiskEngine) : List Instruction → List (Instruction × List Event)
  | [] => []
  | ins :: rest => (ins, (ins.run s).events) :: logAll (ins.perform s) rest

theorem performAll_history (s : RiskEngine) (inss : List Instruction) :
    History s (logAll s inss) (performAll s inss) := by
  induction inss generalizing s with
  | nil => exact .refl s
  | cons ins rest ih => exact (Run.single (ins.performed s)).trans (ih (ins.perform s))

theorem Reachable.performed {s s' : RiskEngine} {l : List (Instruction × List Event)} (h : Reachable s)
    (hp : Performed s l s') : Reachable s' := by
  obtain ⟨s₀, l₀, initial, history⟩ := h
  exact ⟨s₀, _, initial, history.tail hp⟩

theorem Reachable.history {s s' : RiskEngine} {l : List (Instruction × List Event)} (h : Reachable s)
    (hist : History s l s') : Reachable s' :=
  hist.invariant (fun _ _ _ hs hp => hs.performed hp) h

theorem Reachable.performAll {s : RiskEngine} (h : Reachable s) (inss : List Instruction) :
    Reachable (performAll s inss) := h.history (performAll_history s inss)

/-! ### A market to run -/

def sampleParams : RiskParams where
  maintenanceMarginBps := 500
  initialMarginBps := 1000
  tradingFeeBps := 10
  maxAccounts := 4
  maxCrankStalenessSlots := 100
  liquidationFeeBps := 50
  liquidationFeeCap := 1000000
  minLiquidationAbs := 0
  minInitialDeposit := 100
  minNonzeroMmReq := 10
  minNonzeroImReq := 20
  insuranceFloor := 0
  hMin := 10
  hMax := 100
  resolvePriceDeviationBps := 1000
  maxAccrualDtSlots := 100
  maxAbsFundingE9PerSlot := 0
  minFundingLifetimeSlots := 1000
  maxActivePositionsPerSide := 4

/-- A new market on four slots, at slot 100 and price 1000. -/
def sampleMarket : RiskEngine := freshEngine 4 sampleParams 100 1000

theorem sampleMarket_initial : Initial sampleMarket :=
  ⟨sampleMarket, sampleParams, 100, 1000, [], rfl⟩

theorem sampleMarket_reachable : Reachable sampleMarket := ⟨_, _, sampleMarket_initial, .refl _⟩

/-- Two accounts with 100000 each that hold 50 units against each other. -/
def tradedMarket : RiskEngine :=
  performAll sampleMarket
    [.deposit 1 100000 101, .deposit 2 100000 101,
      .executeTrade 1 2 1000 101 50000000 1000 0 10 100]

theorem tradedMarket_reachable : Reachable tradedMarket := sampleMarket_reachable.performAll _

end Percolator
