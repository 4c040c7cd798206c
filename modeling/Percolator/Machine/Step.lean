import Percolator.Base.Run
import Percolator.Spec.Market

/-!
The engine as a machine: what one step of an instruction can do.

An instruction of the engine is a sequence of small movements. `Step` lists them,
each with its guard and the state it leaves; the run of every instruction is a
run of such steps, so that an invariant is proved once for each of them. A
configuration is a state of the engine with the phase its instruction is in, and
a scope says what the instruction may do.
-/

namespace Percolator

/-- The phase of an instruction. -/
structure Phase where
  /-- The resets at the end of the instruction are still to come. -/
  dirty : Bool
  /-- The sides whose reset is scheduled. -/
  pending : Side → Bool
  /-- The account, side and quantity of a liquidation whose ADL is still to come. -/
  closing : Option (Nat × Side × Nat)
  /-- The legs of a trade before its margin checks. -/
  trading : List Nat
  /-- The slippage credited to one leg of a trade and not yet debited to the other. -/
  owed : Int
  /-- The accounts touched so far. -/
  touched : List Nat

/-- Between two instructions. -/
def Phase.idle : Phase := ⟨false, fun _ => false, none, [], 0, []⟩

/-- Nothing is left to do. -/
structure Phase.AtRest (ph : Phase) : Prop where
  clean : ph.dirty = false
  pending : ∀ d, ph.pending d = false
  closing : ph.closing = none
  trading : ph.trading = []
  owed : ph.owed = 0

/-- A state of the engine in a phase. -/
structure Conf where
  engine : RiskEngine
  phase : Phase

/-- What an instruction may do. -/
structure Scope where
  /-- The accounts it reaches. -/
  reach : Nat → Prop
  /-- The accounts it may take principal from. -/
  charges : Nat → Prop
  /-- It may liquidate. -/
  liquidates : Prop
  /-- It may admit fresh PnL at horizon zero. -/
  instant : Prop
  /-- It may take or give up slots. -/
  slots : Prop
  /-- It may resolve the market. -/
  resolves : Prop

/-- The accounts differ at most in their kind, owner and fee slot. -/
def Account.SameButLabels (a a' : Account) : Prop :=
  a' = { a with kind := a'.kind, owner := a'.owner, lastFeeSlot := a'.lastFeeSlot }

/-- Where the clocks may move: within the accrual envelope of a Live market, and
to the slot of its resolution in a resolved one. -/
inductive Clocked (s : RiskEngine) (slot market : Nat) : Prop
  | live (mode : s.marketMode = .live) (le : s.currentSlot ≤ slot) (market_le : market ≤ slot)
      (within : slot ≤ saturatingAddU64 market s.params.maxAccrualDtSlots)
  | resolved (mode : s.marketMode = .resolved) (eq : slot = s.resolvedSlot)

/-- The vault of a market without accounts belongs to insurance. -/
def RiskEngine.swept (s : RiskEngine) : RiskEngine :=
  if s.numUsedAccounts = 0 then s.withInsuranceFund s.vault else s

/-- The snapshots of `a` are those of its side: nothing is left to settle. -/
def Account.Synced (a : Account) (sides : Side → SideState) : Prop :=
  ∀ d, sideOfI128 a.positionBasisQ = some d →
    (sides d).indices a.adlEpochSnap = (a.adlKSnap, a.fSnap)

/-- A position of the running epoch that has not shrunk to dust. -/
def Account.Whole (a : Account) (sides : Side → SideState) : Prop :=
  ∀ d, sideOfI128 a.positionBasisQ = some d → a.adlEpochSnap = (sides d).adlEpoch →
    0 < a.positionBasisQ.natAbs * (sides d).adlMult / a.adlABasis

/-- Both legs of a trade of `q` attached, and the open interest `after` that goes with them. -/
structure Traded (s s' : RiskEngine) (a b : Nat) (q oldA oldB : Int) (after : Side → Nat) : Prop where
  ne : a ≠ b
  pos : 0 < q
  effA : effectivePosQ s a = some oldA
  effB : effectivePosQ s b = some oldB
  legs : ∃ s₁ s₂ f g, Attached s s₁ a (oldA + q) f ∧ Attached s₁ s₂ b (oldB - q) g ∧
    s' = s₂.withSides fun d => (s₂.sides d).withOi (after d)
  after_eq : ∀ d, after d + oiComponent d oldA + oiComponent d oldB =
    (s.sides d).oiEffQ + oiComponent d (oldA + q) + oiComponent d (oldB - q)
  after_le : ∀ d, after d ≤ MAX_OI_SIDE_Q
  unblocked : ∀ d, (s.sides d).sideMode ≠ .normal → after d ≤ (s.sides d).oiEffQ

/-- A position on side `d` closed by `q` in a liquidation, before its ADL. -/
structure Closing (s s' : RiskEngine) (i : Nat) (d : Side) (q : Nat) (old new : Int) : Prop where
  eff : effectivePosQ s i = some old
  side : sideOfI128 old = some d
  pos : 0 < q
  split : old.natAbs = new.natAbs + q
  same_side : new = 0 ∨ sideOfI128 new = some d
  attached : ∃ f, Attached s s' i new f

/-- A stale position settled after resolution. -/
structure Reconciled (s s' : RiskEngine) (i : Nat) (d : Side) (v : Int) (t' : Totals) (n m : Nat) :
    Prop where
  side : sideOfI128 (s.accounts i).positionBasisQ = some d
  pnl : PnlSet s i v ((s.accounts i).withPnl v) t'
  matured : s.pnlMaturedPosTot = s.pnlPosTot → t'.pnlMaturedPosTot = t'.pnlPosTot
  stored : n + 1 = (s.sides d).storedPosCount
  stale : m + 1 = (s.sides d).staleAccountCount
  range : I128_MIN < v
  epoch : (s.accounts i).adlEpochSnap + 1 = (s.sides d).adlEpoch
  eq : s' = (s.rebook i ((s.accounts i).withPnl v) t').reseat i ((s.accounts i).withPnl v).flat
    fun e => if e = d then ⟨n, m, (s.sides d).phantomDustBoundQ⟩ else (s.sides e).seats

/-- The positive PnL of an account paid at the ratio of the snapshot. -/
structure SnapshotPaid (s s' : RiskEngine) (i y : Nat) : Prop where
  ready : s.resolvedPayoutReady = true
  pos : 0 < (s.accounts i).pnl
  payout : y = (s.accounts i).posPnl * s.resolvedPayoutHNum / s.resolvedPayoutHDen
  le_tot : (s.accounts i).posPnl ≤ s.pnlPosTot
  le_matured : (s.accounts i).posPnl ≤ s.pnlMaturedPosTot
  eq : s' = s.rebook i (((s.accounts i).withPnl 0).withCapital ((s.accounts i).capital + y))
    { s.totals with
      cTot := s.cTot + y, pnlPosTot := s.pnlPosTot - (s.accounts i).posPnl
      pnlMaturedPosTot := s.pnlMaturedPosTot - (s.accounts i).posPnl }

/-- The engine with the snapshot of the terminal payouts. -/
def RiskEngine.withSnapshot (s : RiskEngine) : RiskEngine :=
  { s with
    pnlMaturedPosTot := s.pnlPosTot, resolvedPayoutHNum := min s.residual s.pnlPosTot
    resolvedPayoutHDen := s.pnlPosTot, resolvedPayoutReady := true }

/-- What one step of an instruction can do. -/
inductive Step (sc : Scope) : Conf → List Event → Conf → Prop
  /-- A touch reaches account `i`. -/
  | noted {s ph} (i : Nat) :
      Step sc ⟨s, ph⟩ [.touched i] ⟨s, { ph with touched := i :: ph.touched }⟩
  /-- Money moves on account `i`. -/
  | booked {s ph i a t l} (used : s.isUsed i = true) (reach : sc.reach i) (entry : Entry s i a t l) :
      Step sc ⟨s, ph⟩ l ⟨s.rebook i a t, ph⟩
  /-- Principal is taken from account `i`. -/
  | charged {s ph i a t} (used : s.isUsed i = true) (reach : sc.reach i)
      (allowed : sc.charges i ∨ ∃ d q, ph.closing = some (i, d, q)) (charge : Charge s i a t) :
      Step sc ⟨s, ph⟩ [] ⟨s.rebook i a t, ph⟩
  /-- The loss of a flat account is written off. -/
  | forgave {s ph i a t l} (used : s.isUsed i = true) (reach : sc.reach i) (calm : ph.trading = [])
      (forgiven : Forgiven s i a t l) : Step sc ⟨s, ph⟩ l ⟨s.rebook i a t, ph⟩
  /-- The kind, the owner or the fee slot of account `i` changes. -/
  | relabeled {s ph i a} (used : s.isUsed i = true) (reach : sc.reach i)
      (same : (s.accounts i).SameButLabels a) (slot : a.lastFeeSlot ≤ s.currentSlot) : Step sc ⟨s, ph⟩ [] ⟨s.setAccount i a, ph⟩
  /-- The vault and insurance move. -/
  | funded {s ph} (amount : Nat) (cap : s.vault + amount ≤ MAX_VAULT_TVL) :
      Step sc ⟨s, ph⟩ []
        ⟨(s.withVault (s.vault + amount)).withInsuranceFund (s.insuranceFund + amount), ph⟩
  /-- Slots move on. -/
  | clocked {s ph} (slot crank market : Nat) (clock : Clocked s slot market) :
      Step sc ⟨s, ph⟩ []
        ⟨{ s with currentSlot := slot, lastCrankSlot := crank, lastMarketSlot := market }, ph⟩
  /-- The market accrues, before the instruction touches an account. -/
  | accrued {s s' ph now price rate} (rest : ph.AtRest) (fresh : ph.touched = []) (live : s.marketMode = .live)
      (fits : now ≤ U64_MAX) (accrued : Accrued s s' now price rate) :
      Step sc ⟨s, ph⟩
        [.accrued (price - s.lastOraclePrice) s.fundPxLast rate (now - s.lastMarketSlot)] ⟨s', ph⟩
  /-- Account `i` settles against its side. -/
  | settled {s s' ph i instant d δ a' t' a'' f} (used : s.isUsed i = true) (reach : sc.reach i)
      (touched : i ∈ ph.touched) (live : s.marketMode = .live) (closing : ph.closing = none)
      (calm : ph.trading = []) (scope : instant → sc.instant)
      (settled : Settled s s' i d instant δ a' t' a'' f) :
      Step sc ⟨s, ph⟩ [] ⟨s', { ph with dirty := true }⟩
  /-- Slippage is booked on a leg of a trade. -/
  | slipped {s ph i instant δ a' t'} (legs : List Nat) (used : s.isUsed i = true) (reach : sc.reach i)
      (allowed : sc.charges i) (live : s.marketMode = .live) (leg : i ∈ legs)
      (same : ph.trading = [] ∨ ph.trading = legs) (scope : instant → sc.instant)
      (range : I128_MIN < (s.accounts i).pnl + δ)
      (pnl : LivePnlSet s i ((s.accounts i).pnl + δ) instant a' t') :
      Step sc ⟨s, ph⟩ []
        ⟨s.rebook i a' t', { ph with trading := legs, owed := ph.owed + δ }⟩
  /-- Both legs of a trade are attached. -/
  | traded {s s' ph a b q oldA oldB after} (usedA : s.isUsed a = true) (usedB : s.isUsed b = true)
      (reachA : sc.reach a) (reachB : sc.reach b) (allowedA : sc.charges a) (allowedB : sc.charges b)
      (touchedA : a ∈ ph.touched) (touchedB : b ∈ ph.touched) (live : s.marketMode = .live)
      (pending : ∀ d, ph.pending d = false) (closing : ph.closing = none)
      (trading : ph.trading = [a, b])
      (syncedA : (s.accounts a).Synced s.sides) (syncedB : (s.accounts b).Synced s.sides)
      (traded : Traded s s' a b q oldA oldB after)
      (capped : ∀ d, (s'.sides d).storedPosCount ≤ s.params.maxActivePositionsPerSide) :
      Step sc ⟨s, ph⟩ [] ⟨s', { ph with dirty := true }⟩
  /-- The checks of a trade passed. -/
  | checked {s ph} (owed : ph.owed = 0)
      (sound : ∀ i ∈ ph.trading, (s.accounts i).positionBasisQ = 0 → 0 ≤ (s.accounts i).pnl) :
      Step sc ⟨s, ph⟩ [] ⟨s, { ph with trading := [] }⟩
  /-- A liquidation closes a position. -/
  | closed {s s' ph i d q old new} (allowed : sc.liquidates) (used : s.isUsed i = true)
      (reach : sc.reach i) (touched : i ∈ ph.touched) (live : s.marketMode = .live)
      (pending : ∀ d, ph.pending d = false) (closing : ph.closing = none) (calm : ph.trading = [])
      (closed : Closing s s' i d q old new) :
      Step sc ⟨s, ph⟩ [] ⟨s', { ph with dirty := true, closing := some (i, d, q) }⟩
  /-- ADL spreads a liquidation. -/
  | deleveraged {s ph i d q v l f} (marks : Side → Bool) (used : s.isUsed i = true) (live : s.marketMode = .live)
      (pending : ∀ d, ph.pending d = false) (closing : ph.closing = some (i, d, q)) (pos : 0 < q)
      (fund : f ≤ s.insuranceFund)
      (absorbed : Absorbed d.opposite (s.sides d.opposite) q v l)
      (marked : ∀ e, marks e = decide (v.oiEffQ = 0)) :
      Step sc ⟨s, ph⟩ l ⟨(s.withInsuranceFund f).absorb d v,
        { ph with closing := none, dirty := true, pending := marks }⟩
  /-- The resets at the end of an instruction. -/
  | reset {s ph oi marks} (live : s.marketMode = .live) (closing : ph.closing = none)
      (scheduled : Scheduled s ph.pending oi marks)
      (drained : ∀ d, (s.sides d).Drains (marks d) → oi d = 0 ∧ (s.sides d).adlEpoch < U64_MAX) :
      Step sc ⟨s, ph⟩ (drainEvents s.sides marks)
        ⟨s.withSides fun d => ((s.sides d).withOi (oi d)).finalized (marks d),
          { ph with dirty := false, pending := fun _ => false }⟩
  /-- Sides that are ready open again. -/
  | reopened {s ph} :
      Step sc ⟨s, ph⟩ [] ⟨s.withSides fun d => (s.sides d).reopened, ph⟩
  /-- A slot is taken. -/
  | materialized {s s' ph i slot} (allowed : sc.slots) (reach : sc.reach i)
      (live : s.marketMode = .live) (le : slot ≤ s.currentSlot)
      (materialized : Materialized s s' i slot) :
      Step sc ⟨s, ph⟩ [] ⟨s', ph⟩
  /-- A slot is given up, and the last one leaves the vault to insurance. -/
  | freed {s s' ph i} (allowed : sc.slots) (reach : sc.reach i) (charges : sc.charges i)
      (clean : ph.dirty = false) (freed : Freed s s' i) : Step sc ⟨s, ph⟩ [] ⟨s'.swept, ph⟩
  /-- The market is resolved. -/
  | resolved {s ph} (price live now : Nat) (kDelta : Side → Int) (allowed : sc.resolves) (rest : ph.AtRest)
      (mode : s.marketMode = .live) (le : s.currentSlot ≤ now)
      (drained : ∀ d, (s.sides d).sideMode ≠ .resetPending → (s.sides d).adlEpoch < U64_MAX) :
      Step sc ⟨s, ph⟩ (drainEvents s.sides fun _ => true)
        ⟨(s.enterResolved price live now kDelta).withSides fun d =>
          ((s.enterResolved price live now kDelta).sides d).finalized true, ph⟩
  /-- The reserve of an account is wiped after resolution. -/
  | wiped {s ph i} (used : s.isUsed i = true) (reach : sc.reach i) (mode : s.marketMode = .resolved) :
      Step sc ⟨s, ph⟩ [] ⟨s.setAccount i (s.accounts i).clearReserve, ph⟩
  /-- A stale position is settled after resolution. -/
  | reconciled {s s' ph i d v t' n m} (used : s.isUsed i = true) (reach : sc.reach i)
      (mode : s.marketMode = .resolved) (reconciled : Reconciled s s' i d v t' n m) :
      Step sc ⟨s, ph⟩ [] ⟨s', ph⟩
  /-- The snapshot of the terminal payouts is taken. -/
  | captured {s ph} (mode : s.marketMode = .resolved) (ready : isTerminalReady s = true)
      (first : s.resolvedPayoutReady = false) (pos : 0 < s.pnlPosTot) :
      Step sc ⟨s, ph⟩ [] ⟨s.withSnapshot, ph⟩
  /-- A terminal payout. -/
  | paid {s s' ph i y} (used : s.isUsed i = true) (reach : sc.reach i) (allowed : sc.charges i)
      (mode : s.marketMode = .resolved) (paid : SnapshotPaid s s' i y) :
      Step sc ⟨s, ph⟩ [] ⟨s', ph⟩

end Percolator
