import Percolator.Machine.Frame
import Percolator.Program.Processor

/-!
The runs of a market under the program: what the handlers make of the engine in the slab,
bounties included, is what the engine's own invariant asks for.
-/

namespace Percolator.Program

open Effect

variable {s s' : RiskEngine} {α : Type} {ts : List Transfer} {l : List Event} {i : Nat}

/-! ### Transactions -/

/-- A market: the engine in the slab, and the balance of the vault's token account. -/
structure Slab where
  engine : RiskEngine
  vaultTokens : Nat

/-- An instruction with its arguments, the signer where it looks one up, and the bytes of the
oracle account where it reads them. -/
inductive Request where
  | deposit (user : Bytes32) (args : DepositArgs)
  | withdraw (user : Bytes32) (args : WithdrawArgs)
  | bootstrapLp (args : BootstrapLpArgs)
  | placeOrder (user : Bytes32) (args : PlaceOrderArgs) (feed : List Byte)
  | liquidate (args : LiquidateArgs) (feed : List Byte)
  | crank (args : CrankArgs)

def Request.process (slot : UInt64) : Request → Handler Unit
  | .deposit user args => processDeposit user args slot
  | .withdraw user args => processWithdraw user args slot
  | .bootstrapLp args => processBootstrapLp args slot
  | .placeOrder user args feed => processPlaceOrder user args feed slot
  | .liquidate args feed => processLiquidate args feed slot
  | .crank args => processCrank args slot

/-- The balance of the vault after transfers, if it covers them. -/
def settleTransfers : List Transfer → Nat → Option Nat
  | [], balance => some balance
  | .toVault x :: ts, balance => settleTransfers ts (balance + x)
  | .fromVault x :: ts, balance => if x ≤ balance then settleTransfers ts (balance - x) else none

/-- The market after an instruction in which every check and every transfer passes. -/
def Request.execute (m : Slab) (request : Request) (slot : UInt64) : Option Slab :=
  match request.process slot m.engine with
  | .ok _ engine ts => (settleTransfers ts m.vaultTokens).map fun vaultTokens => ⟨engine, vaultTokens⟩
  | .fault _ _ => none

/-- One transaction: it commits, or a check or a transfer fails and all of it is rolled back. -/
inductive Transaction : Slab → List (Request × UInt64) → Slab → Prop
  | committed {m m' : Slab} {request : Request} {slot : UInt64} (ok : request.execute m slot = some m') :
      Transaction m [(request, slot)] m'
  | rolledBack {m : Slab} {request : Request} {slot : UInt64} : Transaction m [(request, slot)] m

/-- A market as `InitializeEngine` leaves it. -/
def Initial (m : Slab) : Prop :=
  ∃ (s₀ : RiskEngine) (args : InitializeEngineArgs) (slot : UInt64) (l : List Event),
    validateRiskParams s₀.maxAccounts args.riskParams args.initOraclePrice = .ok () ∧
      initInPlace args.riskParams.intoEngineParams slot.toNat args.initOraclePrice.toNat s₀ = .ok () m.engine l ∧
      m.vaultTokens = 0

/-- The markets that the instructions of the program lead to. -/
def Reachable (m : Slab) : Prop := ∃ m₀ l, Initial m₀ ∧ Run Transaction m₀ l m

/-! ### The engine in the slab -/

/-- The engine keeps its invariant, and its market is Live. -/
structure Sound (s : RiskEngine) : Prop where
  good : Good ⟨s, .idle⟩
  live : s.marketMode = .live

/-- A handler leaves a sound engine of the same market. -/
structure Kept (s s' : RiskEngine) : Prop where
  sound : Sound s'
  same : SameMarket s s'

theorem Sound.kept (h : Sound s) : Kept s s := ⟨h, .refl s⟩

theorem Kept.trans {t : RiskEngine} (h : Kept s s') (h' : Kept s' t) : Kept s t := ⟨h'.sound, h.same.trans h'.same⟩

theorem callEngine_ok {op : Op α} {a : α} (ok : callEngine op s = .ok a s' ts) :
    ts = [] ∧ ∃ l, op s = .ok a s' l := by
  unfold callEngine at ok
  cases run : op s with
  | ok b t l =>
      rw [run] at ok
      obtain ⟨rfl, rfl, rfl⟩ := Outcome.ok.inj ok
      exact ⟨rfl, l, rfl⟩
  | fault f t =>
      rw [run] at ok
      cases ok

/-- A call of the engine by its successes. -/
theorem wp_callEngine {op : Op α} {Q : α → RiskEngine → List Transfer → Prop}
    (h : ∀ a s' l, op s = .ok a s' l → Q a s' ts) : wp (callEngine op) Q (fun _ _ => True) s ts := by
  refine wp_ok ?_
  intro a s' ts' ok
  obtain ⟨rfl, l, run⟩ := callEngine_ok ok
  rw [List.append_nil]
  exact h a s' l run

theorem Sound.ran (ins : Instruction) (h : Sound s) (stays : ¬ ins.scope.resolves) (ok : ins.run s = .ok () s' l) :
    Kept s s' := by
  have same : SameMarket s s' := h.good.committed_sameMarket stays ok
  exact ⟨⟨h.good.performed (.committed ok), same.mode.trans h.live⟩, same⟩

theorem Sound.course {sc : Scope} {ph : Phase} (h : Sound s) (course : Course sc ⟨s, .idle⟩ l s' ph)
    (rest : ph.AtRest) (stays : ¬ sc.resolves) : Kept s s' := by
  have same : SameMarket s s' := course.run.invariant (I := fun c => SameMarket s c.engine)
    (fun _ _ _ same step => same.trans (step.sameMarket stays)) (.refl s)
  exact ⟨⟨Done.good ⟨ph, course, rest⟩, same.mode.trans h.live⟩, same⟩

theorem Sound.books (h : Sound s) : Books s := h.good.books

theorem Sound.timely (h : Sound s) : Timely s := h.good.timely

theorem Sound.reserves (h : Sound s) : Reserves s := h.good.reserves h.live

theorem Sound.positions (h : Sound s) : Positions s .idle := h.good.positions h.live

/-! ### What the program writes itself -/

/-- A deposit leaves its account in use. -/
theorem Sound.deposit_used {amount now : Nat} (h : Sound s) (ok : Percolator.deposit i amount now s = .ok () s' l) :
    s'.isUsed i = true := by
  have done : wp (Percolator.deposit i amount now)
      (fun _ s' l' => Done (.single i False False True) ⟨s, .idle⟩ l' s' ∧ s'.isUsed i = true) Fault.Sound s [] :=
    h.good.deposit_used rfl trivial
  exact (wp_at done ok).2

theorem Sound.paidOut {n : Nat} (h : Sound s) (used : s.isUsed i = true) (le : n ≤ (s.accounts i).capital) :
    Kept s (s.rebook i ((s.accounts i).withCapital ((s.accounts i).capital - n))
      { s.totals with vault := s.vault - n, cTot := s.cTot - n }) := by
  have capital := h.books.capital_le used
  have backed := h.books.backed
  have charge : Charge s i ((s.accounts i).withCapital ((s.accounts i).capital - n))
      { s.totals with vault := s.vault - n, cTot := s.cTot - n } := .paidOut n le (by omega) (by omega)
  have course := (Course.start (.single i True False False) h.good).quiet (.charged used rfl (.inl ⟨rfl, trivial⟩) charge)
  exact h.course course Phase.idle_atRest id

/-- Insurance leaves the vault. -/
theorem Sound.drawn {n : Nat} (h : Sound s) (le : n ≤ s.insuranceFund) :
    Kept s ((s.withInsuranceFund (s.insuranceFund - n)).withVault (s.vault - n)) := by
  have books := h.books
  have timely := h.timely
  have backed := books.backed
  have good : Good ⟨(s.withInsuranceFund (s.insuranceFund - n)).withVault (s.vault - n), .idle⟩ := by
    refine ⟨⟨books.cTot, books.pos, books.neg, books.stored, books.numUsed, books.materialized, books.fee, books.pnl,
      books.capacity, ?_, ?_, ?_⟩, ⟨timely.market_le, timely.within, timely.resolved, timely.fee, timely.started,
      timely.price_pos, timely.price_le, timely.sampled, timely.params⟩, h.good.balanced, fun _ => ?_, fun _ => ?_, ?_⟩
    · intro none
      have all := books.retired none
      show s.insuranceFund - n = s.vault - n
      rw [all]
    · show s.cTot + (s.insuranceFund - n) ≤ s.vault - n
      omega
    · exact (Nat.sub_le _ _).trans books.vault_le
    · exact ⟨h.reserves.shape, h.reserves.matured⟩
    · exact ⟨h.positions.side, h.positions.position, h.positions.cover, h.positions.pending, h.positions.quiet⟩
    · intro resolved
      exact absurd (h.live.symm.trans resolved) (by rintro ⟨⟩)
  exact ⟨⟨good, h.live⟩, rfl, rfl, rfl⟩

theorem Sound.withGcCursor {n : Nat} (h : Sound s) : Kept s { s with gcCursor := n } := by
  have books := h.books
  have timely := h.timely
  have good : Good ⟨{ s with gcCursor := n }, .idle⟩ := by
    refine ⟨⟨books.cTot, books.pos, books.neg, books.stored, books.numUsed, books.materialized, books.fee, books.pnl,
      books.capacity, books.retired, books.backed, books.vault_le⟩, ⟨timely.market_le, timely.within, timely.resolved,
      timely.fee, timely.started, timely.price_pos, timely.price_le, timely.sampled, timely.params⟩, h.good.balanced,
      fun _ => ?_, fun _ => ?_, ?_⟩
    · exact ⟨h.reserves.shape, h.reserves.matured⟩
    · exact ⟨h.positions.side, h.positions.position, h.positions.cover, h.positions.pending, h.positions.quiet⟩
    · intro resolved
      exact absurd (h.live.symm.trans resolved) (by rintro ⟨⟩)
  exact ⟨⟨good, h.live⟩, rfl, rfl, rfl⟩

theorem Sound.crankSlot (h : Sound s) : Kept s { s with lastCrankSlot := s.currentSlot } := by
  have timely := h.timely
  have clock : Clocked s s.currentSlot s.lastMarketSlot :=
    .live h.live le_rfl (timely.market_le h.live) (timely.within h.live)
  have course := (Course.start .none h.good).quiet (.clocked s.currentSlot s.currentSlot s.lastMarketSlot clock)
  exact h.course course Phase.idle_atRest id

theorem Sound.labeled (h : Sound s) (used : s.isUsed i = true) :
    Kept s (s.setAccount i (Account.asLp (s.accounts i))) := by
  have timely := h.timely
  have same : (s.accounts i).SameButLabels (Account.asLp (s.accounts i)) := rfl
  have course := (Course.start (.single i False False False) h.good).quiet
    (.relabeled used rfl same (timely.fee i used))
  exact h.course course Phase.idle_atRest id

/-! ### The handlers -/

variable {slot : UInt64} {user : Bytes32} {feed : List Byte}

theorem Sound.processDeposit {args : DepositArgs} (h : Sound s) :
    wp (processDeposit user args slot) (fun _ s' _ => Kept s s') (fun _ _ => True) s [] := by
  simp only [Program.processDeposit, reject, wp_bind, wp_failIf, implies_true, true_and]
  intro _
  have looked : wp (depositSlot user) (fun _ s' _ => s' = s) (fun _ _ => True) s [] := by
    simp only [depositSlot, reject, wp_bind, wp_read]
    cases findOwner s user with
    | none => simp only [wp_bind, wp_failIf, wp_pure, implies_true, and_true]
    | some i => simp only [wp_pure]
  refine wp_mono looked ?_ fun _ _ _ => trivial
  rintro ⟨i, fresh⟩ s₀ ts same
  simp only [wp_whenever, wp_emit]
  rw [same]
  refine wp_callEngine fun _ s₁ l₁ ok => ?_
  have first : Kept s s₁ := h.ran (.deposit i args.amount.toNat slot) id ok
  refine ⟨fun _ => ?_, fun _ => first⟩
  refine wp_callEngine fun _ s₂ l₂ ok₂ => ?_
  exact first.trans (first.sound.ran (.setOwner i user) id ok₂)

theorem Sound.processWithdraw {args : WithdrawArgs} (h : Sound s) :
    wp (processWithdraw user args slot) (fun _ s' _ => Kept s s') (fun _ _ => True) s [] := by
  simp only [Program.processWithdraw, reject, okOr, wp_bind, wp_failIf, wp_read, wp_demand, wp_emit, implies_true,
    true_and]
  intro _ i _
  refine wp_callEngine fun _ s₁ l₁ ok => ?_
  exact h.ran (.withdraw i args.amount.toNat s.lastOraclePrice slot 0 s.params.hMin s.params.hMax) id ok

theorem Sound.processBootstrapLp {args : BootstrapLpArgs} (h : Sound s) :
    wp (processBootstrapLp args slot) (fun _ s' _ => Kept s s') (fun _ _ => True) s [] := by
  simp only [Program.processBootstrapLp, reject, wp_bind, wp_failIf, wp_read, wp_update, wp_emit, implies_true,
    true_and]
  intro _ _ _
  refine wp_callEngine fun _ s₁ l₁ ok => ?_
  have first : Kept s s₁ := h.ran (.deposit PROTOCOL_LP_SLOT args.amount.toNat slot) id ok
  exact first.trans (first.sound.labeled (h.deposit_used ok))

theorem wp_oraclePrice {Q : Nat → RiskEngine → List Transfer → Prop} (h : ∀ price, Q price s ts) :
    wp (oraclePrice feed slot) Q (fun _ _ => True) s ts := by
  unfold oraclePrice
  cases readOraclePrice feed slot.toNat with
  | error e => simp only [wp_fail]
  | ok price => exact wp_pure.mpr (h price)

theorem Sound.processPlaceOrder {args : PlaceOrderArgs} (h : Sound s) :
    wp (processPlaceOrder user args feed slot) (fun _ s' _ => Kept s s') (fun _ _ => True) s [] := by
  simp only [Program.processPlaceOrder, sideModeGate, reject, okOr, wp_bind, wp_failIf, implies_true, true_and]
  intro _ _ _
  refine wp_oraclePrice fun price => ?_
  simp only [wp_read, wp_demand, implies_true, true_and]
  intro _ i _ _ cur _ _
  refine wp_callEngine fun _ s₁ l₁ ok => ?_
  exact h.ran (.executeTrade (tradeParties args.userSide i).1 (tradeParties args.userSide i).2 price slot
    args.size.toNat price 0 s.params.hMin s.params.hMax) id ok

/-- The bounty of a liquidation. -/
theorem Sound.payLiquidationBounty {b : Nat} (h : Sound s) (used : s.isUsed i = true)
    (le : b ≤ (s.accounts i).capital) :
    wp (Program.payLiquidationBounty i b) (fun _ s' _ => Kept s s') (fun _ _ => True) s ts := by
  simp only [Program.payLiquidationBounty, okOr, wp_bind, wp_read, wp_update, wp_demand, implies_true, true_and]
  intro newCTot hc newV hv
  have cTot := checkedSub_eq hc
  have vault : s.vault = newV + b := checkedSub_eq hv
  have paid := h.paidOut used le
  rw [show newCTot = s.cTot - b from by omega, show newV = s.vault - b from by omega]
  exact paid

theorem Sound.processLiquidate {args : LiquidateArgs} (h : Sound s) :
    wp (processLiquidate args feed slot) (fun _ s' _ => Kept s s') (fun _ _ => True) s [] := by
  simp only [Program.processLiquidate, reject, wp_bind, wp_read, wp_failIf, implies_true, true_and]
  intro _ _
  refine wp_oraclePrice fun price => ?_
  simp only [Bool.not_eq_false]
  intro used
  refine wp_callEngine fun did s₁ l₁ ok => ?_
  set victim := args.victimSlot.toNat
  set ins : Instruction := .liquidateAtOracle victim slot price .fullClose 0 s.params.hMin s.params.hMax
  have ran : ins.run s = .ok () s₁ (l₁ ++ []) := bind_eq_ok.mpr ⟨did, s₁, l₁, [], ok, rfl, rfl⟩
  have first : Kept s s₁ := h.ran ins id ran
  obtain ⟨ph, course, -⟩ := h.good.committed ran
  have stays : s₁.isUsed victim = true := course.run.stays_used id used
  intro _
  have le : min (saturatingMulU128 (s.accounts victim).capital LIQ_BOUNTY_BPS / 10000) (s₁.accounts victim).capital ≤
      (s₁.accounts victim).capital := min_le_right _ _
  simp only [wp_whenever, wp_emit]
  constructor
  · intro paid
    refine wp_mono (first.sound.payLiquidationBounty stays le) ?_ fun _ _ _ => trivial
    intro _ s₂ _ second
    exact ⟨fun _ => first.trans second, fun _ => first.trans second⟩
  · intro unpaid
    exact ⟨fun _ => first, fun _ => first⟩

theorem Sound.crankFunding (h : Sound s) :
    wp (Program.crankFunding slot) (fun _ s' _ => Kept s s') (fun _ _ => True) s [] := by
  simp only [Program.crankFunding, reject, wp_bind, wp_read, wp_failIf, wp_update, implies_true, true_and]
  intro _
  refine wp_callEngine fun _ s₁ l₁ ok => ?_
  have first : Kept s s₁ := h.ran (.accrueMarketTo slot s.lastOraclePrice 0) id ok
  have second := first.sound.crankSlot
  have clock : s₁.currentSlot = slot.toNat := by
    obtain ⟨-, ⟨-, -, -, rfl⟩ | ⟨-, accrued⟩⟩ := accrueMarketTo_spec (mapFault_eq_ok.mp ok)
    · rfl
    · rw [accrued.eq]
  have same : { s₁ with currentSlot := slot.toNat, lastCrankSlot := slot.toNat } =
      { s₁ with lastCrankSlot := s₁.currentSlot } := by rw [clock]
  rw [same]
  exact first.trans second

/-- One turn of the scan: it moves the cursor, and reclaims the slot it comes to or leaves the engine alone. -/
theorem Sound.gcTurn_cases {maxAccounts : Nat} {g g' : GcScan} (h : Sound g.engine)
    (turn : gcTurn maxAccounts slot.toNat g = some g') : g'.cursor = (g.cursor + 1) % max maxAccounts 1 ∧
      (g'.engine = g.engine ∧ g'.reclaimed = g.reclaimed ∨
        g'.cursor ≠ PROTOCOL_LP_SLOT ∧ gcEligible g.engine g'.cursor ∧ g'.reclaimed = g.reclaimed + 1 ∧
          ∃ l, reclaimEmptyAccount g'.cursor slot.toNat g.engine = .ok () g'.engine l) := by
  unfold Program.gcTurn at turn
  set cursor := (g.cursor + 1) % max maxAccounts 1
  by_cases lp : cursor = PROTOCOL_LP_SLOT
  · rw [if_pos lp] at turn
    cases turn
    exact ⟨rfl, .inl ⟨rfl, rfl⟩⟩
  by_cases eligible : gcEligible g.engine cursor
  · rw [if_neg lp, if_neg (not_not.mpr eligible)] at turn
    cases run : reclaimEmptyAccount cursor slot.toNat g.engine with
    | ok _ engine l =>
        rw [run] at turn
        cases turn
        exact ⟨rfl, .inr ⟨lp, eligible, rfl, l, run⟩⟩
    | fault f engine =>
        rw [run] at turn
        by_cases fatal : f.riskError = none
        · simp only [if_pos fatal] at turn
          cases turn
        · have same : engine = g.engine := wp_sound_fault run (reclaim_untouched h.good eligible) fatal
          simp only [if_neg fatal, same] at turn
          cases turn
          exact ⟨rfl, .inl ⟨rfl, rfl⟩⟩
  · rw [if_neg lp, if_pos eligible] at turn
    cases turn
    exact ⟨rfl, .inl ⟨rfl, rfl⟩⟩

/-- What every reclaim of an eligible slot keeps, the scan keeps. -/
theorem Sound.gcLoop {maxAccounts : Nat} {I : RiskEngine → Prop}
    (reclaim : ∀ e e' i l, Sound e → I e → i ≠ PROTOCOL_LP_SLOT → gcEligible e i →
      reclaimEmptyAccount i slot.toNat e = .ok () e' l → I e') (n : Nat) {g g' : GcScan} (h : Sound g.engine)
    (holds : I g.engine) (scan : gcLoop maxAccounts slot.toNat n g = some g') :
    Kept g.engine g'.engine ∧ I g'.engine := by
  induction n generalizing g with
  | zero =>
      cases scan
      exact ⟨h.kept, holds⟩
  | succ n ih =>
      obtain ⟨g₁, turn, rest⟩ := Option.bind_eq_some_iff.mp scan
      obtain ⟨-, ⟨same, -⟩ | ⟨lp, eligible, -, l, ok⟩⟩ := h.gcTurn_cases turn
      · have further := ih (same ▸ h) (same ▸ holds) rest
        rw [same] at further
        exact further
      · have first : Kept g.engine g₁.engine := h.ran (.reclaimEmptyAccount g₁.cursor slot) id ok
        obtain ⟨kept, held⟩ := ih first.sound (reclaim _ _ _ _ h holds lp eligible ok) rest
        exact ⟨first.trans kept, held⟩

/-- A `Gc` crank that did work ends with what its scan leaves. -/
theorem crankGc_ok (ok : Program.crankGc slot s = .ok () s' ts) : ts = [] ∧
    ∃ g, Program.gcLoop s.params.maxAccounts slot.toNat (min GC_CLOSE_BUDGET s.params.maxAccounts) ⟨s, s.gcCursor, 0⟩ =
      some g ∧ g.reclaimed ≠ 0 ∧ s' = { g.engine with gcCursor := g.cursor } := by
  unfold Program.crankGc processCrankGc at ok
  cases scan : Program.gcLoop s.params.maxAccounts slot.toNat (min GC_CLOSE_BUDGET s.params.maxAccounts) ⟨s, s.gcCursor, 0⟩ with
  | none =>
      rw [scan] at ok
      cases ok
  | some g =>
      rw [scan] at ok
      by_cases none : g.reclaimed = 0
      · simp only [if_pos none] at ok
        cases ok
      · simp only [if_neg none] at ok
        cases ok
        exact ⟨rfl, g, rfl, none, rfl⟩

theorem Sound.crankGc (h : Sound s) :
    wp (Program.crankGc slot) (fun _ s' _ => Kept s s') (fun _ _ => True) s [] := by
  refine wp_ok fun _ s' _ ok => ?_
  obtain ⟨-, g, scan, -, rfl⟩ := crankGc_ok ok
  obtain ⟨kept, -⟩ := h.gcLoop (I := fun _ => True) (fun _ _ _ _ _ _ _ _ _ => trivial) _ trivial scan
  exact kept.trans kept.sound.withGcCursor

theorem Sound.crankAdlReset (h : Sound s) :
    wp (Program.crankAdlReset slot) (fun _ s' _ => Kept s s') (fun _ _ => True) s [] := by
  simp only [Program.crankAdlReset, reject, okOr, wp_bind, wp_read, wp_demand, wp_failIf, implies_true, true_and]
  intro anchor _
  refine wp_callEngine fun _ s₁ l₁ ok => ?_
  intro _
  exact h.ran (.settleAccount anchor s.lastOraclePrice slot 0 s.params.hMin s.params.hMax) id ok

theorem Sound.payCrankBounty (h : Sound s) :
    wp Program.payCrankBounty (fun _ s' _ => Kept s s') (fun _ _ => True) s ts := by
  simp only [Program.payCrankBounty, okOr, wp_bind, wp_read, wp_whenever, wp_update, wp_demand, wp_emit, implies_true,
    true_and]
  set pay := min (s.insuranceFund - s.params.insuranceFloor) CRANK_BOUNTY
  have le : pay ≤ s.insuranceFund := (min_le_left _ _).trans (Nat.sub_le _ _)
  constructor
  · intro _ newV hv
    have vault : s.vault = newV + pay := checkedSub_eq hv
    have drawn := h.drawn le
    rw [show s.vault - pay = newV from by omega] at drawn
    exact ⟨fun _ => drawn, fun _ => drawn⟩
  · intro _
    exact ⟨fun _ => h.kept, fun _ => h.kept⟩

/-- The bounty after work that keeps the market. -/
theorem Sound.worked {m : Handler Unit} (work : wp m (fun _ s' _ => Kept s s') (fun _ _ => True) s []) :
    wp (m >>= fun _ => Program.payCrankBounty) (fun _ s' _ => Kept s s') (fun _ _ => True) s [] := by
  rw [wp_bind]
  refine wp_mono work ?_ fun _ _ _ => trivial
  intro _ s₁ _ first
  exact wp_mono first.sound.payCrankBounty (fun _ _ _ second => first.trans second) fun _ _ _ => trivial

theorem Sound.processCrank {args : CrankArgs} (h : Sound s) :
    wp (processCrank args slot) (fun _ s' _ => Kept s s') (fun _ _ => True) s [] := by
  unfold Program.processCrank okOr
  rw [wp_bind, wp_demand]
  refine ⟨fun _ => trivial, ?_⟩
  intro kind _
  cases kind with
  | funding => exact Sound.worked h.crankFunding
  | gc => exact Sound.worked h.crankGc
  | adlReset => exact Sound.worked h.crankAdlReset

/-! ### Every reachable market -/

theorem Sound.process (h : Sound s) (request : Request) :
    wp (request.process slot) (fun _ s' _ => Kept s s') (fun _ _ => True) s [] := by
  cases request with
  | deposit user args => exact h.processDeposit
  | withdraw user args => exact h.processWithdraw
  | bootstrapLp args => exact h.processBootstrapLp
  | placeOrder user args feed => exact h.processPlaceOrder
  | liquidate args feed => exact h.processLiquidate
  | crank args => exact h.processCrank

theorem Initial.sound {m : Slab} (h : Initial m) : Sound m.engine := by
  obtain ⟨s₀, args, slot, l, -, ok, -⟩ := h
  have good : Good ⟨m.engine, .idle⟩ := Percolator.Initial.good ⟨s₀, _, slot, _, l, ok⟩
  refine ⟨good, ?_⟩
  rw [(initInPlace_spec ok).2.2.2]
  rfl

theorem Transaction.kept {m m' : Slab} {ls : List (Request × UInt64)} (h : Sound m.engine)
    (t : Transaction m ls m') : Kept m.engine m'.engine := by
  cases t with
  | rolledBack => exact h.kept
  | @committed _ request slot ok =>
      unfold Request.execute at ok
      cases run : request.process slot m.engine with
      | fault f engine =>
          rw [run] at ok
          cases ok
      | ok _ engine ts =>
          rw [run] at ok
          obtain ⟨vaultTokens, -, rfl⟩ := Option.map_eq_some_iff.mp ok
          exact wp_at (h.process request) run

/-- The engine of a reachable market keeps its invariant, and its market is Live. -/
theorem Reachable.sound {m : Slab} (h : Reachable m) : Sound m.engine := by
  obtain ⟨m₀, l, initial, run⟩ := h
  exact run.invariant (I := fun m => Sound m.engine) (fun _ _ _ sound t => (Transaction.kept sound t).sound)
    initial.sound

/-! ### Markets to run -/

/-- Send an instruction; it is rolled back where it fails. -/
def Request.send (m : Slab) (request : Request) (slot : UInt64) : Slab := (request.execute m slot).getD m

/-- Send instructions in order. -/
def sendAll (m : Slab) : List (Request × UInt64) → Slab
  | [] => m
  | (request, slot) :: rest => sendAll (request.send m slot) rest

theorem Request.sent (m : Slab) (request : Request) (slot : UInt64) :
    Transaction m [(request, slot)] (request.send m slot) := by
  unfold Request.send
  cases run : request.execute m slot with
  | none => exact .rolledBack
  | some m' => exact .committed run

theorem Reachable.sendAll {m : Slab} (h : Reachable m) (requests : List (Request × UInt64)) :
    Reachable (Program.sendAll m requests) := by
  induction requests generalizing m with
  | nil => exact h
  | cons head rest ih =>
      obtain ⟨m₀, l, initial, run⟩ := h
      exact ih ⟨m₀, _, initial, run.tail (Request.sent m head.1 head.2)⟩

def sampleArgs : RiskParamsArgs where
  maintenanceMarginBps := 500
  initialMarginBps := 1000
  tradingFeeBps := 10
  maxAccounts := 4
  maxCrankStalenessSlots := 100
  liquidationFeeBps := 50
  liquidationFeeCap := 1000000
  minLiquidationAbs := 0
  minInitialDeposit := 100
  minNonzeroMmReq := 10
  minNonzeroImReq := 20
  insuranceFloor := 0
  hMin := 10
  hMax := 100
  resolvePriceDeviationBps := 1000
  maxAccrualDtSlots := 100
  maxAbsFundingE9PerSlot := 0
  minFundingLifetimeSlots := 1000
  maxActivePositionsPerSide := 4

/-- A new market on four slots, at slot 100 and price 1000. -/
def sampleSlab : Slab := ⟨freshEngine 4 sampleArgs.intoEngineParams 100 1000, 0⟩

theorem sampleSlab_reachable : Reachable sampleSlab :=
  ⟨_, _, ⟨freshEngine 4 sampleArgs.intoEngineParams 100 1000, ⟨sampleArgs, 1000⟩, 100, [], rfl, rfl, rfl⟩, .refl _⟩

/-- A feed account that quotes `price` at `slot`. -/
def quote (price slot : Oracle.U64) : List Byte :=
  Oracle.Feed.layout.write
    { priceLamportsPerToken := price, lastUpdateSlot := slot, mint := 0, source := 0, sourceKind := 0, graduated := 0,
      initialized := 1, ringIdx := 0, pad := 0, ringBuffer := fun _ => 0 }

/-- A short is liquidated, which closes the long of the counterparty too; then another user deposits. -/
def drainedSlab : Slab :=
  sendAll sampleSlab
    [(.bootstrapLp ⟨1000000⟩, 101), (.deposit 1 ⟨100000⟩, 101), (.placeOrder 1 ⟨1, 50000000, 2000, 0⟩ (quote 1000 101), 101),
      (.liquidate ⟨1⟩ (quote 2900 102), 102), (.deposit 2 ⟨100000⟩, 102)]

theorem drainedSlab_reachable : Reachable drainedSlab := sampleSlab_reachable.sendAll _

end Percolator.Program
