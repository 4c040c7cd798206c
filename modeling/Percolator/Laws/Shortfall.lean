import Percolator.Laws.Haircut
import Percolator.Machine.Frame

/-!
Admission never makes a haircut.

The matured claims that the residual does not cover grow by no more than the linear schedule releases:
whatever else an operation does takes from the residual at most what it takes from the claims, and
what is admitted at once is admitted within the residual.
-/

namespace Percolator

variable {s s' : RiskEngine} {ins : Instruction} {sc : Scope} {c c' : Conf} {a' : Account} {t' : Totals} {l : List Event} {i : Nat} {v : Int}
  {instant : Prop}

/-- The matured claims that the residual does not cover. -/
def Totals.shortfall (t : Totals) : Nat := t.pnlMaturedPosTot - (t.vault - (t.cTot + t.insuranceFund))

/-- What an event says the linear schedule released. -/
def Event.scheduled : Event → Nat
  | .released _ amount => amount
  | _ => 0

/-! ### One step -/

/-- Money on an account in and out adds at most a scheduled release to the shortfall. -/
theorem Entry.shortfall_le (h : Entry s i a' t' l) (backed : s.cTot + s.insuranceFund ≤ s.vault) :
    t'.shortfall ≤ s.totals.shortfall + (l.map Event.scheduled).sum := by
  unfold Totals.shortfall
  cases h with
  | deposited | debtPaid | lossPaid | feeSwept =>
      simp only [RiskEngine.totals, List.map_nil, List.sum_nil]
      omega
  | converted x y live pos le le_released le_matured le_tot covered =>
      simp only [RiskEngine.totals, List.map_nil, List.sum_nil]
      omega
  | warmed r a' l live events warm =>
      rcases events with ⟨rfl, rfl⟩ | rfl
      · simp only [RiskEngine.totals, List.map_nil, List.sum_nil]
        omega
      · simp only [RiskEngine.totals, List.map_cons, List.map_nil, List.sum_cons, List.sum_nil, Event.scheduled]
        omega
  | accelerated live fits =>
      unfold RiskEngine.backing at fits
      simp only [RiskEngine.totals, List.map_cons, List.map_nil, List.sum_cons, List.sum_nil, Event.scheduled]
      omega

/-- Taking principal adds nothing to it. -/
theorem Charge.shortfall_le (h : Charge s i a' t') (backed : s.cTot + s.insuranceFund ≤ s.vault) : t'.shortfall ≤ s.totals.shortfall := by
  unfold Totals.shortfall
  cases h with
  | feeCharged | paidOut | reclaimed | debtForgiven =>
      simp only [RiskEngine.totals]
      omega

/-- A draw on insurance adds to the residual. -/
theorem Totals.drawn_shortfall (t : Totals) {fund : Nat} (le : fund ≤ t.insuranceFund) :
    { t with insuranceFund := fund }.shortfall ≤ t.shortfall := by
  unfold Totals.shortfall
  dsimp only
  omega

theorem Forgiven.shortfall_le (h : Forgiven s i a' t' l) : t'.shortfall ≤ s.totals.shortfall := by
  cases h with
  | mk draw n flat neg le_fund reserved count => exact s.totals.drawn_shortfall (Nat.sub_le _ draw)

/-- PnL that is set in Live mode is admitted within the residual or reserved. -/
theorem LivePnlSet.shortfall_le (h : LivePnlSet s i v instant a' t') : t'.shortfall ≤ s.totals.shortfall := by
  have vault : t'.vault = s.vault := congrArg Totals.vault h.frame
  have insurance : t'.insuranceFund = s.insuranceFund := congrArg Totals.insuranceFund h.frame
  have capital : t'.cTot = s.cTot := congrArg Totals.cTot h.frame
  have matured := h.matured
  unfold Totals.shortfall
  simp only [RiskEngine.totals, vault, insurance, capital]
  rcases h.grown with less | ⟨-, fits⟩
  · omega
  · unfold RiskEngine.backing at fits
    omega

/-- Without accounts there are no matured claims. -/
theorem Good.swept_shortfall (h : Good c) (live : c.engine.marketMode = .live) (empty : c.engine.numUsedAccounts = 0) :
    c.engine.totals.shortfall = 0 := by
  have none : c.engine.usedSlots = ∅ := Finset.card_eq_zero.mp (h.books.numUsed.symm.trans empty)
  have matured := (h.reserves live).matured
  rw [none] at matured
  have zero : c.engine.pnlMaturedPosTot = 0 := matured
  unfold Totals.shortfall
  simp only [RiskEngine.totals, zero, Nat.zero_sub]

/-- What leaves the totals alone leaves the shortfall alone. -/
theorem shortfall_quiet (h : c'.engine.totals = c.engine.totals) :
    c'.engine.totals.shortfall ≤ c.engine.totals.shortfall + (l.map Event.scheduled).sum := by
  rw [h]
  exact Nat.le_add_right _ _

/-- One step in a Live market. -/
theorem Good.shortfall_step (h : Good c) (step : Step sc c l c') (live : c'.engine.marketMode = .live) :
    c'.engine.totals.shortfall ≤ c.engine.totals.shortfall + (l.map Event.scheduled).sum := by
  have after := h.step step
  have backed := h.books.backed
  cases step with
  | noted => exact Nat.le_add_right _ _
  | booked used reach entry => exact entry.shortfall_le backed
  | charged used reach allowed charge => exact charge.shortfall_le backed
  | forgave used reach calm forgiven => exact Nat.le_add_right_of_le forgiven.shortfall_le
  | relabeled used reach same slot => exact Nat.le_add_right _ _
  | funded amount cap =>
      show Totals.shortfall _ ≤ Totals.shortfall _ + 0
      unfold Totals.shortfall
      simp only [RiskEngine.totals, RiskEngine.withVault, RiskEngine.withInsuranceFund]
      omega
  | clocked => exact Nat.le_add_right _ _
  | accrued rest fresh live fits accrued =>
      apply shortfall_quiet
      rw [accrued.eq]
      rfl
  | settled used reach touched live closing calm scope settled =>
      rw [settled.eq]
      exact settled.pnl.shortfall_le
  | slipped legs used reach allowed live leg same scope range pnl => exact pnl.shortfall_le
  | traded usedA usedB reachA reachB allowedA allowedB touchedA touchedB live pending closing trading
      syncedA syncedB traded =>
      obtain ⟨s₁, s₂, f, g, first, second, eq⟩ := traded.legs
      apply shortfall_quiet
      rw [eq, second.eq, first.eq]
      rfl
  | checked => exact Nat.le_add_right _ _
  | closed allowed used reach touched live pending closing calm closed =>
      obtain ⟨f, attached⟩ := closed.attached
      apply shortfall_quiet
      rw [attached.eq]
      rfl
  | @deleveraged s ph i d q v l f marks used live pending closing pos fund absorbed marked =>
      exact Nat.le_add_right_of_le (s.totals.drawn_shortfall fund)
  | reset => exact Nat.le_add_right _ _
  | reopened => exact Nat.le_add_right _ _
  | materialized allowed reach live le materialized =>
      apply shortfall_quiet
      rw [materialized.eq]
      rfl
  | @freed s s' ph i allowed reach charges clean freed =>
      by_cases empty : s'.numUsedAccounts = 0
      · have none : s'.swept.numUsedAccounts = 0 := by
          rw [RiskEngine.swept_eq]
          exact empty
        rw [after.swept_shortfall live none]
        exact Nat.zero_le _
      · apply shortfall_quiet
        have kept : s'.swept = s' := if_neg empty
        rw [kept, freed.eq]
        rfl
  | resolved price live' now kDelta allowed rest mode le drained => cases live
  | wiped used reach mode => exact Nat.le_add_right _ _
  | reconciled used reach mode reconciled =>
      rw [reconciled.eq] at live
      exact absurd (live.symm.trans mode) (by rintro ⟨⟩)
  | captured mode => exact absurd (live.symm.trans mode) (by rintro ⟨⟩)
  | paid used reach allowed mode paid =>
      rw [paid.eq] at live
      exact absurd (live.symm.trans mode) (by rintro ⟨⟩)

/-! ### Runs -/

/-- The shortfall while the market is Live. -/
def RiskEngine.liveShortfall (s : RiskEngine) : Nat := if s.marketMode = .live then s.totals.shortfall else 0

theorem RiskEngine.liveShortfall_of (live : s.marketMode = .live) :
    s.liveShortfall = s.pnlMaturedPosTot - s.residual := if_pos live

theorem Good.liveShortfall_step (h : Good c) (step : Step sc c l c') :
    c'.engine.liveShortfall ≤ c.engine.liveShortfall + (l.map Event.scheduled).sum := by
  unfold RiskEngine.liveShortfall
  by_cases live : c'.engine.marketMode = .live
  · rw [if_pos live, if_pos (step.live_before live)]
    exact h.shortfall_step step live
  · rw [if_neg live]
    exact Nat.zero_le _

/-- What the linear schedule released in an operation. -/
def scheduledRelease (l : List Event) : Nat := (l.map Event.scheduled).sum

/-- A committed operation. -/
theorem Good.liveShortfall_committed (h : Good ⟨s, .idle⟩) (ok : ins.run s = .ok () s' l) :
    s'.liveShortfall ≤ s.liveShortfall + scheduledRelease l := by
  obtain ⟨ph, course, rest⟩ := h.committed ok
  exact course.run.growth (fun _ _ _ good step => good.step step) (fun _ _ _ good step => good.liveShortfall_step step) h

/-- A history. -/
theorem Good.liveShortfall_history {ls : List (Instruction × List Event)} (h : Good ⟨s, .idle⟩) (hist : History s ls s') :
    s'.liveShortfall ≤ s.liveShortfall + (ls.map fun p => scheduledRelease p.2).sum := by
  refine hist.growth (I := fun s => Good ⟨s, .idle⟩) (fun _ _ _ good last => good.performed last) ?_ h
  intro s ls s' good last
  cases last with
  | committed ok => exact good.liveShortfall_committed ok
  | rolledBack fault => exact Nat.le_add_right _ _

/-- A market begins without matured claims. -/
theorem Initial.liveShortfall (h : Initial s) : s.liveShortfall = 0 := by
  obtain ⟨s₀, p, slot, price, l, hok⟩ := h
  obtain ⟨-, -, -, rfl⟩ := initInPlace_spec hok
  exact Nat.zero_sub _

/-- No admission makes a haircut: over one operation the matured claims that the residual does not
cover grow by at most what the schedule released, and where it never released anything h = 1. -/
theorem Reachable.never_haircut (h : Reachable s) (live : s.marketMode = .live) :
    (∀ (ins : Instruction) (s' : RiskEngine) (l : List Event), ins.run s = .ok () s' l → s'.marketMode = .live →
      s'.pnlMaturedPosTot - s'.residual ≤ s.pnlMaturedPosTot - s.residual + scheduledRelease l) ∧
    ∀ s₀ ls, Initial s₀ → History s₀ ls s → (∀ p ∈ ls, scheduledRelease p.2 = 0) →
      (haircutRatio s).1 = (haircutRatio s).2 := by
  refine ⟨fun ins s' l ok live' => ?_, fun s₀ ls initial hist unscheduled => ?_⟩
  · rw [← RiskEngine.liveShortfall_of live, ← RiskEngine.liveShortfall_of live']
    exact h.good.liveShortfall_committed ok
  · have grown := initial.good.liveShortfall_history hist
    have none : (ls.map fun p => scheduledRelease p.2).sum = 0 := by
      apply List.sum_eq_zero
      intro x hx
      obtain ⟨p, hp, rfl⟩ := List.mem_map.mp hx
      exact unscheduled p hp
    rw [initial.liveShortfall, none, RiskEngine.liveShortfall_of live] at grown
    unfold haircutRatio
    split_ifs
    · rfl
    · show min s.residual s.pnlMaturedPosTot = s.pnlMaturedPosTot
      omega

/-- A crank after a rise of the price, which touches the short and then the long at horizon zero. -/
def promptCrank : Instruction := .keeperCrank 150 1010 [(2, none), (1, none)] 10 0 0 100

/-- The traded market after it: the short has paid, and the profit of the long is admitted at once. -/
def promptMarket : RiskEngine := promptCrank.perform tradedMarket

theorem promptMarket_never_haircut : 0 < promptMarket.pnlMaturedPosTot ∧
    promptMarket.pnlMaturedPosTot - promptMarket.residual ≤ tradedMarket.pnlMaturedPosTot - tradedMarket.residual ∧
    (haircutRatio promptMarket).1 = (haircutRatio promptMarket).2 := by
  have last : Performed tradedMarket _ promptMarket := promptCrank.performed tradedMarket
  have hist : History sampleMarket _ tradedMarket := performAll_history sampleMarket _
  refine ⟨by decide +kernel, ?_, ?_⟩
  · have ok : promptCrank.run tradedMarket = .ok () promptMarket _ := Instruction.run_eq_ok (by decide +kernel)
    have grown := (Reachable.never_haircut tradedMarket_reachable (by decide +kernel)).1 _ _ _ ok (by decide +kernel)
    have unscheduled : scheduledRelease (promptCrank.run tradedMarket).events = 0 := by decide +kernel
    rw [unscheduled, Nat.add_zero] at grown
    exact grown
  · exact (Reachable.never_haircut (tradedMarket_reachable.performed last) (by decide +kernel)).2 _ _
      sampleMarket_initial (hist.tail last) (by decide +kernel)

end Percolator
