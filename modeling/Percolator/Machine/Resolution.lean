import Percolator.Machine.Accounts

/-!
The courses of a resolution, of the reconciliation of the accounts left behind by it,
and of their terminal closes.
-/

namespace Percolator

open Effect

variable {sc : Scope} {c : Conf} {l l' : List Event} {s s' : RiskEngine} {ph : Phase} {i now : Nat}
  {d : Side}

/-! ### Entering Resolved mode -/

theorem drainSide_spec (hok : drainSide d s = .ok () s' l) :
    s' = s.setSide d (if (s.sides d).Drains true then (s.sides d).drained else s.sides d) ∧
      l = (if (s.sides d).Drains true then [.drained d] else []) ∧
      ((s.sides d).sideMode ≠ .resetPending → (s.sides d).adlEpoch < U64_MAX) := by
  set P : RiskEngine → List Event → Prop := fun s' l =>
    s' = s.setSide d (if (s.sides d).Drains true then (s.sides d).drained else s.sides d) ∧
      l = (if (s.sides d).Drains true then [.drained d] else []) ∧
      ((s.sides d).sideMode ≠ .resetPending → (s.sides d).adlEpoch < U64_MAX) with hP
  refine wp_sound (Q := fun _ => P) hok ?_
  simp only [drainSide, wp_bind, wp_read, wp_whenever]
  refine ⟨fun hm => wp_ok fun _ s₁ l₁ h₁ => ?_, fun hm => ?_⟩
  · obtain ⟨rfl, rfl, -, hepoch⟩ := beginFullDrainReset_spec h₁
    have hd : (s.sides d).Drains true := ⟨rfl, hm⟩
    refine ⟨?_, ?_, fun _ => hepoch⟩
    · rw [if_pos hd]
    · rw [if_pos hd]; rfl
  · have hd : ¬ (s.sides d).Drains true := fun h => hm h.2
    refine ⟨?_, ?_, fun h => absurd h hm⟩
    · rw [if_neg hd, RiskEngine.setSide_eta]
    · rw [if_neg hd]

theorem reopenSide_spec (hok : reopenSide d s = .ok () s' l) :
    s' = s.setSide d (s.sides d).reopened ∧ l = [] := by
  refine wp_sound (Q := fun _ s' l => s' = s.setSide d (s.sides d).reopened ∧ l = []) hok ?_
  simp only [reopenSide, finalizeSideReset, wp_bind, wp_read, wp_whenever, wp_rejectIf, wp_writeSide,
    implies_true, true_and, and_true, not_not]
  refine ⟨fun _ hr => ?_, fun hn => ?_⟩
  · rw [SideState.reopened, if_pos hr]
  · have hr : ¬ (s.sides d).Ready := fun hr => hn ⟨hr.1, hr.2.2.1, hr.2.2.2⟩
    rw [SideState.reopened, if_neg hr, RiskEngine.setSide_eta]

/-- Both sides are drained and then reopened where nothing is left on them. -/
theorem resetSides_spec (hok : (do
      drainSide .long
      drainSide .short
      reopenSide .long
      reopenSide .short : Act Unit) s = .ok () s' l) :
    s' = s.withSides (fun d => (s.sides d).finalized true) ∧ l = drainEvents s.sides (fun _ => true) ∧
      ∀ d, (s.sides d).sideMode ≠ .resetPending → (s.sides d).adlEpoch < U64_MAX := by
  set P : RiskEngine → List Event → Prop := fun s' l =>
    s' = s.withSides (fun d => (s.sides d).finalized true) ∧ l = drainEvents s.sides (fun _ => true) ∧
      ∀ d, (s.sides d).sideMode ≠ .resetPending → (s.sides d).adlEpoch < U64_MAX with hP
  refine wp_sound (Q := fun _ => P) hok ?_
  simp only [wp_bind]
  refine wp_ok fun _ s₁ l₁ h₁ => wp_ok fun _ s₂ l₂ h₂ => wp_ok fun _ s₃ l₃ h₃ => wp_ok fun _ s₄ l₄ h₄ => ?_
  obtain ⟨rfl, rfl, hlong⟩ := drainSide_spec h₁
  obtain ⟨rfl, rfl, hshort⟩ := drainSide_spec h₂
  obtain ⟨rfl, rfl⟩ := reopenSide_spec h₃
  obtain ⟨rfl, rfl⟩ := reopenSide_spec h₄
  refine ⟨?_, by simp [drainEvents, RiskEngine.setSide], fun d => ?_⟩
  · unfold RiskEngine.setSide RiskEngine.withSides
    congr 1
    funext e
    cases e <;> rfl
  · cases d
    · exact hlong
    · exact hshort

theorem Course.resolveLive {mode : ResolveMode} {resolvedPrice livePrice : Nat} {rate : Int}
    (sc : Scope) (h : Good ⟨s, .idle⟩) (live : s.marketMode = .live) (fits : now ≤ U64_MAX) (le : s.currentSlot ≤ now) :
    wp (resolveLivePart mode resolvedPrice livePrice now rate)
      (fun _ s' l' => Course sc ⟨s, .idle⟩ l' s' .idle ∧ s'.marketMode = .live ∧ s'.currentSlot ≤ now)
      (fun p => Fault.Sound (.plain p)) s [] := by
  have h₀ : Course sc ⟨s, .idle⟩ [] s .idle := Course.start _ h
  cases mode with
  | degenerate =>
      simp only [resolveLivePart, wp_bind, wp_read, wp_rejectIf, wp_update, Fault.sound_plain, implies_true,
        true_and]
      intro _ _
      have hclock : Clocked s now now := .live live le le_rfl (by unfold saturatingAddU64; omega)
      exact ⟨h₀.quiet (.clocked now s.lastCrankSlot now hclock), live, le_rfl⟩
  | ordinary =>
      simp only [resolveLivePart, wp_bind, wp_read, wp_rejectIf, wp_orErr, Fault.sound_plain, implies_true,
        true_and]
      refine wp_plain fun _ s₁ l₁ hok _ _ _ _ _ => ?_
      obtain ⟨-, ⟨rfl, hcur, hnow, rfl⟩ | ⟨rfl, hacc⟩⟩ := accrueMarketTo_spec hok
      · refine ⟨h₀.anchor live hcur ?_, live, le_rfl⟩
        unfold saturatingAddU64
        omega
      · refine ⟨h₀.step (.accrued Phase.idle_atRest rfl live fits hacc), ?_, ?_⟩
        · rw [hacc.eq]; exact live
        · rw [hacc.eq]

/-- Entering resolution and resetting both sides is one step. -/
theorem Course.resetSides {s₁ : RiskEngine} {l₁ : List Event} (h : Course sc ⟨s, .idle⟩ l₁ s₁ .idle)
    (allowed : sc.resolves) (live : s₁.marketMode = .live) (le : s₁.currentSlot ≤ now) (resolvedPrice livePrice : Nat)
    (kDelta : Side → Int) :
    wp (do
      drainSide .long
      drainSide .short
      reopenSide .long
      reopenSide .short : Act Unit) (fun _ s₂ l₂ => Course sc ⟨s, .idle⟩ l₂ s₂ .idle)
      (fun p => Fault.Sound (.plain p)) (s₁.enterResolved resolvedPrice livePrice now kDelta) l₁ := by
  refine wp_plain fun _ s₂ l₂ hok => ?_
  obtain ⟨rfl, rfl, hepoch⟩ := resetSides_spec hok
  exact h.step (.resolved resolvedPrice livePrice now kDelta allowed Phase.idle_atRest live le hepoch)

theorem Good.resolveMarket {mode : ResolveMode} {resolvedPrice livePrice : Nat} {rate : Int}
    (h : Good ⟨s, .idle⟩) (fits : now ≤ U64_MAX) (allowed : sc.resolves) :
    wp (Percolator.resolveMarket mode resolvedPrice livePrice now rate)
      (fun _ s' l' => Done sc ⟨s, .idle⟩ l' s') Fault.Sound s [] := by
  simp only [Percolator.resolveMarket, wp_bind, wp_read, wp_lift, wp_rejectIf, wp_orErr, wp_update,
    Fault.sound_plain, implies_true, true_and, not_not, not_lt]
  intro live le _ _ _
  refine wp_mono (Course.resolveLive sc h live fits le) ?_ fun _ _ he => he
  rintro _ s₁ l₁ ⟨h₁, live₁, le₁⟩ kLong _ kShort _
  have hall := fun k => h₁.resetSides allowed live₁ le₁ resolvedPrice livePrice k
  simp only [wp_bind] at hall
  refine wp_mono (hall _) (fun _ _ _ hall => ?_) fun _ _ he => he
  refine wp_mono hall (fun _ _ _ hall => ?_) fun _ _ he => he
  refine wp_mono hall (fun _ _ _ hall => ?_) fun _ _ he => he
  refine wp_mono hall (fun _ _ _ h₂ => ?_) fun _ _ he => he
  exact fun _ => h₂.postconditions h₂.done

/-! ### Reconciliation -/

/-- The PnL delta of a reconciliation is booked, and everything stays matured. -/
theorem reconcilePnl_spec {v : Int} {pnlDelta : Int} (mode : s.marketMode = .resolved)
    (hv : v = (s.accounts i).pnl + pnlDelta)
    (hok : whenever (pnlDelta ≠ 0) (do
      setPnl i v
      update fun s => s.withPnlMaturedPosTot s.pnlPosTot) s = .ok () s' l) :
    ∃ t', s' = s.rebook i ((s.accounts i).withPnl v) t' ∧ l = [] ∧
      PnlSet s i v ((s.accounts i).withPnl v) t' ∧
      (s.pnlMaturedPosTot = s.pnlPosTot → t'.pnlMaturedPosTot = t'.pnlPosTot) := by
  set P : RiskEngine → List Event → Prop := fun s' l =>
    ∃ t', s' = s.rebook i ((s.accounts i).withPnl v) t' ∧ l = [] ∧
      PnlSet s i v ((s.accounts i).withPnl v) t' ∧
      (s.pnlMaturedPosTot = s.pnlPosTot → t'.pnlMaturedPosTot = t'.pnlPosTot) with hP
  refine wp_sound (Q := fun _ => P) hok ?_
  simp only [wp_whenever, wp_bind, wp_update]
  refine ⟨fun _ => wp_ok fun _ s₁ l₁ h₁ => ?_, fun h0 => ?_⟩
  · obtain ⟨octx, h₁⟩ := setPnl_eq h₁
    obtain ⟨a', t', rfl, rfl, -, hset⟩ := setPnlWithReserve_resolved h₁ mode
    obtain rfl := hset.account
    refine ⟨{ t' with pnlMaturedPosTot := t'.pnlPosTot }, rfl, rfl, ?_, fun _ => rfl⟩
    exact ⟨hset.same, hset.pnl_eq, by rw [hset.frame], hset.pos, hset.neg⟩
  · obtain rfl : pnlDelta = 0 := not_not.mp h0
    have hv : v = (s.accounts i).pnl := by omega
    have ha : (s.accounts i).withPnl v = s.accounts i := by rw [hv]; rfl
    refine ⟨s.totals, ?_, rfl, ?_, id⟩
    · rw [ha, RiskEngine.rebook_eta]
    · rw [ha]
      exact ⟨rfl, hv.symm, rfl, rfl, rfl⟩

theorem reconcilePosition_spec (mode : s.marketMode = .resolved)
    (side : sideOfI128 (s.accounts i).positionBasisQ = some d)
    (hok : reconcilePosition i d s = .ok () s' l) :
    (∃ v t' n m, Reconciled s s' i d v t' n m) ∧ l = [] := by
  set P : RiskEngine → List Event → Prop := fun s' l =>
    (∃ v t' n m, Reconciled s s' i d v t' n m) ∧ l = [] with hP
  refine wp_sound (Q := fun _ => P) hok ?_
  simp only [reconcilePosition, wp_bind, wp_read, wp_rejectIf, wp_orErr, wp_writeSide, wp_writeAccount,
    implies_true, true_and, not_not]
  intro _ den _ _ hepoch _ kT _ pnlDelta _ v hv hne
  obtain ⟨hv, hrange⟩ := checkedAddI128_range hv hne
  refine wp_ok fun _ s₁ l₁ h₁ m hm => wp_ok fun _ s₂ l₂ h₂ => ?_
  obtain ⟨t', rfl, rfl, hset, hmatured⟩ := reconcilePnl_spec mode hv h₁
  have hm := checkedSub_eq hm
  obtain ⟨n, hn, rfl, rfl⟩ := setPositionBasisQ_zero (d := d) (by simpa using side) h₂
  refine ⟨⟨v, t', n, m, side, hset, hmatured, ?_, hm.symm, hv ▸ hrange, (checkedAddU64_eq hepoch).1.symm, ?_⟩, rfl⟩
  · simpa using hn
  · refine RiskEngine.eq_reseat (f := fun e => (s.sides e).withSeats (if e = d then
      ⟨n, m, (s.sides d).phantomDustBoundQ⟩ else (s.sides e).seats)) (fun _ => rfl) ?_
    simp only [RiskEngine.reseat, RiskEngine.setAccount, RiskEngine.setSide, RiskEngine.rebook,
      Account.flat, put_same, put_put]
    congr 1
    funext e
    by_cases he : e = d
    · subst he; simp [SideState.withSeats, SideState.seats]
    · simp [he, SideState.withSeats, SideState.seats]

/-- A loss left over after resolution is settled and written off. -/
theorem Course.settleResolved (h : Course sc c l s .idle) (used : s.isUsed i = true)
    (reach : sc.reach i) :
    wp (settleLosses i) (fun _ s l => wp (resolveFlatNegative i) (fun _ s l => wp assertPublicPostconditions
      (fun _ s' l' => Course sc c l' s' .idle) Fault.Sound s l) (fun p => Fault.Sound (.plain p)) s l)
      (fun p => Fault.Sound (.plain p)) s l := by
  refine wp_plain fun _ s₁ l₁ hok => wp_plain fun _ s₂ l₂ hok' => ?_
  have b₁ := settleLosses_spec hok
  have h₁ := h.booked used reach b₁
  have used₁ : s₁.isUsed i = true := by
    rw [(b₁.sameSeats fun _ _ e => e.exact.position).used]; exact used
  have h₂ := h₁.forgave used₁ reach rfl (resolveFlatNegative_spec hok')
  exact h₂.postconditions h₂

theorem Course.reconcile (h : Course sc c l s .idle) (reach : sc.reach i) :
    wp (reconcileResolved i) (fun _ s' l' => Course sc c l' s' .idle) Fault.Sound s l := by
  simp only [reconcileResolved, prepareAccountForResolvedTouch, wp_bind, wp_read, wp_lift, wp_rejectIf,
    wp_update, wp_writeAccount, Fault.sound_plain, implies_true, true_and, not_not, Bool.not_eq_false]
  intro mode used
  have h₁ := h.quiet (.clocked s.resolvedSlot s.lastCrankSlot s.lastMarketSlot (.resolved mode rfl))
  have h₂ := h₁.quiet (.wiped used reach mode)
  cases side : sideOfI128 (s.accounts i).positionBasisQ with
  | none =>
      simp only [wp_bind, wp_lift]
      exact h₂.settleResolved used reach
  | some d =>
      simp only [wp_bind, wp_lift]
      refine wp_plain fun _ s₃ l₃ hok => ?_
      set s₂ := (s.withCurrentSlot s.resolvedSlot).setAccount i (s.accounts i).clearReserve with hs₂
      have side₂ : sideOfI128 (s₂.accounts i).positionBasisQ = some d := by simpa [hs₂] using side
      obtain ⟨⟨v, t', n, m, hrec⟩, rfl⟩ := reconcilePosition_spec (s := s₂) mode side₂ hok
      rw [List.append_nil]
      have h₃ := h₂.quiet (.reconciled used reach mode hrec)
      have used₃ : s₃.isUsed i = true := by rw [hrec.eq]; exact used
      exact h₃.settleResolved used₃ reach

/-! ### Terminal closes -/

/-- The PnL of an account without reserve is paid at the ratio of the snapshot. -/
theorem payResolvedPnl_spec (mode : s.marketMode = .resolved) (ready : s.resolvedPayoutReady = true)
    (pos : 0 < (s.accounts i).pnl) (reserve : (s.accounts i).reservedPnl = 0)
    (hok : payResolvedPnl i s = .ok () s' l) : (∃ y, SnapshotPaid s s' i y) ∧ l = [] := by
  set P : RiskEngine → List Event → Prop := fun s' l => (∃ y, SnapshotPaid s s' i y) ∧ l = [] with hP
  refine wp_sound (Q := fun _ => P) hok ?_
  have hrel : (s.accounts i).releasedPos = (s.accounts i).posPnl := by
    unfold Account.releasedPos Account.posPnl; omega
  have hpos : 0 < (s.accounts i).posPnl := by unfold Account.posPnl i128ClampPos; omega
  simp only [payResolvedPnl, wp_bind, wp_read, wp_rejectIf, wp_whenever, wp_expect, wp_orErr, hrel,
    implies_true, true_and]
  refine fun _ => ⟨fun _ _ y hy => wp_ok fun _ s₁ l₁ h₁ cap hcap => wp_ok fun _ s₂ l₂ h₂ => ?_,
    fun h0 => absurd hpos h0⟩
  obtain ⟨a', t', rfl, rfl, -, hset⟩ := setPnlWithReserve_resolved h₁ mode
  obtain ⟨c, rfl, rfl, hc⟩ := setCapital_spec h₂
  obtain ⟨-, rfl⟩ := wideMulDivFloorU128_eq hy
  have ha := hset.account
  have htot := hset.pos
  have hmat := hset.matured
  have hneg := hset.neg
  have hframe := hset.frame
  have hz : ((s.accounts i).withPnl 0).posPnl = 0 := rfl
  have hn : (s.accounts i).negPnl = 0 := if_neg (by omega)
  have hn' : ((s.accounts i).withPnl 0).negPnl = 0 := rfl
  obtain rfl := ha
  rw [hz] at htot hmat
  rw [hn, hn'] at hneg
  have hcap : cap = (s.accounts i).capital +
      (s.accounts i).posPnl * s.resolvedPayoutHNum / s.resolvedPayoutHDen := by
    simpa using (checkedAddU128_eq hcap).1
  have hcTot : t'.cTot = s.cTot := by rw [hframe]; rfl
  have hc : c + (s.accounts i).capital = t'.cTot + cap := by simpa using hc
  refine ⟨⟨_, ready, pos, rfl, by omega, by omega, ?_⟩, rfl⟩
  rw [RiskEngine.rebook_totals, RiskEngine.rebook_rebook, RiskEngine.rebook_accounts, put_same, hcap]
  congr 1
  rw [hframe]
  simp only [RiskEngine.totals, Totals.mk.injEq, true_and]
  refine ⟨by omega, by omega, by omega, by omega⟩

theorem Course.captured (h : Course sc c l s .idle) (mode : s.marketMode = .resolved)
    (ready : isTerminalReady s = true) (pos : 0 < s.pnlPosTot) :
    wp captureSnapshot (fun _ s' l' => Course sc c l' s' .idle ∧ s'.resolvedPayoutReady = true ∧
      s'.marketMode = .resolved ∧ s'.accounts = s.accounts ∧ s'.isUsed = s.isUsed)
      (fun p => Fault.Sound (.plain p)) s l := by
  simp only [captureSnapshot, wp_bind, wp_read, wp_whenever, wp_update]
  refine ⟨fun first => ⟨h.quiet (.captured mode ready first pos), ?_⟩, fun hr => ⟨h, ?_⟩⟩
  · exact ⟨trivial, mode, trivial, rfl⟩
  · exact ⟨by simpa using hr, mode, trivial, trivial⟩

/-- The positive PnL of an account is paid out of the shared snapshot. -/
theorem Course.payTerminal (h : Course sc c l s .idle) (mode : s.marketMode = .resolved)
    (used : s.isUsed i = true) (reach : sc.reach i) (charges : sc.charges i)
    (pos : 0 < (s.accounts i).pnl) (reserve : (s.accounts i).reservedPnl = 0)
    (ready : isTerminalReady s = true) :
    wp captureSnapshot (fun _ s l => wp (payResolvedPnl i)
      (fun _ s' l' => Course sc c l' s' .idle ∧ s'.isUsed i = true)
      (fun p => Fault.Sound (.plain p)) s l) (fun p => Fault.Sound (.plain p)) s l := by
  have hbooks : Books s := h.good.books
  have htot : 0 < s.pnlPosTot := by
    have hle := le_tally (f := Account.posPnl) (t := s.accounts) (RiskEngine.mem_usedSlots.mpr used)
    rw [← hbooks.pos] at hle
    have : 0 < (s.accounts i).posPnl := by unfold Account.posPnl i128ClampPos; omega
    omega
  refine wp_mono (h.captured mode ready htot) ?_ fun _ _ he => he
  rintro _ s₁ l₁ ⟨h₁, ready₁, mode₁, haccounts, hused⟩
  refine wp_plain fun _ s₂ l₂ hok => ?_
  obtain ⟨⟨y, hpaid⟩, rfl⟩ :=
    payResolvedPnl_spec mode₁ ready₁ (by rw [haccounts]; exact pos) (by rw [haccounts]; exact reserve) hok
  rw [List.append_nil]
  have used₁ : s₁.isUsed i = true := by rw [hused]; exact used
  exact ⟨h₁.quiet (.paid used₁ reach charges mode₁ hpaid), by rw [hpaid.eq]; exact used₁⟩

/-- What a terminal close does once the PnL of the account is paid. -/
theorem Course.closeOut (h : Course sc c l s .idle) (used : s.isUsed i = true) (reach : sc.reach i)
    (charges : sc.charges i) (slots : sc.slots) :
    wp (feeDebtSweep i) (fun _ s l => wp (payOutAll i) (fun _ s l => wp (freeSlot i) (fun _ s l =>
      wp sweepEmptyMarketSurplusToInsurance (fun _ s l => wp assertPublicPostconditions
        (fun _ s' l' => Course sc c l' s' .idle) Fault.Sound s l) (fun p => Fault.Sound (.plain p)) s l)
      (fun p => Fault.Sound (.plain p)) s l) (fun p => Fault.Sound (.plain p))
      (s.setAccount i ((s.accounts i).withFeeCredits (max (s.accounts i).feeCredits 0))) l)
      (fun p => Fault.Sound (.plain p)) s l := by
  refine wp_plain fun _ s₁ l₁ hok => ?_
  have b₁ := feeDebtSweep_spec (h.fee used) hok
  have h₁ := h.booked used reach b₁
  have used₁ : s₁.isUsed i = true := by
    rw [(b₁.sameSeats fun _ _ e => e.exact.position).used]; exact used
  have h₂ := h₁.quiet (.charged used₁ reach (.inl charges) .debtForgiven)
  refine wp_plain fun _ s₃ l₃ hok => ?_
  have h₃ := h₂.charged used₁ reach (.inl charges) (payOutAll_spec hok).2.2
  refine wp_mono (h₃.release slots reach charges rfl) (fun _ s₄ l₄ hw => ?_) fun _ _ he => he
  exact wp_mono hw (fun _ s₅ l₅ h₅ => h₅.postconditions h₅) fun _ _ he => he

theorem Course.closeTerminal (h : Course sc c l s .idle) (reach : sc.reach i) (charges : sc.charges i)
    (slots : sc.slots) :
    wp (closeResolvedTerminal i) (fun _ s' l' => Course sc c l' s' .idle) Fault.Sound s l := by
  simp only [closeResolvedTerminal, prepareAccountForResolvedTouch, wp_bind, wp_read, wp_lift, wp_rejectIf,
    wp_whenever, wp_writeAccount, wp_pure, Fault.sound_plain, implies_true, true_and, not_not,
    Bool.not_eq_false]
  intro mode used _ _
  have h₁ := h.quiet (.wiped used reach mode)
  refine ⟨fun pos ready => ?_, fun _ => h₁.closeOut used reach charges slots⟩
  have hpay := h₁.payTerminal mode used reach charges (by simpa using pos) (by simp) ready
  refine wp_mono hpay (fun _ s₂ l₂ hw => ?_) fun _ _ he => he
  exact wp_mono hw (fun _ s₃ l₃ h₃ => h₃.1.closeOut h₃.2 reach charges slots) fun _ _ he => he

theorem Good.reconcileResolved (h : Good ⟨s, .idle⟩) (reach : sc.reach i) :
    wp (Percolator.reconcileResolved i) (fun _ s' l' => Done sc ⟨s, .idle⟩ l' s') Fault.Sound s [] :=
  wp_mono ((Course.start sc h).reconcile reach) (fun _ _ _ h₁ => h₁.done) fun _ _ he => he

theorem Good.closeResolvedTerminal (h : Good ⟨s, .idle⟩) (reach : sc.reach i) (charges : sc.charges i)
    (slots : sc.slots) :
    wp (Percolator.closeResolvedTerminal i) (fun _ s' l' => Done sc ⟨s, .idle⟩ l' s') Fault.Sound s [] :=
  wp_mono ((Course.start sc h).closeTerminal reach charges slots) (fun _ _ _ h₁ => h₁.done) fun _ _ he => he

theorem Good.forceCloseResolved (h : Good ⟨s, .idle⟩) (reach : sc.reach i) (charges : sc.charges i)
    (slots : sc.slots) :
    wp (Percolator.forceCloseResolved i) (fun _ s' l' => Done sc ⟨s, .idle⟩ l' s') Fault.Sound s [] := by
  simp only [Percolator.forceCloseResolved, wp_bind, wp_read, wp_lift, wp_ite, wp_pure]
  refine wp_mono ((Course.start sc h).reconcile reach) (fun _ s₁ l₁ h₁ => ?_) fun _ _ he => he
  refine wp_plain fun _ s₂ l₂ hok => ?_
  obtain ⟨rfl, rfl⟩ := maybeFinalizeReadyResetSides_spec hok
  have h₂ := h₁.quiet .reopened
  rw [List.append_nil]
  refine ⟨fun _ => h₂.done, fun _ => ?_⟩
  exact wp_mono (h₂.closeTerminal reach charges slots) (fun _ _ _ h₃ => h₃.done) fun _ _ he => he

end Percolator
