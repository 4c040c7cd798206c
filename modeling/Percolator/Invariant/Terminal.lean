import Percolator.Invariant.Sides
import Percolator.Invariant.Timely

/-!
Every step into or within a resolved market keeps its positions waiting and its
terminal payouts covered. With that, every step keeps the invariant.
-/

namespace Percolator

variable {s s' : RiskEngine} {i : Nat} {a a' : Account} {t' : Totals} {l : List Event}
  {sc : Scope} {c c' : Conf}

/-- What a movement on an account leaves of the terminal invariant: PnL above zero
as it was, no new loss, and a vault that still covers what it did. -/
structure Harmless (s : RiskEngine) (i : Nat) (a' : Account) (t' : Totals) : Prop where
  position : (s.accounts i).SamePosition a'
  matured : s.pnlMaturedPosTot = s.pnlPosTot → t'.pnlMaturedPosTot = t'.pnlPosTot
  neg : s.negPnlAccountCount = 0 → t'.negPnlAccountCount = 0
  pos : a'.posPnl = (s.accounts i).posPnl
  vault : ∀ n, s.cTot + s.insuranceFund + n ≤ s.vault → t'.cTot + t'.insuranceFund + n ≤ t'.vault

theorem Terminal.rebook (h : Terminal s) (hh : Harmless s i a' t') : Terminal (s.rebook i a' t') where
  seated := h.seated.put hh.position rfl rfl rfl
  waiting := h.waiting
  oi := h.oi
  matured := hh.matured h.matured
  flat := h.flat
  nonneg := fun hr => hh.neg (h.nonneg hr)
  den_pos := h.den_pos
  covered := fun hr => by
    have := hh.vault _ (h.covered hr)
    show t'.cTot + t'.insuranceFund + tally s.usedSlots (put s.accounts i a')
      (Account.payout s.resolvedPayoutHNum s.resolvedPayoutHDen) ≤ t'.vault
    rwa [tally_put_same (by rw [Account.payout, Account.payout, hh.pos])]

theorem SideState.reopened_mode {v : SideState} (h : v.storedPosCount ≠ 0) :
    v.reopened.sideMode = v.sideMode := by
  unfold SideState.reopened
  rw [if_neg fun hr => h hr.2.2.2]

theorem Terminal.reopened (h : Terminal s) (hb : Books s) :
    Terminal (s.withSides fun d => (s.sides d).reopened) where
  seated := h.seated.reopened hb
  waiting := fun d hd => by
    rw [RiskEngine.withSides_sides, SideState.reopened_stored] at hd
    rw [RiskEngine.withSides_sides, SideState.reopened_mode hd]
    exact h.waiting d hd
  oi := fun d => (SideState.reopened_oi _).trans (h.oi d)
  matured := h.matured
  flat := fun hr d => (SideState.reopened_stored _).trans (h.flat hr d)
  nonneg := h.nonneg
  den_pos := h.den_pos
  covered := h.covered

/-- A step that leaves the positions, the totals and the snapshot alone. -/
theorem Terminal.clocked {slot crank market : Nat} (h : Terminal s) :
    Terminal { s with currentSlot := slot, lastCrankSlot := crank, lastMarketSlot := market } :=
  ⟨⟨h.seated.side, h.seated.position⟩, h.waiting, h.oi, h.matured, h.flat, h.nonneg, h.den_pos, h.covered⟩

/-- An account of a market without losses has none. -/
theorem Books.nonneg (h : Books s) (h0 : s.negPnlAccountCount = 0) (used : s.isUsed i = true) :
    0 ≤ (s.accounts i).pnl := by
  have := eq_zero_of_tally (f := Account.negPnl) (t := s.accounts) (h.neg.symm.trans h0)
    (RiskEngine.mem_usedSlots.mpr used)
  by_contra hneg
  rw [Account.negPnl, if_pos (by omega)] at this
  omega

theorem Entry.harmless (h : Entry s i a' t' l) (hb : Books s) (used : s.isUsed i = true)
    (mode : s.marketMode = .resolved) : Harmless s i a' t' := by
  have notLive : ¬ s.marketMode = .live := by rw [mode]; rintro ⟨⟩
  cases h with
  | deposited amount cap => exact ⟨.refl _, id, id, rfl, fun n hn => by dsimp only [RiskEngine.totals]; omega⟩
  | debtPaid amount cap le_debt =>
      exact ⟨.refl _, id, id, rfl, fun n hn => by dsimp only [RiskEngine.totals]; omega⟩
  | lossPaid pay n le_capital le_tot le_loss full count =>
      refine ⟨.refl _, id, fun h0 => ?_, ?_, fun n hn => by dsimp only [RiskEngine.totals]; omega⟩
      · have := hb.nonneg h0 used
        rw [if_neg (by omega)] at count
        show n = 0
        omega
      · simp only [Account.posPnl, i128ClampPos, Account.withPnl_pnl]; omega
  | feeSwept pay le_capital le_tot le_debt =>
      exact ⟨.refl _, id, id, rfl, fun n hn => by dsimp only [RiskEngine.totals]; omega⟩
  | converted x y live => exact absurd live notLive
  | warmed r a' l live => exact absurd live notLive
  | accelerated live => exact absurd live notLive

theorem Charge.harmless (h : Charge s i a' t') : Harmless s i a' t' := by
  cases h with
  | feeCharged paid debt le_capital le_tot ge =>
      exact ⟨.refl _, id, id, rfl, fun n hn => by dsimp only [RiskEngine.totals]; omega⟩
  | paidOut amount le_capital le_tot le_vault =>
      exact ⟨.refl _, id, id, rfl, fun n hn => by dsimp only [RiskEngine.totals]; omega⟩
  | reclaimed le_tot => exact ⟨.refl _, id, id, rfl, fun n hn => by dsimp only [RiskEngine.totals]; omega⟩
  | debtForgiven => exact ⟨.refl _, id, id, rfl, fun n hn => hn⟩

theorem Forgiven.harmless (h : Forgiven s i a' t' l) : Harmless s i a' t' := by
  obtain ⟨draw, n, flat, neg, le_fund, reserved, count⟩ := h
  refine ⟨.refl _, id, fun h0 => by omega, ?_, fun m hm => by dsimp only [RiskEngine.totals]; omega⟩
  simp only [Account.posPnl, i128ClampPos, Account.withPnl_pnl]; omega

theorem isTerminalReady_iff (h : s.resolvedPayoutReady = false) :
    isTerminalReady s = true ↔ (∀ d, (s.sides d).storedPosCount = 0) ∧
      (∀ d, (s.sides d).staleAccountCount = 0) ∧ s.negPnlAccountCount = 0 := by
  simp only [isTerminalReady, h, Bool.false_or, Bool.and_eq_true, decide_eq_true_eq]
  constructor
  · rintro ⟨⟨⟨⟨h1, h2⟩, h3⟩, h4⟩, h5⟩
    exact ⟨fun d => by cases d <;> assumption, fun d => by cases d <;> assumption, h5⟩
  · rintro ⟨h1, h2, h3⟩
    exact ⟨⟨⟨⟨h1 _, h1 _⟩, h2 _⟩, h2 _⟩, h3⟩

theorem Terminal.captured (h : Terminal s) (hb : Books s) (ready : isTerminalReady s = true)
    (first : s.resolvedPayoutReady = false) (pos : 0 < s.pnlPosTot) : Terminal s.withSnapshot where
  seated := ⟨h.seated.side, h.seated.position⟩
  waiting := h.waiting
  oi := h.oi
  matured := rfl
  flat := fun _ => ((isTerminalReady_iff first).mp ready).1
  nonneg := fun _ => ((isTerminalReady_iff first).mp ready).2.2
  den_pos := fun _ => pos
  covered := fun _ => by
    have hle := tally_floor_le (n := min s.residual s.pnlPosTot) (d := s.pnlPosTot)
      (f := Account.posPnl) (t := s.accounts) (U := s.usedSlots) hb.pos.ge
    have hback := hb.backed
    have hres : s.residual = s.vault - (s.cTot + s.insuranceFund) := rfl
    show s.cTot + s.insuranceFund +
      tally s.usedSlots s.accounts (Account.payout (min s.residual s.pnlPosTot) s.pnlPosTot) ≤ s.vault
    have : tally s.usedSlots s.accounts (Account.payout (min s.residual s.pnlPosTot) s.pnlPosTot) ≤
      min s.residual s.pnlPosTot := hle
    omega

theorem Terminal.paid {y : Nat} (h : Terminal s) (used : s.isUsed i = true) (hp : SnapshotPaid s s' i y) :
    Terminal s' := by
  have hput := tally_put (f := Account.payout s.resolvedPayoutHNum s.resolvedPayoutHDen)
    (t := s.accounts) (a := ((s.accounts i).withPnl 0).withCapital ((s.accounts i).capital + y))
    (RiskEngine.mem_usedSlots.mpr used)
  have h0 : (((s.accounts i).withPnl 0).withCapital ((s.accounts i).capital + y)).payout
      s.resolvedPayoutHNum s.resolvedPayoutHDen = 0 := by
    simp [Account.payout, Account.posPnl, i128ClampPos]
  have hy : (s.accounts i).payout s.resolvedPayoutHNum s.resolvedPayoutHDen = y := hp.payout.symm
  have hm := h.matured
  rw [hp.eq]
  have hpos : (s.accounts i).SamePosition
      (((s.accounts i).withPnl 0).withCapital ((s.accounts i).capital + y)) := .refl _
  refine ⟨h.seated.put hpos rfl rfl rfl, h.waiting, h.oi, ?_, h.flat, h.nonneg, h.den_pos, fun hr => ?_⟩
  · show s.pnlMaturedPosTot - _ = s.pnlPosTot - _
    rw [hm]
  · have := h.covered hr
    show s.cTot + y + s.insuranceFund + tally s.usedSlots (put s.accounts i _)
      (Account.payout s.resolvedPayoutHNum s.resolvedPayoutHDen) ≤ s.vault
    omega

/-- Only what insurance owns changes when the last slot is given up. -/
theorem Terminal.freed (h : Terminal s) (hb : Books s) (hf : Freed s s' i) : Terminal s'.swept := by
  have hsides : s'.sides = s.sides := hf.toSameButSlots.sides_eq
  have hbasis := hf.freeable.2.2.1
  have hpayout : ∀ n d, tally s'.usedSlots s'.accounts (Account.payout n d) =
      tally s.usedSlots s.accounts (Account.payout n d) := fun n d =>
    hf.tally (by simp [Account.payout, Account.posPnl, hf.freeable.1, i128ClampPos])
  have hbooks := hb.afterFreed hf
  rw [RiskEngine.swept_eq]
  refine ⟨⟨?_, fun j d (hj : s'.isUsed j = true) hs => ?_⟩, ?_, ?_, ?_, ?_, ?_, ?_, fun hr => ?_⟩
  · show ∀ d, SideOk (s'.sides d)
    rw [hsides]; exact h.seated.side
  · rw [hf.isUsed (isUsed_lt hf.used)] at hj
    split_ifs at hj with hji
    have hacc : s'.accounts j = s.accounts j := by rw [hf.accounts_eq, put_other _ _ hji]
    show PositionOk (s'.sides d) (s'.accounts j)
    have hs : sideOfI128 (s'.accounts j).positionBasisQ = some d := hs
    rw [hacc] at hs ⊢
    rw [hsides]
    exact h.seated.position j d hj hs
  · show ∀ d, (s'.sides d).storedPosCount ≠ 0 → (s'.sides d).sideMode = .resetPending
    rw [hsides]; exact h.waiting
  · show ∀ d, (s'.sides d).oiEffQ = 0
    rw [hsides]; exact h.oi
  · show s'.pnlMaturedPosTot = s'.pnlPosTot
    rw [hf.eq]; exact h.matured
  · show s'.resolvedPayoutReady = true → ∀ d, (s'.sides d).storedPosCount = 0
    rw [hf.eq]; exact h.flat
  · show s'.resolvedPayoutReady = true → s'.negPnlAccountCount = 0
    rw [hf.eq]; exact h.nonneg
  · show s'.resolvedPayoutReady = true → 0 < s'.resolvedPayoutHDen
    rw [hf.eq]; exact h.den_pos
  · have hr : s.resolvedPayoutReady = true := by
      have hr : s'.resolvedPayoutReady = true := hr
      rw [hf.eq] at hr; exact hr
    show s'.cTot + s'.swept.insuranceFund +
      tally s'.usedSlots s'.accounts (Account.payout s'.resolvedPayoutHNum s'.resolvedPayoutHDen) ≤ s'.vault
    unfold RiskEngine.swept
    split_ifs with h0
    · -- nobody is left to be paid
      have hempty : s'.usedSlots = ∅ := by
        have := hbooks.numUsed
        rw [RiskEngine.swept_eq] at this
        exact Finset.card_eq_zero.mp (this.symm.trans h0)
      have hcTot : s'.cTot = tally s'.usedSlots s'.accounts Account.capital := by
        have := hbooks.cTot
        rwa [RiskEngine.swept_eq] at this
      rw [hcTot, hempty, tally_empty, tally_empty]
      simp
    · rw [hpayout, hf.eq]
      exact h.covered hr

/-- Resolution drains every side that was not waiting already. -/
theorem Seated.resolved {price live now : Nat} {kDelta : Side → Int} (h : Seated s) (hb : Books s)
    (hlt : ∀ d, (s.sides d).sideMode ≠ .resetPending → (s.sides d).adlEpoch < U64_MAX) :
    Terminal ((s.enterResolved price live now kDelta).withSides fun d =>
      ((s.enterResolved price live now kDelta).sides d).finalized true) := by
  set s₁ := s.enterResolved price live now kDelta with hs₁
  have hside₁ : ∀ d, SideOk (s₁.sides d) := fun d => by
    have hv := h.side d
    exact ⟨hv.mult_pos, hv.mult_le, hv.coeff, hv.fund, hv.startK, hv.startF, hv.epoch_le, Nat.zero_le _,
      fun _ => rfl, hv.dustless, hv.stale⟩
  set f : Side → SideState := fun d =>
    if (s₁.sides d).Drains true then (s₁.sides d).drained else s₁.sides d with hf
  have hmode : ∀ d, (f d).sideMode = .resetPending := fun d => by
    rw [hf]
    dsimp only
    split_ifs with hd
    · rfl
    · by_contra hm; exact hd ⟨rfl, hm⟩
  have hseated : Seated (s₁.withSides f) := by
    refine ⟨fun d => ?_, fun j d hj hs => ?_⟩
    · show SideOk (f d)
      rw [hf]
      dsimp only
      split_ifs with hd
      · exact (hside₁ d).reset rfl (hlt d hd.2)
      · exact hside₁ d
    · have hpos : PositionOk (s₁.sides d) (s.accounts j) := by
        have hp := h.position j d hj hs
        exact ⟨hp.bound, hp.basis_pos, hp.basis_le, hp.kSnap, hp.fSnap, hp.epoch⟩
      show PositionOk (f d) _
      rw [hf]
      dsimp only
      split_ifs with hd
      · exact hpos.drained hd.2
      · exact hpos
  have hbooks₁ : Books s₁ := hb.congr rfl rfl rfl hb.totals ⟨rfl, rfl, rfl⟩ (fun _ => rfl) ⟨rfl, rfl⟩
    fun h0 _ => h0
  have hbooks : Books (s₁.withSides f) := hbooks₁.withSides fun d => by
    rw [hf]; dsimp only; split_ifs <;> rfl
  refine ⟨hseated.reopened hbooks, fun d hd => ?_, fun d => ?_, rfl, (by rintro ⟨⟩), (by rintro ⟨⟩), (by rintro ⟨⟩), (by rintro ⟨⟩)⟩
  · show (f d).reopened.sideMode = .resetPending
    have hd : (f d).reopened.storedPosCount ≠ 0 := hd
    rw [SideState.reopened_stored] at hd
    rw [SideState.reopened_mode hd]
    exact hmode d
  · exact (SideState.finalized_oi _ _).trans rfl

theorem Terminal.reconciled {d : Side} {v : Int} {n m : Nat} (h : Terminal s) (used : s.isUsed i = true)
    (hr : Reconciled s s' i d v t' n m) : Terminal s' := by
  -- a stored position rules the snapshot out
  have hready : ¬ s.resolvedPayoutReady = true := fun hr' => by
    have h0 : (s.sides d).storedPosCount = 0 := h.flat hr' d
    have := hr.stored
    omega
  have hmode : (s.sides d).sideMode = .resetPending := h.waiting d (by have := hr.stored; omega)
  have hsame : (s.accounts i).SamePosition ((s.accounts i).withPnl v) := .refl _
  have hseated : Seated (s.rebook i ((s.accounts i).withPnl v) t') := h.seated.put hsame rfl rfl rfl
  have hres : Resettled (s.rebook i ((s.accounts i).withPnl v) t') d ((s.accounts i).withPnl v)
      ((s.accounts i).withPnl v).flat fun e =>
        if e = d then ⟨n, m, (s.sides d).phantomDustBoundQ⟩ else (s.sides e).seats :=
    .stale n m hmode hr.epoch hr.stored hr.stale
  have hside : sideOfI128 ((s.accounts i).withPnl v).positionBasisQ = some d := hr.side
  have hpos : PositionOk (s.sides d) ((s.accounts i).withPnl v) := by
    have hp := h.seated.position i d used hr.side
    exact ⟨hp.bound, hp.basis_pos, hp.basis_le, hp.kSnap, hp.fSnap, hp.epoch⟩
  rw [hr.eq]
  refine ⟨⟨fun e => hres.seatedSide hseated hside hpos e, fun j e hj hs => ?_⟩, fun e he => ?_, h.oi,
    hr.matured h.matured, fun hr' => absurd hr' hready, fun hr' => absurd hr' hready,
    fun hr' => absurd hr' hready, fun hr' => absurd hr' hready⟩
  · have hj : s.isUsed j = true := hj
    by_cases hji : j = i
    · subst hji
      simp only [RiskEngine.reseat_accounts, put_same] at hs
      cases hs
    · simp only [RiskEngine.reseat_accounts, RiskEngine.rebook_accounts, put_other _ _ hji] at hs ⊢
      exact (h.seated.position j e hj hs).congr (.refl _) rfl rfl
  · show (s.sides e).sideMode = .resetPending
    by_cases hed : e = d
    · rw [hed]; exact hmode
    · refine h.waiting e ?_
      simpa [hed, SideState.seats] using he

/-- Every step into or within a resolved market keeps its payouts covered. -/
theorem Good.terminal_step (h : Good c) (step : Step sc c l c')
    (mode' : c'.engine.marketMode = .resolved) : Terminal c'.engine := by
  have hb := h.books
  cases step with
  | noted i => exact h.terminal mode'
  | booked used reach entry =>
      exact (h.terminal mode').rebook (entry.harmless hb used mode')
  | charged used reach allowed charge => exact (h.terminal mode').rebook charge.harmless
  | forgave used reach calm forgiven => exact (h.terminal mode').rebook forgiven.harmless
  | @relabeled s ph i a used reach same slot =>
      show Terminal (s.rebook i a s.totals)
      exact (h.terminal mode').rebook
        ⟨by rw [same]; exact .refl _, id, id, by rw [same]; rfl, fun _ hn => hn⟩
  | @funded s ph amount cap =>
      have ht := h.terminal mode'
      refine ⟨⟨ht.seated.side, ht.seated.position⟩, ht.waiting, ht.oi, ht.matured, ht.flat, ht.nonneg,
        ht.den_pos, fun hr => ?_⟩
      have := ht.covered hr
      simp only at this
      show s.cTot + (s.insuranceFund + amount) + tally s.usedSlots s.accounts
        (Account.payout s.resolvedPayoutHNum s.resolvedPayoutHDen) ≤ s.vault + amount
      omega
  | clocked slot crank market clock => exact (h.terminal mode').clocked
  | accrued rest fresh live fits accrued =>
      rw [accrued.eq] at mode'; exact absurd (live.symm.trans mode') (by rintro ⟨⟩)
  | settled used reach touched live closing calm scope settled =>
      rw [settled.eq] at mode'; exact absurd (live.symm.trans mode') (by rintro ⟨⟩)
  | slipped legs used reach allowed live leg same scope range pnl =>
      exact absurd (live.symm.trans mode') (by rintro ⟨⟩)
  | traded usedA usedB reachA reachB allowedA allowedB touchedA touchedB live pending closing trading
      syncedA syncedB traded =>
      obtain ⟨s₁, s₂, f, g, hA, hB, rfl⟩ := traded.legs
      rw [hB.eq, hA.eq] at mode'
      exact absurd (live.symm.trans mode') (by rintro ⟨⟩)
  | checked owed sound => exact h.terminal mode'
  | closed allowed used reach touched live pending closing calm closed =>
      obtain ⟨f, hf⟩ := closed.attached
      rw [hf.eq] at mode'; exact absurd (live.symm.trans mode') (by rintro ⟨⟩)
  | deleveraged marks used live pending closing pos fund absorbed marked =>
      exact absurd (live.symm.trans mode') (by rintro ⟨⟩)
  | reset live closing scheduled drained => exact absurd (live.symm.trans mode') (by rintro ⟨⟩)
  | reopened => exact (h.terminal mode').reopened hb
  | materialized allowed reach live le materialized =>
      rw [materialized.eq] at mode'; exact absurd (live.symm.trans mode') (by rintro ⟨⟩)
  | @freed s s' ph i allowed reach charges clean freed =>
      have ht : Terminal s := h.terminal (by
        rw [RiskEngine.swept_eq, freed.eq] at mode'; exact mode')
      exact ht.freed hb freed
  | resolved price live now kDelta allowed rest mode le drained =>
      exact (h.positions mode).seated.resolved hb drained
  | @wiped s ph i used reach mode =>
      show Terminal (s.rebook i (s.accounts i).clearReserve s.totals)
      exact (h.terminal mode).rebook
        ⟨.refl _, id, id, rfl, fun _ hn => hn⟩
  | reconciled used reach mode reconciled => exact (h.terminal mode).reconciled used reconciled
  | captured mode ready first pos => exact (h.terminal mode).captured hb ready first pos
  | paid used reach allowed mode paid => exact (h.terminal mode).paid used paid

/-- Every step keeps the invariant. -/
theorem Good.step (h : Good c) (step : Step sc c l c') : Good c' where
  books := h.books_step step
  timely := h.timely_step step
  balanced := h.balanced_step step
  reserves := h.reserves_step step
  positions := h.positions_step step
  terminal := h.terminal_step step

/-- Every run keeps the invariant. -/
theorem Good.run (h : Good c) (run : Run (Step sc) c l c') : Good c' :=
  run.invariant (fun _ _ _ hc hs => hc.step hs) h

end Percolator
