import Percolator.Machine.Course

/-!
The parts that Live instructions share: settling and touching an account,
finalizing the accounts touched, and the resets at the end.
-/

namespace Percolator

open Effect

variable {sc : Scope} {c : Conf} {ctx ctx' : InstructionContext} {l l' : List Event}
  {s s' : RiskEngine} {ph ph' : Phase} {i : Nat} {d : Side}

/-- What the sides show to positions: indices, epoch and multiplier. -/
theorem Account.Synced.congr {a : Account} {sides sides' : Side → SideState} (h : a.Synced sides)
    (hi : ∀ d, (sides' d).indices = (sides d).indices) : a.Synced sides' := fun d hd => by
  rw [hi d]; exact h d hd

theorem Account.Synced.position {a b : Account} {sides : Side → SideState} (h : a.Synced sides)
    (hp : a.SamePosition b) : b.Synced sides := fun d hd => by
  obtain ⟨h1, -, h3, h4, h5⟩ := hp
  rw [h3, h4, h5]
  exact h d (h1 ▸ hd)

theorem Account.Whole.congr {a : Account} {sides sides' : Side → SideState} (h : a.Whole sides)
    (epoch : ∀ d, (sides' d).adlEpoch = (sides d).adlEpoch) (mult : ∀ d, (sides' d).adlMult = (sides d).adlMult) :
    a.Whole sides' := by
  intro d side current
  rw [mult d]
  exact h d side (current.trans (epoch d))

theorem Account.Whole.position {a b : Account} {sides : Side → SideState} (h : a.Whole sides)
    (same : a.SamePosition b) : b.Whole sides := by
  obtain ⟨basis, aBasis, -, -, snap⟩ := same
  intro d side current
  rw [basis, aBasis]
  exact h d (basis ▸ side) (snap ▸ current)

theorem Account.whole_flat {a : Account} {sides : Side → SideState} (h : a.positionBasisQ = 0) :
    a.Whole sides := fun d hd => by rw [h] at hd; cases hd

theorem Account.synced_flat {a : Account} {sides : Side → SideState} (h : a.positionBasisQ = 0) :
    a.Synced sides := fun d hd => by rw [h] at hd; cases hd

theorem Resettled.synced {a a' : Account} {f : Side → Seats} (h : Resettled s d a a' f)
    (hside : sideOfI128 a.positionBasisQ = some d) {sides : Side → SideState}
    (hi : ∀ d, (sides d).indices = (s.sides d).indices) : a'.Synced sides := by
  cases h with
  | kept epoch pos =>
      intro e he
      obtain rfl := Option.some.inj (he.symm.trans hside)
      rw [hi e]
      exact if_pos rfl
  | dusted n epoch zero stored => exact Account.synced_flat rfl
  | stale n m mode epoch stored stale => exact Account.synced_flat rfl

/-- A settled position has not shrunk to dust. -/
theorem Resettled.whole {a a' : Account} {f : Side → Seats} (h : Resettled s d a a' f)
    (hside : sideOfI128 a.positionBasisQ = some d) : a'.Whole s.sides := by
  cases h with
  | kept epoch pos =>
      intro e he _
      obtain rfl := Option.some.inj (he.symm.trans hside)
      exact pos
  | dusted n epoch zero stored => exact Account.whole_flat rfl
  | stale n m mode epoch stored stale => exact Account.whole_flat rfl

theorem Account.synced_attachedTo (a : Account) (sides : Side → SideState) (q : Int) :
    (a.attachedTo sides q).Synced sides := by
  unfold Account.attachedTo
  cases side : sideOfI128 q with
  | none => exact Account.synced_flat rfl
  | some d =>
      intro e he
      have basis : sideOfI128 q = some e := he
      obtain rfl : d = e := Option.some.inj (side.symm.trans basis)
      exact if_pos rfl

/-- An attached position is at the current indices, and nobody's indices moved. -/
theorem Attached.synced {q : Int} {f : Side → Seats} (h : Attached s s' i q f) :
    (s'.accounts i).Synced s'.sides ∧ ∀ d, (s'.sides d).indices = (s.sides d).indices := by
  rw [h.eq]
  refine ⟨?_, fun _ => rfl⟩
  rw [RiskEngine.reseat_accounts, put_same]
  exact ((s.accounts i).synced_attachedTo s.sides q).congr fun _ => rfl

/-! ### Starting -/

/-- A Live instruction begins by accruing the market. -/
theorem Good.accrue {hMin hMax now price : Nat} {rate : Int} (sc : Scope) (h : Good ⟨s, .idle⟩)
    (pair : AdmissionPair s.params hMin hMax) (instant : hMin = 0 → sc.instant) (fits : now ≤ U64_MAX) :
    wp (accrueAndAnchor now price rate) (fun _ s' l => s'.isUsed = s.isUsed ∧
      Between sc ⟨s, .idle⟩ (.newWithAdmission hMin hMax) l s' .idle)
      (fun p => Fault.Sound (.plain p)) s [] := by
  refine wp_plain fun _ s₁ l₁ hok => ?_
  obtain ⟨live, ⟨rfl, hcur, hnow, rfl⟩ | ⟨rfl, hacc⟩⟩ := accrueAndAnchor_spec hok
  · have hclock : Clocked s now s.lastMarketSlot := by
      refine .live live hcur hnow.ge ?_
      unfold saturatingAddU64
      omega
    have hc : Course sc ⟨s, .idle⟩ [] (s.withCurrentSlot now) .idle :=
      (Course.start _ h).quiet (.clocked now s.lastCrankSlot s.lastMarketSlot hclock)
    exact ⟨rfl, hc, live, rfl, rfl, rfl, rfl, List.forall_mem_nil _, pair, instant⟩
  · have hc := (Course.start sc h).step (.accrued Phase.idle_atRest rfl live fits hacc)
    refine ⟨?_, hc, ?_, rfl, rfl, rfl, rfl, List.forall_mem_nil _, ?_, instant⟩
    · rw [hacc.eq]; rfl
    · rw [hacc.eq]; exact live
    · rw [hacc.eq]; exact pair

/-! ### Settling -/

theorem Settled.touchedBy {instant : Prop} {δ : Int} {a' a'' : Account} {t' : Totals} {f : Side → Seats}
    (h : Settled s s' i d instant δ a' t' a'' f) : TouchedBy s s' i := by
  obtain ⟨p1, -⟩ := h.pnl.same.position
  have hposition := h.position
  rw [h.eq]
  refine ⟨?_, ?_, fun j hj => ?_, fun _ => rfl, fun _ => rfl, fun _ => rfl, rfl⟩
  · rw [RiskEngine.reseat_accounts, put_same]
    exact hposition.synced (p1 ▸ h.side) fun _ => rfl
  · rw [RiskEngine.reseat_accounts, put_same]
    exact (hposition.whole (p1 ▸ h.side)).congr (fun _ => rfl) fun _ => rfl
  · rw [RiskEngine.reseat_accounts, put_other _ _ hj, RiskEngine.rebook_accounts, put_other _ _ hj]

theorem TouchedBy.of_flat (h : sideOfI128 (s.accounts i).positionBasisQ = none) : TouchedBy s s i :=
  ⟨Account.synced_flat (sideOfI128_eq_none.mp h), Account.whole_flat (sideOfI128_eq_none.mp h),
    fun _ _ => rfl, fun _ => rfl, fun _ => rfl, fun _ => rfl, rfl⟩

/-- A stale position passes the checks of its settlement. -/
theorem settleStale_sound (hmode : (s.sides d).sideMode = .resetPending)
    (hepoch : checkedAddU64 (s.accounts i).adlEpochSnap 1 = some (s.sides d).adlEpoch)
    (hstale : 0 < (s.sides d).staleAccountCount) :
    wp (settleStale i d ctx) (fun _ _ _ => True) Fault.Sound s l := by
  simp only [settleStale, wp_bind, wp_read, wp_corruptIf, wp_lift, wp_writeAccount, wp_writeSide, wp_pure]
  refine ⟨fun h => absurd hmode h, fun _ => ⟨fun h => absurd hepoch h, fun _ => ?_⟩⟩
  refine wp_plain fun _ _ _ _ => ⟨fun h => absurd h hstale.ne', fun _ => ?_⟩
  exact wp_plain fun _ _ _ _ => wp_plain fun _ _ _ _ => trivial

theorem Positions.settleStale_sound (h : Positions s ph) (books : Books s) (used : s.isUsed i = true)
    (hside : sideOfI128 (s.accounts i).positionBasisQ = some d)
    (hepoch : (s.accounts i).adlEpochSnap ≠ (s.sides d).adlEpoch) :
    wp (settleStale i d ctx) (fun _ _ _ => True) Fault.Sound s l := by
  have hpos := h.position i d used hside
  rcases hpos.epoch with ⟨-, he⟩ | ⟨hmode, he⟩
  · exact absurd he hepoch
  · refine Percolator.settleStale_sound hmode ?_ ?_
    · unfold checkedAddU64
      rw [if_pos (he ▸ (h.side d).epoch_le), he]
    · have hstale := (h.side d).stale
      rw [if_pos hmode] at hstale
      have := books.stored_ne_zero used hside
      omega

/-- Contexts that differ in their sticky accounts agree on the rest. -/
theorem Between.sticky (h : Between sc c ctx l s ph) (hc : ctx.SameButSticky ctx') :
    Between sc c ctx' l s ph := by
  rw [hc]
  exact ⟨h.toCourse, h.live, h.pending, h.closing, h.trading, h.owed, h.members, h.pair, h.instant⟩

/-- The stage goes on to a course that kept what it depends on. -/
theorem Between.carry (h : Between sc c ctx l s ph) (hc : Course sc c l' s' ph')
    (live : s'.marketMode = s.marketMode) (used : s'.isUsed = s.isUsed) (params : s'.params = s.params)
    (pending : ph'.pending = ph.pending) (closing : ph'.closing = ph.closing)
    (trading : ph'.trading = ph.trading) (owed : ph'.owed = ph.owed)
    (touched : ∀ i, i ∈ ph.touched → i ∈ ph'.touched) : Between sc c ctx l' s' ph' := by
  refine ⟨hc, live.trans h.live, pending.trans h.pending, closing.trans h.closing,
    trading.trans h.trading, owed.trans h.owed, fun i hi => ?_, params ▸ h.pair, h.instant⟩
  obtain ⟨h1, h2, h3⟩ := h.members i hi
  exact ⟨by rw [used]; exact h1, h2, touched i h3⟩

theorem Between.rebooked {a' : Account} {t' : Totals} (h : Between sc c ctx l s ph)
    (hc : Course sc c l' (s.rebook i a' t') ph) : Between sc c ctx l' (s.rebook i a' t') ph :=
  h.carry hc rfl rfl rfl rfl rfl rfl rfl fun _ hi => hi

theorem Between.booked (h : Between sc c ctx l s ph) (used : s.isUsed i = true) (reach : sc.reach i)
    (hb : Booked Entry i s s' l') : Between sc c ctx (l ++ l') s' ph := by
  have hc := h.toCourse.booked used reach hb
  rcases hb with ⟨rfl, rfl⟩ | ⟨a', t', rfl, -⟩
  · simpa using h
  · exact h.rebooked hc

theorem Between.charged (h : Between sc c ctx l s ph) (used : s.isUsed i = true) (reach : sc.reach i)
    (allowed : sc.charges i) (hb : Booked Charged i s s' l') : Between sc c ctx (l ++ l') s' ph := by
  have hc := h.toCourse.charged used reach (.inl allowed) hb
  rcases hb with ⟨rfl, rfl⟩ | ⟨a', t', rfl, -⟩
  · simpa using h
  · exact h.rebooked hc

theorem Between.forgave (h : Between sc c ctx l s ph) (used : s.isUsed i = true) (reach : sc.reach i)
    (hb : Booked Forgiven i s s' l') : Between sc c ctx (l ++ l') s' ph := by
  have hc := h.toCourse.forgave used reach h.trading hb
  rcases hb with ⟨rfl, rfl⟩ | ⟨a', t', rfl, -⟩
  · simpa using h
  · exact h.rebooked hc

/-- What every booking of account `i` keeps. -/
theorem Booked.touchedBy {P : RiskEngine → Nat → Account → Totals → List Event → Prop} {s₁ : RiskEngine}
    (hb : Booked P i s₁ s' l') (h : TouchedBy s s₁ i)
    (hp : ∀ a' t', P s₁ i a' t' l' → (s₁.accounts i).SamePosition a') : TouchedBy s s' i := by
  rcases hb with ⟨rfl, rfl⟩ | ⟨a', t', rfl, hP⟩
  · exact h
  · refine ⟨?_, ?_, fun j hj => ?_, h.indices, h.epoch, h.mult, h.used⟩
    · rw [RiskEngine.rebook_accounts, put_same]
      exact h.synced.position (hp a' t' hP)
    · rw [RiskEngine.rebook_accounts, put_same]
      exact h.whole.position (hp a' t' hP)
    · rw [RiskEngine.rebook_accounts, put_other _ _ hj, h.others j hj]

/-- A booking of account `i` before its touch. -/
theorem TouchedBy.booked_first {P : RiskEngine → Nat → Account → Totals → List Event → Prop}
    {s₁ : RiskEngine} (h : TouchedBy s₁ s' i) (hb : Booked P i s s₁ l') : TouchedBy s s' i := by
  rcases hb with ⟨rfl, rfl⟩ | ⟨a', t', rfl, -⟩
  · exact h
  · refine ⟨h.synced, h.whole, fun j hj => (h.others j hj).trans ?_, h.indices, h.epoch, h.mult, h.used⟩
    rw [RiskEngine.rebook_accounts, put_other _ _ hj]

theorem Between.settle (h : Between sc c ctx l s ph) (used : s.isUsed i = true) (reach : sc.reach i)
    (touched : i ∈ ph.touched) :
    wp (settleSideEffectsLive i ctx) (fun ctx' s' l' => ∃ ph', Between sc c ctx' l' s' ph' ∧
      ctx.SameButSticky ctx' ∧ TouchedBy s s' i ∧ ph'.touched = ph.touched) Fault.Sound s l := by
  have hpositions : Positions s ph := h.good.positions h.live
  simp only [settleSideEffectsLive, wp_bind, wp_read]
  cases hs : sideOfI128 (s.accounts i).positionBasisQ with
  | none =>
      simp only [wp_pure]
      exact ⟨ph, h, rfl, .of_flat hs, rfl⟩
  | some d =>
      have hpos := hpositions.position i d used hs
      have hnext : ∀ {ctx'} {s' : RiskEngine} {l' : List Event}, SettleStep s s' i (ctx.admitHMinShared = 0) →
          ctx.SameButSticky ctx' → l' = [] → ∃ ph', Between sc c ctx' (l ++ l') s' ph' ∧
            ctx.SameButSticky ctx' ∧ TouchedBy s s' i ∧ ph'.touched = ph.touched := by
        rintro ctx' s' l' ⟨d, δ, a', t', a'', f, hset⟩ hc rfl
        refine ⟨{ ph with dirty := true }, ?_, hc, hset.touchedBy, rfl⟩
        have hcourse := h.toCourse.step
          (.settled used reach touched h.live h.closing h.trading h.instant hset)
        have heq := hset.eq
        refine (h.carry hcourse ?_ ?_ ?_ rfl rfl rfl rfl fun _ hi => hi).sticky hc <;> rw [heq] <;> rfl
      simp only [wp_bind, wp_corruptIf, wp_ite, wp_lift]
      refine ⟨fun h0 => absurd h0 hpos.basis_pos.ne', fun _ => ⟨fun hepoch => ?_, fun hepoch => ?_⟩⟩
      · refine wp_plain fun ctx' s' l' hok => ?_
        obtain ⟨hset, hc, hl⟩ := settleCurrent_spec hok hs hepoch h.live h.pair
        exact hnext hset hc hl
      · refine wp_split (hpositions.settleStale_sound h.good.books used hs hepoch) fun ctx' s' l' hok => ?_
        obtain ⟨hset, hc, hl⟩ := settleStale_spec hok hs hepoch h.live h.pair
        exact hnext hset hc hl

/-! ### Touching -/

theorem InstructionContext.addTouched_spec (h : ctx.addTouched i = some ctx') :
    ctx' = { ctx with touchedAccounts := ctx'.touchedAccounts } ∧ i ∈ ctx'.touchedAccounts ∧
      (∀ j ∈ ctx.touchedAccounts, j ∈ ctx'.touchedAccounts) ∧
      ∀ j ∈ ctx'.touchedAccounts, j ∈ ctx.touchedAccounts ∨ j = i := by
  unfold InstructionContext.addTouched at h
  split_ifs at h with hc
  · obtain rfl := Option.some.inj h
    exact ⟨rfl, by simpa using hc, fun _ hj => hj, fun _ hj => .inl hj⟩
  · obtain rfl := Option.some.inj h
    exact ⟨rfl, by simp, fun j hj => by simp [hj], fun j hj => by simpa using hj⟩

/-- An account entered into the context of an instruction. -/
theorem Between.noted (h : Between sc c ctx l s ph) (used : s.isUsed i = true) (reach : sc.reach i)
    (hctx : ctx.addTouched i = some ctx') :
    Between sc c ctx' (l ++ [.touched i]) s { ph with touched := i :: ph.touched } := by
  obtain ⟨heq, -, -, hmem⟩ := InstructionContext.addTouched_spec hctx
  have hc := h.toCourse.step (.noted i)
  rw [heq]
  refine ⟨hc, h.live, h.pending, h.closing, h.trading, h.owed, fun j hj => ?_, h.pair, h.instant⟩
  rcases hmem j hj with hj | rfl
  · obtain ⟨h1, h2, h3⟩ := h.members j hj
    exact ⟨h1, h2, List.mem_cons_of_mem _ h3⟩
  · exact ⟨used, reach, List.mem_cons_self⟩

theorem WarmStep.booked (h : WarmStep i s s' l') (live : s.marketMode = .live) : Booked Entry i s s' l' := by
  obtain ⟨a', r, rfl, hl, hw⟩ := h
  exact .inr ⟨_, _, rfl, .warmed r a' _ live hl hw⟩

theorem Accelerated.booked (h : s' = s ∧ l' = [] ∨ Accelerated i s s' l') (live : s.marketMode = .live) :
    Booked Entry i s s' l' := by
  rcases h with h | ⟨rfl, rfl, fits⟩
  · exact .inl h
  · exact .inr ⟨_, _, rfl, .accelerated live fits⟩

theorem validateReserveShape_spec (hok : validateReserveShape i s = .ok () s' l) : s' = s ∧ l = [] := by
  refine wp_sound (Q := fun _ s' l => s' = s ∧ l = []) hok ?_
  simp only [validateReserveShape, wp_bind, wp_read, wp_rejectIf, implies_true, true_and, and_self]

/-- A touch settles an account and everything that follows from it. -/
theorem Between.touch (h : Between sc c ctx l s ph) (reach : sc.reach i) :
    wp (touchAccountLiveLocal i ctx) (fun ctx' s' l' => ∃ ph', Between sc c ctx' l' s' ph' ∧
      ctx'.pendingReset = ctx.pendingReset ∧ i ∈ ctx'.touchedAccounts ∧
      (∀ j ∈ ctx.touchedAccounts, j ∈ ctx'.touchedAccounts) ∧ TouchedBy s s' i) Fault.Sound s l := by
  simp only [touchAccountLiveLocal, wp_bind, wp_read, wp_lift, wp_rejectIf, wp_orErr, wp_emit, wp_expect,
    wp_whenever, wp_pure, Fault.sound_plain, implies_true, true_and, not_not, Bool.not_eq_false]
  intro _ used ctx₁ hctx
  obtain ⟨heq, hi, hsub, -⟩ := InstructionContext.addTouched_spec hctx
  have h₀ := h.noted used reach hctx
  refine wp_plain fun _ s₁ l₁ hok => ?_
  obtain ⟨rfl, rfl⟩ := validateReserveShape_spec hok
  rw [List.append_nil]
  refine wp_plain fun _ s₂ l₂ hok => ?_
  have b₁ := Accelerated.booked (admitOutstandingReserveOnTouch_spec hok) h.live
  have h₁ := h₀.booked used reach b₁
  refine wp_plain fun _ s₃ l₃ hok => ?_
  have b₂ := WarmStep.booked (advanceProfitWarmup_spec hok) h₁.live
  have h₂ := h₁.booked (h₁.members i hi).1 reach b₂
  refine wp_mono (h₂.settle (h₂.members i hi).1 reach List.mem_cons_self) ?_ fun _ _ he => he
  rintro ctx₂ s₄ l₄ ⟨ph₄, h₃, hc, ht, -⟩
  have hi : i ∈ ctx₂.touchedAccounts := by rw [hc]; exact hi
  refine wp_plain fun _ s₅ l₅ hok => ?_
  have b₃ := settleLosses_spec hok
  have h₄ := h₃.booked (h₃.members i hi).1 reach b₃
  have ht := b₃.touchedBy ((ht.booked_first b₂).booked_first b₁) fun _ _ e => e.exact.position
  have hfacts : ctx₂.pendingReset = ctx.pendingReset ∧
      ∀ j ∈ ctx.touchedAccounts, j ∈ ctx₂.touchedAccounts := by
    rw [hc]
    exact ⟨by rw [heq], hsub⟩
  refine fun _ _ => ⟨fun _ => wp_plain fun _ s₆ l₆ hok => ?_, fun _ => ?_⟩
  · have b₄ := resolveFlatNegative_spec hok
    exact ⟨ph₄, h₄.forgave (h₄.members i hi).1 reach b₄, hfacts.1, hi, hfacts.2,
      b₄.touchedBy ht fun _ _ e => e.exact.position⟩
  · exact ⟨ph₄, h₄, hfacts.1, hi, hfacts.2, ht⟩

/-! ### Finalizing the accounts touched -/

/-- Whole conversion takes as much off matured PnL as off the residual. -/
theorem convertInto_gap {x : Nat} (hok : convertInto i x x s = .ok () s' l) :
    s'.backing - s'.pnlMaturedPosTot = s.backing - s.pnlMaturedPosTot := by
  obtain ⟨-, -, -, matured, rfl, -⟩ := convertInto_exact hok
  simp only [RiskEngine.backing, RiskEngine.converted, RiskEngine.rebook, RiskEngine.totals]
  omega

/-- Fee debt paid moves capital to insurance. -/
theorem feeDebtSweep_gap (hfee : -I128_MAX ≤ (s.accounts i).feeCredits)
    (hok : feeDebtSweep i s = .ok () s' l) :
    s'.backing - s'.pnlMaturedPosTot = s.backing - s.pnlMaturedPosTot := by
  obtain ⟨rfl, -, pay⟩ := feeDebtSweep_exact hfee hok
  simp only [RiskEngine.backing, RiskEngine.feeSwept, RiskEngine.rebook, RiskEngine.totals, Account.debtPay] at *
  omega

/-- One account finalized: whole conversion is within the residual, and stays so. -/
theorem Between.finalizeTouched {whole : Bool} (h : Between sc c ctx l s ph)
    (hi : i ∈ ctx.touchedAccounts) (hwhole : whole = true → (s.pnlMaturedPosTot : Int) ≤ s.backing) :
    wp (Percolator.finalizeTouched whole i) (fun _ s' l' => Between sc c ctx l' s' ph ∧
      (whole = true → (s'.pnlMaturedPosTot : Int) ≤ s'.backing)) (fun p => Fault.Sound (.plain p)) s l := by
  obtain ⟨used, reach, -⟩ := h.members i hi
  have hsweep : ∀ {s₁ l₁}, Between sc c ctx l₁ s₁ ph → s₁.isUsed i = true →
      (whole = true → (s₁.pnlMaturedPosTot : Int) ≤ s₁.backing) →
      wp (feeDebtSweep i) (fun _ s' l' => Between sc c ctx l' s' ph ∧
        (whole = true → (s'.pnlMaturedPosTot : Int) ≤ s'.backing))
        (fun p => Fault.Sound (.plain p)) s₁ l₁ := by
    intro s₁ l₁ h₁ used hwhole
    refine wp_plain fun _ s₂ l₂ hok => ⟨h₁.booked used reach
      (feeDebtSweep_spec (h₁.toCourse.fee used) hok), fun hw => ?_⟩
    have := feeDebtSweep_gap (h₁.toCourse.fee used) hok
    have := hwhole hw
    omega
  simp only [Percolator.finalizeTouched, wp_bind, wp_read, wp_whenever]
  refine ⟨fun hc => wp_plain fun _ s₁ l₁ hok => ?_, fun _ => hsweep h used hwhole⟩
  have hgap := convertInto_gap hok
  have hle := hwhole hc.1
  have hb := convertInto_spec hok h.live le_rfl fun hx => by omega
  have h₁ := h.booked used reach hb
  exact hsweep h₁ (h₁.members i hi).1 fun _ => by omega

/-- The accounts touched are finalized. -/
theorem Between.finalize (h : Between sc c ctx l s ph) :
    wp (finalizeTouchedAccountsPostLive ctx) (fun _ s' l' => Between sc c ctx l' s' ph)
      (fun p => Fault.Sound (.plain p)) s l := by
  simp only [finalizeTouchedAccountsPostLive, wp_bind, wp_read]
  set whole := decide (0 < s.pnlMaturedPosTot ∧ s.pnlMaturedPosTot ≤ s.residual) with hw
  have hwhole : whole = true → (s.pnlMaturedPosTot : Int) ≤ s.backing := by
    intro h1
    have := of_decide_eq_true (hw ▸ h1)
    have hback := h.toCourse.backing
    unfold RiskEngine.residual at this
    unfold RiskEngine.backing at *
    omega
  refine wp_mono (wp_forEach (I := fun s' l' => Between sc c ctx l' s' ph ∧
    (whole = true → (s'.pnlMaturedPosTot : Int) ≤ s'.backing)) (fun i hi s l hI => ?_) ⟨h, hwhole⟩)
    (fun _ _ _ hI => hI.1) fun _ _ he => he
  exact hI.1.finalizeTouched ((List.mem_insertionSort _).mp hi) hI.2

/-! ### The resets at the end -/

/-- The open interest of a side without positions is at most its dust. -/
theorem Course.residual_le (h : Course sc c l s ph) (live : s.marketMode = .live)
    (closing : ph.closing = none) (h0 : (s.sides d).storedPosCount = 0) :
    (s.sides d).oiEffQ ≤ (s.sides d).phantomDustBoundQ := by
  have hp : Positions s ph := h.good.positions live
  cases hd : ph.pending d with
  | true => rw [hp.pending d hd]; exact Nat.zero_le _
  | false =>
      have hcov := (hp.cover d hd).ge
      have hcl : ph.closedOn d = 0 := by unfold Phase.closedOn; rw [closing]
      have hbooks : Books s := h.good.books
      rw [hbooks.shares_zero h0, hcl] at hcov
      simpa using hcov

/-- No check of the dust clearance fails but the sum of the two bounds. -/
theorem Course.clearDust (h : Course sc c l s ph) (live : s.marketMode = .live)
    (closing : ph.closing = none) :
    wp (Percolator.clearDust ctx) (fun _ _ _ => True) Fault.Sound s l := by
  have hbalanced : (s.sides .long).oiEffQ = (s.sides .short).oiEffQ := h.good.balanced
  have hclear : ∀ {residual : Bool} {bound}, (s.sides .long).oiEffQ ≤ bound →
      wp (clearResidual ctx residual bound) (fun _ _ _ => True) Fault.Sound s l := by
    intro residual bound hle
    simp only [clearResidual, wp_bind, wp_read, wp_ite, wp_corruptIf, wp_lift, wp_writeSide, wp_pure,
      implies_true, and_true]
    exact fun _ => ⟨fun hne => absurd hbalanced hne, fun _ => fun hlt => absurd hle (not_le.mpr hlt)⟩
  simp only [Percolator.clearDust, wp_bind, wp_read, wp_ite, wp_corruptIf, wp_pure, implies_true, and_true]
  refine ⟨fun h0 => ⟨fun hsum => hsum, fun _ => hclear ?_⟩, fun _ => ⟨fun h0 => hclear ?_, fun _ h0 => hclear ?_⟩⟩
  · exact (h.residual_le live closing h0.1).trans (Nat.le_add_right _ _)
  · exact h.residual_le live closing h0
  · exact hbalanced ▸ h.residual_le live closing h0

/-- The phase after the resets. -/
def Phase.settledDown (ph : Phase) : Phase := { ph with dirty := false, pending := fun _ => false }

/-- What the resets leave: sides without a reset to come, and settled positions settled. -/
structure ResetTo (s s' : RiskEngine) : Prop where
  eq : s' = s.withSides s'.sides
  synced : ∀ a : Account, (∀ d, sideOfI128 a.positionBasisQ = some d → PositionOk (s.sides d) a) →
    a.Synced s.sides → a.Synced s'.sides
  whole : ∀ a : Account, (∀ d, sideOfI128 a.positionBasisQ = some d → PositionOk (s.sides d) a) →
    a.Whole s.sides → a.Whole s'.sides

/-- A position of the epoch after a reset was of the epoch before it, and the multiplier stayed. -/
theorem SideState.finalized_current {v : SideState} {e : Nat} (oi : Nat) {mark : Bool}
    (epoch : v.sideMode ≠ .resetPending ∧ e = v.adlEpoch ∨ v.sideMode = .resetPending ∧ e + 1 = v.adlEpoch)
    (current : e = ((v.withOi oi).finalized mark).adlEpoch) :
    e = v.adlEpoch ∧ ((v.withOi oi).finalized mark).adlMult = v.adlMult := by
  unfold SideState.finalized at current ⊢
  rw [SideState.reopened_eq] at current ⊢
  split_ifs at current ⊢ with drains
  · have next : e = v.adlEpoch + 1 := current
    omega
  · exact ⟨current, rfl⟩

/-- A reset keeps the indices of a position that can be settled. -/
theorem SideState.finalized_indices {v : SideState} {e : Nat} (oi : Nat) {mark : Bool}
    (epoch : v.sideMode ≠ .resetPending ∧ e = v.adlEpoch ∨ v.sideMode = .resetPending ∧ e + 1 = v.adlEpoch) :
    ((v.withOi oi).finalized mark).indices e = v.indices e := by
  unfold SideState.finalized
  split_ifs with hd
  · obtain ⟨-, he⟩ | ⟨hm, -⟩ := epoch
    · rw [SideState.reopened_eq]
      unfold SideState.indices SideState.drained
      simp only [SideState.withOi_adlEpoch, SideState.withOi_adlCoeff, SideState.withOi_fNum, he,
        if_true]
      rw [if_neg (by omega)]
    · exact absurd hm hd.2
  · rw [SideState.reopened_eq]
    rfl

/-- The resets at the end of an instruction. -/
theorem Course.resets (h : Course sc c l s ph) (live : s.marketMode = .live)
    (closing : ph.closing = none) (pending : ctx.pendingReset = ph.pending) :
    wp (endOfInstructionResets ctx) (fun _ s' l' => Course sc c l' s' ph.settledDown ∧ ResetTo s s')
      Fault.Sound s l := by
  have hsound : wp (scheduleEndOfInstructionResets ctx) (fun _ _ _ => True) Fault.Sound s l := by
    simp only [scheduleEndOfInstructionResets, wp_bind, wp_read, wp_pure]
    exact h.clearDust live closing
  simp only [endOfInstructionResets, wp_bind, wp_lift]
  refine wp_split hsound fun ctx' s₁ l₁ hok => wp_plain fun _ s₂ l₂ hok' => ?_
  obtain ⟨oi, rfl, rfl, hsched⟩ := scheduleEndOfInstructionResets_spec hok
  obtain ⟨rfl, rfl, hdrained⟩ := finalizeEndOfInstructionResets_spec hok'
  rw [pending] at hsched
  rw [List.append_nil]
  refine ⟨h.step (.reset live closing hsched hdrained), rfl, fun a hpos ha d hd => ?_, fun a hpos ha d hd current => ?_⟩
  · exact (SideState.finalized_indices _ (hpos d hd).epoch).trans (ha d hd)
  · obtain ⟨same, mult⟩ := SideState.finalized_current _ (hpos d hd).epoch current
    show 0 < a.positionBasisQ.natAbs * (((s.sides d).withOi (oi d)).finalized _).adlMult / a.adlABasis
    rw [mult]
    exact ha d hd same

/-- A Live instruction after its last part. -/
theorem Between.finish (h : Between sc c ctx l s ph) :
    wp (endOfInstructionResets ctx) (fun _ s' l' => Course sc c l' s' ph.settledDown ∧ ResetTo s s')
      Fault.Sound s l :=
  h.toCourse.resets h.live h.closing h.pending.symm

theorem Between.settledDown_atRest (h : Between sc c ctx l s ph) : ph.settledDown.AtRest :=
  ⟨rfl, fun _ => rfl, h.closing, h.trading, h.owed⟩

end Percolator
