import Percolator.Machine.Runs

/-!
What one step can do to one slot, and that a slot out of reach stays as it is.
-/

namespace Percolator

variable {s s' : RiskEngine} {sc : Scope} {c c' : Conf} {l : List Event} {i j : Nat}

/-- What a step can do to slot `j`. -/
inductive SlotMove (sc : Scope) (s s' : RiskEngine) (j : Nat) : Prop
  | kept (account : s'.accounts j = s.accounts j) (used : s'.isUsed j = s.isUsed j)
  | written (reach : sc.reach j) (before : s.isUsed j = true) (after : s'.isUsed j = true)
  | taken (reach : sc.reach j) (allowed : sc.slots) (live : s.marketMode = .live)
      (before : s.isUsed j = false) (after : s'.isUsed j = true)
  | given (reach : sc.reach j) (allowed : sc.slots) (charges : sc.charges j) (before : s.isUsed j = true)
      (after : s'.isUsed j = false) (empty : s'.accounts j = emptyAccount)

/-- A step that replaces the used account `i`. -/
theorem SlotMove.put {a : Account} (reach : sc.reach i) (used : s.isUsed i = true)
    (haccounts : s'.accounts = Percolator.put s.accounts i a) (hused : s'.isUsed = s.isUsed) :
    SlotMove sc s s' j := by
  by_cases hji : j = i
  · subst hji
    exact .written reach used (by rw [hused]; exact used)
  · exact .kept (by rw [haccounts, put_other _ _ hji]) (by rw [hused])

/-- A step that leaves the accounts and their slots alone. -/
theorem SlotMove.same (haccounts : s'.accounts = s.accounts) (hused : s'.isUsed = s.isUsed) :
    SlotMove sc s s' j := .kept (by rw [haccounts]) (by rw [hused])

theorem Attached.accounts {q : Int} {f : Side → Seats} (h : Attached s s' i q f) :
    s'.accounts = put s.accounts i ((s.accounts i).attachedTo s.sides q) := by rw [h.eq]; rfl

theorem Attached.isUsed {q : Int} {f : Side → Seats} (h : Attached s s' i q f) : s'.isUsed = s.isUsed := by
  rw [h.eq]; rfl

/-- What a step can do to a slot. -/
theorem Step.slotMove (step : Step sc c l c') (j : Nat) : SlotMove sc c.engine c'.engine j := by
  cases step with
  | noted | funded | clocked | checked | deleveraged | reset | reopened | resolved | captured =>
      exact .same rfl rfl
  | booked used reach entry => exact .put reach used rfl rfl
  | charged used reach allowed charge => exact .put reach used rfl rfl
  | forgave used reach calm forgiven => exact .put reach used rfl rfl
  | relabeled used reach same slot => exact .put reach used rfl rfl
  | accrued rest fresh live fits accrued => exact .same (by rw [accrued.eq]) (by rw [accrued.eq]; rfl)
  | settled used reach touched live closing calm scope settled =>
      exact .put reach used (by rw [settled.eq]; exact put_put _ _ _ _) (by rw [settled.eq]; rfl)
  | slipped legs used reach allowed live leg same scope range pnl => exact .put reach used rfl rfl
  | @traded s s' ph a b q oldA oldB after usedA usedB reachA reachB allowedA allowedB touchedA touchedB
      live pending closing trading syncedA syncedB traded =>
      obtain ⟨s₁, s₂, f, g, hA, hB, rfl⟩ := traded.legs
      by_cases hb : j = b
      · subst hb
        exact .written reachB usedB (by show s₂.isUsed j = true; rw [hB.isUsed, hA.isUsed]; exact usedB)
      · have hkeep : s₂.accounts j = s₁.accounts j := by rw [hB.accounts, put_other _ _ hb]
        have hmove : SlotMove sc s s₁ j := .put reachA usedA hA.accounts hA.isUsed
        by_cases ha : j = a
        · subst ha
          exact .written reachA usedA (by show s₂.isUsed j = true; rw [hB.isUsed, hA.isUsed]; exact usedA)
        · refine .kept (hkeep.trans (by rw [hA.accounts, put_other _ _ ha])) ?_
          show s₂.isUsed j = s.isUsed j
          rw [hB.isUsed, hA.isUsed]
  | closed allowed used reach touched live pending closing calm closed =>
      obtain ⟨f, hf⟩ := closed.attached
      exact .put reach used hf.accounts hf.isUsed
  | @materialized s s' ph i slot allowed reach live le materialized =>
      have hused := materialized.toSameButSlots.isUsed materialized.lt
      by_cases hji : j = i
      · subst hji
        exact .taken reach allowed live materialized.unused (by rw [hused, if_pos rfl])
      · refine .kept ?_ (by rw [hused, if_neg hji])
        rw [materialized.toSameButSlots.accounts_eq, put_other _ _ hji]
  | @freed s s' ph i allowed reach charges clean freed =>
      have hused := freed.toSameButSlots.isUsed (isUsed_lt freed.used)
      have hacc : s'.swept.accounts = s'.accounts := by rw [RiskEngine.swept_eq]; rfl
      have hus : s'.swept.isUsed = s'.isUsed := by rw [RiskEngine.swept_eq]; rfl
      by_cases hji : j = i
      · subst hji
        refine .given reach allowed charges freed.used ?_ ?_
        · rw [hus, hused, if_pos rfl]
        · rw [hacc, freed.toSameButSlots.accounts_eq, put_same]
      · refine .kept ?_ ?_
        · rw [hacc, freed.toSameButSlots.accounts_eq, put_other _ _ hji]
        · rw [hus, hused, if_neg hji]
  | wiped used reach mode => exact .put reach used rfl rfl
  | reconciled used reach mode reconciled =>
      exact .put reach used (by rw [reconciled.eq]; exact put_put _ _ _ _) (by rw [reconciled.eq]; rfl)
  | paid used reach allowed mode paid => exact .put reach used (by rw [paid.eq]; rfl) (by rw [paid.eq]; rfl)

/-! ### Slots out of reach -/

/-- A run does not change a slot out of its reach. -/
theorem Run.frame (run : Run (Step sc) c l c') (out : ¬ sc.reach j) :
    c'.engine.accounts j = c.engine.accounts j ∧ c'.engine.isUsed j = c.engine.isUsed j := by
  refine run.invariant (I := fun d => d.engine.accounts j = c.engine.accounts j ∧
    d.engine.isUsed j = c.engine.isUsed j) (fun d l d' hd step => ?_) ⟨rfl, rfl⟩
  cases step.slotMove j with
  | kept account used => exact ⟨account.trans hd.1, used.trans hd.2⟩
  | written reach | taken reach | given reach => exact absurd reach out

/-- A run that may not take principal gives up no slot. -/
theorem Run.stays_used (run : Run (Step sc) c l c') (keep : ¬ sc.charges j) (used : c.engine.isUsed j = true) :
    c'.engine.isUsed j = true := by
  refine run.invariant (I := fun d => d.engine.isUsed j = true) (fun d l d' hd step => ?_) used
  cases step.slotMove j with
  | kept account same => exact same ▸ hd
  | written reach before after => exact after
  | taken reach allowed live before after => exact after
  | given reach allowed charges => exact absurd charges keep

/-- No slot is taken in a resolved market. -/
theorem Step.isUsed_of_resolved (step : Step sc c l c') (mode : c.engine.marketMode = .resolved)
    (used : c'.engine.isUsed j = true) : c.engine.isUsed j = true := by
  cases step.slotMove j with
  | kept account same => exact same ▸ used
  | written reach before after => exact before
  | taken reach allowed live => exact absurd (mode.symm.trans live) (by rintro ⟨⟩)
  | given reach allowed charges before after empty => exact before

/-! ### What a market keeps -/

/-- The parameters, the size of the slab and the mode. -/
structure SameMarket (s s' : RiskEngine) : Prop where
  params : s'.params = s.params
  maxAccounts : s'.maxAccounts = s.maxAccounts
  mode : s'.marketMode = s.marketMode

theorem SameMarket.refl (s : RiskEngine) : SameMarket s s := ⟨rfl, rfl, rfl⟩

theorem SameMarket.trans {t : RiskEngine} (h : SameMarket s s') (h' : SameMarket s' t) : SameMarket s t :=
  ⟨h'.params.trans h.params, h'.maxAccounts.trans h.maxAccounts, h'.mode.trans h.mode⟩

theorem Attached.sameMarket {q : Int} {f : Side → Seats} (h : Attached s s' i q f) : SameMarket s s' := by
  rw [h.eq]
  exact ⟨rfl, rfl, rfl⟩

theorem SameButSlots.sameMarket {u : Bool} {a : Account} (h : SameButSlots s s' i u a) : SameMarket s s' := by
  rw [h.eq]
  exact ⟨rfl, rfl, rfl⟩

/-- Only a resolution changes the mode of a market, and only of a Live one. -/
theorem Step.market (step : Step sc c l c') : SameMarket c.engine c'.engine ∨
    sc.resolves ∧ c.engine.marketMode = .live ∧ c'.engine.marketMode = .resolved := by
  cases step with
  | noted | booked | charged | forgave | relabeled | funded | clocked | slipped | checked | deleveraged | reset |
      reopened | wiped | captured => exact .inl ⟨rfl, rfl, rfl⟩
  | accrued rest fresh live fits accrued =>
      rw [accrued.eq]
      exact .inl ⟨rfl, rfl, rfl⟩
  | settled used reach touched live closing calm scope settled =>
      rw [settled.eq]
      exact .inl ⟨rfl, rfl, rfl⟩
  | @traded s s' ph a b q oldA oldB after usedA usedB reachA reachB allowedA allowedB touchedA touchedB
      live pending closing trading syncedA syncedB traded =>
      obtain ⟨s₁, s₂, f, g, hA, hB, rfl⟩ := traded.legs
      exact .inl ((hA.sameMarket.trans hB.sameMarket).trans ⟨rfl, rfl, rfl⟩)
  | closed allowed used reach touched live pending closing calm closed =>
      obtain ⟨f, hf⟩ := closed.attached
      exact .inl hf.sameMarket
  | materialized allowed reach live le materialized => exact .inl materialized.sameMarket
  | @freed s s' ph i allowed reach charges clean freed =>
      refine .inl (freed.sameMarket.trans ?_)
      rw [RiskEngine.swept_eq]
      exact ⟨rfl, rfl, rfl⟩
  | resolved price live now kDelta allowed rest mode => exact .inr ⟨allowed, mode, rfl⟩
  | reconciled used reach mode reconciled =>
      rw [reconciled.eq]
      exact .inl ⟨rfl, rfl, rfl⟩
  | paid used reach allowed mode paid =>
      rw [paid.eq]
      exact .inl ⟨rfl, rfl, rfl⟩

theorem Step.sameMarket (step : Step sc c l c') (stays : ¬ sc.resolves) : SameMarket c.engine c'.engine := by
  rcases step.market with same | ⟨resolves, -, -⟩
  · exact same
  · exact absurd resolves stays

/-- A resolved market never turns Live. -/
theorem Step.live_before (step : Step sc c l c') (live : c'.engine.marketMode = .live) :
    c.engine.marketMode = .live := by
  rcases step.market with same | ⟨-, mode, -⟩
  · exact same.mode.symm.trans live
  · exact mode

theorem Good.committed_sameMarket {ins : Instruction} (h : Good ⟨s, .idle⟩) (stays : ¬ ins.scope.resolves)
    (ok : ins.run s = .ok () s' l) : SameMarket s s' := by
  obtain ⟨ph, course, -⟩ := h.committed ok
  exact course.run.invariant (I := fun c => SameMarket s c.engine)
    (fun _ _ _ same step => same.trans (step.sameMarket stays)) (.refl s)

/-! ### Slots that are not in use -/

/-- A slot that is not in use holds an empty account. -/
def Vacant (s : RiskEngine) : Prop := ∀ j, s.isUsed j = false → s.accounts j = emptyAccount

theorem Vacant.step (h : Vacant c.engine) (step : Step sc c l c') : Vacant c'.engine := by
  intro j hj
  cases step.slotMove j with
  | kept account used => exact account.trans (h j (used ▸ hj))
  | written reach before after => exact absurd (after.symm.trans hj) (by rintro ⟨⟩)
  | taken reach allowed live before after => exact absurd (after.symm.trans hj) (by rintro ⟨⟩)
  | given reach allowed charges before after empty => exact empty

theorem Vacant.performed {ls : List (Instruction × List Event)} (h : Vacant s) (hg : Good ⟨s, .idle⟩)
    (hp : Performed s ls s') : Vacant s' := by
  cases hp with
  | committed ok =>
      obtain ⟨ph, course, rest⟩ := hg.committed ok
      exact course.run.invariant (I := fun c => Vacant c.engine) (fun _ _ _ hv st => hv.step st) h
  | rolledBack fault => exact h

theorem Initial.vacant (h : Initial s) : Vacant s := by
  obtain ⟨s₀, p, slot, price, l, hok⟩ := h
  obtain ⟨-, -, -, rfl⟩ := initInPlace_spec hok
  exact fun _ _ => rfl

theorem Reachable.vacant (h : Reachable s) : Vacant s := by
  obtain ⟨s₀, l, initial, history⟩ := h
  exact (history.invariant (I := fun s => Vacant s ∧ Good ⟨s, .idle⟩)
    (fun _ _ _ hi hp => ⟨hi.1.performed hi.2 hp, hi.2.performed hp⟩) ⟨initial.vacant, initial.good⟩).1

end Percolator
