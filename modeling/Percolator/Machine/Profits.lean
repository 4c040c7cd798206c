import Percolator.Machine.Frame

/-!
Profits: while a market is Live no PnL exceeds the cap of an account, so that the
equity of every account is a value of its type.
-/

namespace Percolator

variable {s s' : RiskEngine} {sc : Scope} {c c' : Conf} {i : Nat} {a a' : Account} {t' : Totals}
  {l : List Event}

/-- While the market is Live, the PnL of every account in use is within its cap. -/
def Profits (s : RiskEngine) : Prop :=
  s.marketMode = .live → ∀ i, s.isUsed i = true → (s.accounts i).pnl ≤ MAX_ACCOUNT_POSITIVE_PNL

/-- A replaced account within the cap keeps the profits within theirs. -/
theorem Profits.put (h : Profits s) (mode : s'.marketMode = s.marketMode) (used : s'.isUsed = s.isUsed)
    (accounts : s'.accounts = Percolator.put s.accounts i a)
    (within : s.marketMode = .live → a.pnl ≤ MAX_ACCOUNT_POSITIVE_PNL) : Profits s' := by
  intro live j hj
  rw [mode] at live
  rw [used] at hj
  rw [accounts, put_apply]
  split_ifs
  · exact within live
  · exact h live j hj

theorem Profits.congr (h : Profits s) (mode : s'.marketMode = s.marketMode) (used : s'.isUsed = s.isUsed)
    (accounts : s'.accounts = s.accounts) : Profits s' := by
  intro live j hj
  rw [accounts]
  exact h (mode ▸ live) j (by rw [← used]; exact hj)

/-- No movement of money lifts PnL above zero or above what it was. -/
theorem Entry.pnl_le (h : Entry s i a' t' l) : a'.pnl ≤ max (s.accounts i).pnl 0 := by
  cases h with
  | lossPaid pay n le_capital le_tot le_loss full count =>
      simp only [Account.withPnl_pnl]
      omega
  | converted x y live pos le le_released le_matured le_tot backed =>
      simp only [Account.withCapital_pnl, Account.withPnl_pnl]
      omega
  | warmed r a' l live events warm =>
      rw [warm.pnl_eq]
      exact le_max_left _ _
  | deposited | debtPaid | feeSwept | accelerated => exact le_max_left _ _

theorem Attached.profits {q : Int} {f : Side → Seats} (h : Profits s) (used : s.isUsed i = true)
    (ha : Attached s s' i q f) : Profits s' := by
  refine h.put (by rw [ha.eq]; rfl) ha.isUsed ha.accounts fun live => ?_
  rw [((s.accounts i).attachedTo_money s.sides q).2.1]
  exact h live i used

/-- Every step keeps the profits within the cap. -/
theorem Profits.step (h : Profits c.engine) (step : Step sc c l c') : Profits c'.engine := by
  have nonneg : (0 : Int) ≤ MAX_ACCOUNT_POSITIVE_PNL := by decide
  cases step with
  | noted | funded | clocked | checked | deleveraged | reset | reopened | captured =>
      exact h.congr rfl rfl rfl
  | accrued rest fresh live fits accrued => rw [accrued.eq]; exact h.congr rfl rfl rfl
  | booked used reach entry =>
      refine h.put rfl rfl rfl fun live => entry.pnl_le.trans ?_
      exact max_le (h live _ used) nonneg
  | charged used reach allowed charge =>
      exact h.put rfl rfl rfl fun live => charge.pnl ▸ h live _ used
  | forgave used reach calm forgiven =>
      exact h.put rfl rfl rfl fun _ => forgiven.pnl ▸ nonneg
  | relabeled used reach same slot =>
      refine h.put rfl rfl rfl fun live => ?_
      rw [same]
      exact h live _ used
  | settled used reach touched live closing calm scope settled =>
      refine h.put (by rw [settled.eq]; rfl) (by rw [settled.eq]; rfl)
        (by rw [settled.eq]; exact put_put _ _ _ _) fun _ => ?_
      rw [settled.position.money.2.1, settled.pnl.pnl_eq]
      exact settled.pnl.within
  | slipped legs used reach allowed live leg same scope range pnl =>
      exact h.put rfl rfl rfl fun _ => pnl.pnl_eq ▸ pnl.within
  | traded usedA usedB reachA reachB allowedA allowedB touchedA touchedB live pending closing trading
      syncedA syncedB traded =>
      obtain ⟨s₁, s₂, f, g, hA, hB, rfl⟩ := traded.legs
      have h₁ := hA.profits h usedA
      have h₂ := hB.profits h₁ (by rw [hA.isUsed]; exact usedB)
      exact h₂.congr rfl rfl rfl
  | closed allowed used reach touched live pending closing calm closed =>
      obtain ⟨f, hf⟩ := closed.attached
      exact hf.profits h used
  | @materialized s s' ph i slot allowed reach live le materialized =>
      intro _ j hj
      have hused := materialized.toSameButSlots.isUsed materialized.lt
      show (s'.accounts j).pnl ≤ _
      rw [materialized.toSameButSlots.accounts_eq, put_apply]
      split_ifs with hji
      · exact nonneg
      · refine h live j ?_
        have : s'.isUsed j = true := hj
        rwa [hused, if_neg hji] at this
  | @freed s s' ph i allowed reach charges clean freed =>
      have hused := freed.toSameButSlots.isUsed (isUsed_lt freed.used)
      have hmode : s'.marketMode = s.marketMode := by rw [freed.eq]
      rw [RiskEngine.swept_eq]
      intro live j hj
      have hj : s'.isUsed j = true := hj
      rw [hused] at hj
      split_ifs at hj with hji
      show (s'.accounts j).pnl ≤ _
      rw [freed.toSameButSlots.accounts_eq, put_other _ _ hji]
      exact h (hmode ▸ live) j hj
  | resolved price live now kDelta allowed rest mode le drained => rintro ⟨⟩
  | wiped used reach mode => exact h.put rfl rfl rfl fun live => absurd (live.symm.trans mode) (by rintro ⟨⟩)
  | @reconciled s s' ph i d v t n m used reach mode reconciled =>
      intro live
      have : s'.marketMode = s.marketMode := by rw [reconciled.eq]; rfl
      exact absurd (live.symm.trans (this.trans mode)) (by rintro ⟨⟩)
  | @paid s s' ph i y used reach allowed mode paid =>
      intro live
      have : s'.marketMode = s.marketMode := by rw [paid.eq]; rfl
      exact absurd (live.symm.trans (this.trans mode)) (by rintro ⟨⟩)

/-- A run keeps the profits within the cap. -/
theorem Run.profits (run : Run (Step sc) c l c') (h : Profits c.engine) : Profits c'.engine :=
  run.invariant (I := fun c => Profits c.engine) (fun _ _ _ hp st => hp.step st) h

theorem Initial.profits (h : Initial s) : Profits s := by
  obtain ⟨s₀, p, slot, price, l, hok⟩ := h
  obtain ⟨-, -, -, rfl⟩ := initInPlace_spec hok
  intro _ i hi
  rw [freshEngine_isUsed] at hi
  cases hi

/-- Every reachable state has its profits within the cap. -/
theorem Reachable.profits (h : Reachable s) : Profits s := by
  obtain ⟨s₀, l, initial, history⟩ := h
  refine (history.invariant (I := fun s => Profits s ∧ Good ⟨s, .idle⟩) ?_
    ⟨initial.profits, initial.good⟩).1
  rintro s₁ ls s₂ ⟨hp, hg⟩ performed
  refine ⟨?_, hg.performed performed⟩
  cases performed with
  | committed ok =>
      obtain ⟨ph, course, -⟩ := hg.committed ok
      exact course.run.profits hp
  | rolledBack fault => exact hp

/-- The equity of an account in use is an `i128`. -/
theorem Profits.equity_le (h : Profits s) (books : Books s) (live : s.marketMode = .live)
    (used : s.isUsed i = true) : accountEquityMaintRawWide (s.accounts i) ≤ I128_MAX := by
  have capital : (s.accounts i).capital ≤ s.cTot := by
    rw [books.cTot]
    exact le_tally (f := Account.capital) (t := s.accounts) (RiskEngine.mem_usedSlots.mpr used)
  have pnl := h live i used
  have backed := books.backed
  have vault := books.vault_le
  unfold accountEquityMaintRawWide
  simp only [MAX_ACCOUNT_POSITIVE_PNL, MAX_VAULT_TVL, I128_MAX] at *
  omega

end Percolator
