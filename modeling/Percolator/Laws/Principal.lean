import Percolator.Machine.Frame

/-!
Protected principal.

Nothing that happens to others reaches the capital of a flat account without PnL, and what a touch
does to it only turns capital into paid fee debt. One step keeps the account flat and its capital
plus fee credits, and with it every history in which no operation takes money from the account.
-/

namespace Percolator

variable {s s' : RiskEngine} {sc : Scope} {c c' : Conf} {a a' : Account} {t : Totals} {l : List Event} {i j : Nat} {v : Int}
  {ins : Instruction}

/-- An account without position, PnL or reserve. -/
structure Account.Flat (a : Account) : Prop where
  basis : a.positionBasisQ = 0
  pnl : a.pnl = 0
  reserved : a.reservedPnl = 0

/-- The capital of an account, its fee debt taken off. -/
def Account.principal (a : Account) : Int := a.capital + a.feeCredits

/-- The operations that take money from account `i`, or trade with it. -/
def Instruction.takesFrom : Instruction → Nat → Prop
  | .withdraw idx _ _ _ _ _ _, i => i = idx
  | .executeTrade a b _ _ _ _ _ _ _, i => i = a ∨ i = b
  | .chargeAccountFee idx _ _, i => i = idx
  | .syncAccountFee idx _ _, i => i = idx
  | .closeAccount idx _ _ _ _ _, i => i = idx
  | .reclaimEmptyAccount idx _, i => i = idx
  | .forceCloseResolved idx, i => i = idx
  | .closeResolvedTerminal idx, i => i = idx
  | _, _ => False

/-- The operations that name account `i`, or list it as a candidate. -/
def Instruction.names : Instruction → Nat → Prop
  | .setOwner idx _, i => i = idx
  | .deposit idx _ _, i => i = idx
  | .settleAccount idx _ _ _ _ _, i => i = idx
  | .liquidateAtOracle idx _ _ _ _ _ _, i => i = idx
  | .keeperCrank _ _ candidates _ _ _ _, i => ∃ p ∈ candidates, p.1 = i
  | .convertReleasedPnl idx _ _ _ _ _ _, i => i = idx
  | .reconcileResolved idx, i => i = idx
  | .settleFlatNegativePnl idx _, i => i = idx
  | .depositFeeCredits idx _ _, i => i = idx
  | ins, i => ins.takesFrom i

theorem Instruction.charges_iff : ins.scope.charges i ↔ ins.takesFrom i := by
  cases ins <;> simp [Instruction.scope, Instruction.takesFrom, Scope.single, Scope.none]

theorem Instruction.reach_iff : ins.scope.reach i ↔ ins.names i := by
  cases ins <;> simp [Instruction.scope, Instruction.names, Instruction.takesFrom, Scope.single, Scope.none]

/-! ### Flat accounts -/

namespace Account.Flat

theorem releasedPos (h : a.Flat) : a.releasedPos = 0 := by
  unfold Account.releasedPos
  rw [h.pnl]
  exact Nat.zero_sub _

theorem side (h : a.Flat) : sideOfI128 a.positionBasisQ = none := sideOfI128_eq_none.mpr h.basis

/-- What is booked on a flat account leaves it flat and does not lower its principal. -/
theorem booked (h : (s.accounts i).Flat) (entry : Entry s i a t l) : a.Flat ∧ (s.accounts i).principal ≤ a.principal := by
  obtain ⟨basis, pnl, reserved⟩ := h
  unfold Account.principal
  cases entry with
  | deposited amount cap =>
      refine ⟨⟨basis, pnl, reserved⟩, ?_⟩
      show ((s.accounts i).capital : Int) + _ ≤ (((s.accounts i).capital + amount : Nat) : Int) + (s.accounts i).feeCredits
      omega
  | debtPaid amount cap le =>
      refine ⟨⟨basis, pnl, reserved⟩, ?_⟩
      show ((s.accounts i).capital : Int) + _ ≤ (s.accounts i).capital + ((s.accounts i).feeCredits + amount)
      omega
  | lossPaid pay n le_capital le_tot le_loss full count =>
      -- there is no loss
      have none : pay = 0 := by
        rw [pnl] at le_loss
        exact Nat.le_zero.mp le_loss
      subst none
      refine ⟨⟨basis, ?_, reserved⟩, le_rfl⟩
      show (s.accounts i).pnl + ((0 : Nat) : Int) = 0
      omega
  | feeSwept pay le_capital le_tot le_debt =>
      refine ⟨⟨basis, pnl, reserved⟩, ?_⟩
      show ((s.accounts i).capital : Int) + _ ≤
        (((s.accounts i).capital - pay : Nat) : Int) + ((s.accounts i).feeCredits + pay)
      omega
  | converted x y live pos le le_released le_matured le_tot backed =>
      rw [releasedPos ⟨basis, pnl, reserved⟩] at le_released
      omega
  | warmed r a l live events warm =>
      have same := warm.same
      unfold Account.SameButPnl at same
      have capital : a.capital = (s.accounts i).capital := by rw [same]
      have credits : a.feeCredits = (s.accounts i).feeCredits := by rw [same]
      have seat : a.positionBasisQ = (s.accounts i).positionBasisQ := by rw [same]
      have sum := warm.reserved
      refine ⟨⟨seat.trans basis, warm.pnl_eq.trans pnl, by omega⟩, ?_⟩
      rw [capital, credits]
  | accelerated live fits => exact ⟨⟨basis, pnl, rfl⟩, le_rfl⟩

end Account.Flat

/-- Account `i` is flat, its principal is at least `v`, and no liquidation of it is under way. -/
structure Sheltered (i : Nat) (v : Int) (c : Conf) : Prop where
  used : c.engine.isUsed i = true
  flat : (c.engine.accounts i).Flat
  worth : v ≤ (c.engine.accounts i).principal
  apart : ∀ d q, c.phase.closing ≠ some (i, d, q)

namespace Sheltered

/-- A step that replaces account `j`. -/
theorem put {ph ph' : Phase} (h : Sheltered i v ⟨s, ph⟩) (accounts : s'.accounts = Percolator.put s.accounts j a)
    (used : s'.isUsed = s.isUsed) (closing : ph'.closing = ph.closing)
    (mine : i = j → a.Flat ∧ (s.accounts i).principal ≤ a.principal) : Sheltered i v ⟨s', ph'⟩ := by
  have apart : ∀ d q, ph'.closing ≠ some (i, d, q) := by
    rw [closing]
    exact h.apart
  have inUse : s'.isUsed i = true := by
    rw [used]
    exact h.used
  by_cases here : i = j
  · obtain ⟨flat, worth⟩ := mine here
    have account : s'.accounts i = a := by rw [accounts, here, put_same]
    refine ⟨inUse, ?_, ?_, apart⟩
    · show (s'.accounts i).Flat
      rw [account]
      exact flat
    · show v ≤ (s'.accounts i).principal
      rw [account]
      exact h.worth.trans worth
  · have account : s'.accounts i = s.accounts i := by rw [accounts, put_other _ _ here]
    refine ⟨inUse, ?_, ?_, apart⟩
    · show (s'.accounts i).Flat
      rw [account]
      exact h.flat
    · show v ≤ (s'.accounts i).principal
      rw [account]
      exact h.worth

/-- A step that leaves account `i` alone. -/
theorem same {ph ph' : Phase} (h : Sheltered i v ⟨s, ph⟩) (account : s'.accounts i = s.accounts i)
    (used : s'.isUsed i = s.isUsed i) (apart : ∀ d q, ph'.closing ≠ some (i, d, q)) : Sheltered i v ⟨s', ph'⟩ := by
  refine ⟨used.trans h.used, ?_, ?_, apart⟩
  · show (s'.accounts i).Flat
    rw [account]
    exact h.flat
  · show v ≤ (s'.accounts i).principal
    rw [account]
    exact h.worth

/-- One step shelters the account unless it may charge it. -/
theorem step (h : Sheltered i v c) (step : Step sc c l c') (spared : ¬ sc.charges i) : Sheltered i v c' := by
  cases step with
  | noted | funded | clocked | checked | reset | reopened | resolved | captured => exact h.same rfl rfl h.apart
  | accrued rest fresh live fits accrued => exact h.same (by rw [accrued.eq]) (by rw [accrued.eq]; rfl) h.apart
  | deleveraged => exact h.same rfl rfl (by rintro _ _ ⟨⟩)
  | booked used reach entry =>
      refine h.put rfl rfl rfl ?_
      rintro rfl
      exact h.flat.booked entry
  | charged used reach allowed charge =>
      refine h.put rfl rfl rfl ?_
      rintro rfl
      rcases allowed with charges | ⟨d, q, closing⟩
      · exact absurd charges spared
      · exact absurd closing (h.apart d q)
  | @forgave s ph j a t l used reach calm forgiven =>
      refine h.put rfl rfl rfl ?_
      rintro rfl
      obtain ⟨draw, n, flat, neg, le_fund, reserved, count⟩ := forgiven
      have pnl : (s.accounts i).pnl = 0 := h.flat.pnl
      omega
  | @relabeled s ph j a used reach same slot =>
      refine h.put rfl rfl rfl ?_
      rintro rfl
      unfold Account.SameButLabels at same
      have capital : a.capital = (s.accounts i).capital := by rw [same]
      have credits : a.feeCredits = (s.accounts i).feeCredits := by rw [same]
      have basis : a.positionBasisQ = (s.accounts i).positionBasisQ := by rw [same]
      have pnl : a.pnl = (s.accounts i).pnl := by rw [same]
      have reserved : a.reservedPnl = (s.accounts i).reservedPnl := by rw [same]
      refine ⟨⟨basis.trans h.flat.basis, pnl.trans h.flat.pnl, reserved.trans h.flat.reserved⟩, ?_⟩
      unfold Account.principal
      rw [capital, credits]
  | settled used reach touched live closing calm scope settled =>
      refine h.put (by rw [settled.eq]; exact put_put _ _ _ _) (by rw [settled.eq]; rfl) rfl ?_
      rintro rfl
      have side := settled.side
      rw [h.flat.side] at side
      cases side
  | slipped legs used reach allowed live leg same scope range pnl =>
      refine h.put rfl rfl rfl ?_
      rintro rfl
      exact absurd allowed spared
  | @traded s s' ph a b q oldA oldB after usedA usedB reachA reachB allowedA allowedB touchedA touchedB
      live pending closing trading syncedA syncedB traded =>
      obtain ⟨s₁, s₂, f, g, hA, hB, rfl⟩ := traded.legs
      have apartA : i ≠ a := by
        rintro rfl
        exact spared allowedA
      have apartB : i ≠ b := by
        rintro rfl
        exact spared allowedB
      refine h.same ?_ ?_ h.apart
      · show s₂.accounts i = s.accounts i
        rw [hB.accounts, put_other _ _ apartB, hA.accounts, put_other _ _ apartA]
      · show s₂.isUsed i = s.isUsed i
        rw [hB.isUsed, hA.isUsed]
  | @closed s s' ph j d q old new allowed used reach touched live pending closing calm closed =>
      obtain ⟨f, hf⟩ := closed.attached
      -- a flat account has no position to close
      have other : j ≠ i := by
        rintro rfl
        have eff := closed.eff
        rw [effectivePosQ_flat h.flat.basis] at eff
        have side := closed.side
        rw [← Option.some.inj eff] at side
        cases side
      refine h.same ?_ (by rw [hf.isUsed]) ?_
      · rw [hf.accounts, put_other _ _ other.symm]
      · rintro e p same
        exact other (Prod.mk.inj (Option.some.inj same)).1
  | @materialized s s' ph j slot allowed reach live le materialized =>
      have other : i ≠ j := by
        rintro rfl
        have used : s.isUsed i = true := h.used
        rw [materialized.unused] at used
        cases used
      refine h.same ?_ ?_ h.apart
      · rw [materialized.toSameButSlots.accounts_eq, put_other _ _ other]
      · rw [materialized.toSameButSlots.isUsed materialized.lt, if_neg other]
  | @freed s s' ph j allowed reach charges clean freed =>
      have other : i ≠ j := by
        rintro rfl
        exact spared charges
      have accounts : s'.swept.accounts = s'.accounts := by
        rw [RiskEngine.swept_eq]
        rfl
      have used : s'.swept.isUsed = s'.isUsed := by
        rw [RiskEngine.swept_eq]
        rfl
      refine h.same ?_ ?_ h.apart
      · rw [accounts, freed.toSameButSlots.accounts_eq, put_other _ _ other]
      · rw [used, freed.toSameButSlots.isUsed (isUsed_lt freed.used), if_neg other]
  | wiped used reach mode =>
      refine h.put rfl rfl rfl ?_
      rintro rfl
      exact ⟨⟨h.flat.basis, h.flat.pnl, rfl⟩, le_rfl⟩
  | reconciled used reach mode reconciled =>
      refine h.put (by rw [reconciled.eq]; exact put_put _ _ _ _) (by rw [reconciled.eq]; rfl) rfl ?_
      rintro rfl
      have side := reconciled.side
      rw [h.flat.side] at side
      cases side
  | paid used reach allowed mode paid =>
      refine h.put (by rw [paid.eq]; rfl) (by rw [paid.eq]; rfl) rfl ?_
      rintro rfl
      exact absurd allowed spared

end Sheltered

/-! ### Histories -/

/-- A flat account of an engine at rest. -/
structure Protected (s : RiskEngine) (i : Nat) (v : Int) : Prop where
  used : s.isUsed i = true
  flat : (s.accounts i).Flat
  worth : v ≤ (s.accounts i).principal

theorem Protected.performed {ls : List (Instruction × List Event)} (h : Protected s i v) (good : Good ⟨s, .idle⟩)
    (step : Performed s ls s') (spared : ∀ p ∈ ls, ¬ p.1.takesFrom i) : Protected s' i v := by
  cases step with
  | rolledBack => exact h
  | @committed ins s' l ok =>
      obtain ⟨ph, course, -⟩ := good.committed ok
      have spared : ¬ ins.scope.charges i := by
        rw [Instruction.charges_iff]
        exact spared _ List.mem_cons_self
      have start : Sheltered i v ⟨s, .idle⟩ := ⟨h.used, h.flat, h.worth, by rintro _ _ ⟨⟩⟩
      have sheltered := course.run.invariant (I := Sheltered i v) (fun _ _ _ before step => before.step step spared) start
      exact ⟨sheltered.used, sheltered.flat, sheltered.worth⟩

theorem Protected.history {ls : List (Instruction × List Event)} (h : Protected s i v) (reachable : Reachable s)
    (run : History s ls s') (spared : ∀ p ∈ ls, ¬ p.1.takesFrom i) : Protected s' i v := by
  induction run with
  | refl => exact h
  | tail run last ih =>
      have before := ih fun p member => spared p (List.mem_append_left _ member)
      exact before.performed (reachable.history run).good last fun p member => spared p (List.mem_append_right _ member)

/-- Over any history in which no operation takes money from it, the capital plus fee credits of a flat account
without PnL or reserve never decrease; and an operation that does not name an account leaves it as it is. -/
theorem Reachable.principal_protected (h : Reachable s) (used : s.isUsed i = true)
    (basis : (s.accounts i).positionBasisQ = 0) (pnl : (s.accounts i).pnl = 0) (reserved : (s.accounts i).reservedPnl = 0) :
    (∀ ls s₁ ls' s₂, History s ls s₁ → History s₁ ls' s₂ → (∀ p ∈ ls, ¬ p.1.takesFrom i) →
      (∀ p ∈ ls', ¬ p.1.takesFrom i) →
        ((s₁.accounts i).capital : Int) + (s₁.accounts i).feeCredits ≤
          (s₂.accounts i).capital + (s₂.accounts i).feeCredits) ∧
    ∀ ls s₁ ins l s₂, History s ls s₁ → Performed s₁ [(ins, l)] s₂ → ¬ ins.names i → s₂.accounts i = s₁.accounts i := by
  constructor
  · intro ls s₁ ls' s₂ run run' spared spared'
    have start : Protected s i (s.accounts i).principal := ⟨used, ⟨basis, pnl, reserved⟩, le_rfl⟩
    have middle := start.history h run spared
    have fresh : Protected s₁ i (s₁.accounts i).principal := ⟨middle.used, middle.flat, le_rfl⟩
    exact (fresh.history (h.history run) run' spared').worth
  · intro ls s₁ ins l s₂ run performed unnamed
    have good : Good ⟨s₁, .idle⟩ := (h.history run).good
    cases performed with
    | rolledBack => rfl
    | committed ok =>
        obtain ⟨ph, course, -⟩ := good.committed ok
        refine (course.run.frame (j := i) ?_).1
        rw [Instruction.reach_iff]
        exact unnamed

/-- A market with one depositor. -/
def savedMarket : RiskEngine := performAll sampleMarket [.deposit 1 1000 101]

/-- A touch leaves the depositor its money, and a deposit of another account leaves the depositor alone. -/
theorem savedMarket_protected :
    ((savedMarket.accounts 1).capital : Int) + (savedMarket.accounts 1).feeCredits ≤
      (((Instruction.settleAccount 1 1000 102 0 10 100).run savedMarket).final.accounts 1).capital +
        (((Instruction.settleAccount 1 1000 102 0 10 100).run savedMarket).final.accounts 1).feeCredits ∧
    ((Instruction.deposit 2 500 102).run savedMarket).final.accounts 1 = savedMarket.accounts 1 := by
  obtain ⟨l, settled⟩ := Outcome.eq_ok_of_value (a := ())
    (o := (Instruction.settleAccount 1 1000 102 0 10 100).run savedMarket) (by decide +kernel)
  obtain ⟨l', paid⟩ := Outcome.eq_ok_of_value (a := ()) (o := (Instruction.deposit 2 500 102).run savedMarket)
    (by decide +kernel)
  obtain ⟨grows, alone⟩ := Reachable.principal_protected (i := 1) (sampleMarket_reachable.performAll [.deposit 1 1000 101])
    (by decide +kernel) (by decide +kernel) (by decide +kernel) (by decide +kernel)
  constructor
  · refine grows _ _ _ _ (.refl _) ((Run.refl _).tail (.committed settled)) ?_ ?_
    · intro p member
      cases member
    · intro p member
      rw [List.nil_append, List.mem_singleton] at member
      rw [member]
      exact id
  · refine alone _ _ _ _ _ (.refl _) (.committed paid) ?_
    show ¬ 1 = 2
    decide

end Percolator
