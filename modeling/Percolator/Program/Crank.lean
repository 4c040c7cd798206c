import Percolator.Laws.Atomic
import Percolator.Program.Instruction

/-!
The garbage collection of `process_crank`: it reclaims what it finds eligible and goes
on when the engine refuses, keeping whatever the refused call has written.
-/

namespace Percolator.Program

open Effect

variable {s s' : RiskEngine} {i now : Nat} {l : List Event}

def PROTOCOL_LP_SLOT : Nat := 0
def GC_CLOSE_BUDGET : Nat := 32

/-- The predicate of the `Gc` branch on a slot. -/
def gcEligible (s : RiskEngine) (cursor : Nat) : Prop :=
  s.isUsed cursor = true ∧ (s.accounts cursor).positionBasisQ = 0 ∧ (s.accounts cursor).pnl = 0 ∧
    (s.accounts cursor).reservedPnl = 0 ∧ (s.accounts cursor).schedPresent = false ∧
    (s.accounts cursor).pendingPresent = false ∧
    (s.accounts cursor).capital < s.params.minInitialDeposit

instance : Decidable (gcEligible s i) := by unfold gcEligible; infer_instance

/-- The scan: the engine in the slab, the cursor and the number of slots reclaimed. -/
structure GcScan where
  engine : RiskEngine
  cursor : Nat
  reclaimed : Nat

/-- One turn of the scan; a panic of the engine ends the transaction. -/
def gcTurn (maxAccounts now : Nat) (g : GcScan) : Option GcScan :=
  let cursor := (g.cursor + 1) % max maxAccounts 1
  if cursor = PROTOCOL_LP_SLOT then some { g with cursor }
  else if ¬ gcEligible g.engine cursor then some { g with cursor }
  else match reclaimEmptyAccount cursor now g.engine with
    | .ok _ engine _ => some { engine, cursor, reclaimed := g.reclaimed + 1 }
    | .fault f engine => if f.riskError = none then none else some { g with engine, cursor }

def gcLoop (maxAccounts now : Nat) : Nat → GcScan → Option GcScan
  | 0, g => some g
  | n + 1, g => (gcTurn maxAccounts now g).bind (gcLoop maxAccounts now n)

/-- How a crank ends, if not with an engine that did work. -/
inductive CrankFailure where
  | nothingToDo
  | panic
deriving DecidableEq, Repr

/-- The `Gc` branch of `process_crank` at the clock slot `now`. -/
def processCrankGc (now : Nat) (s : RiskEngine) : Except CrankFailure RiskEngine :=
  match gcLoop s.params.maxAccounts now (min GC_CLOSE_BUDGET s.params.maxAccounts) ⟨s, s.gcCursor, 0⟩ with
  | none => .error .panic
  | some g =>
      if g.reclaimed = 0 then .error .nothingToDo else .ok { g.engine with gcCursor := g.cursor }

/-! ### A refused call -/

/-- An account whose dust was taken and whose debt was forgiven. -/
def Account.dusted (a : Account) : Account := (a.withCapital 0).withFeeCredits (max a.feeCredits 0)

/-- Taking the dust of an account succeeds. -/
theorem reclaimDust_safe (h : Books s) (used : s.isUsed i = true) :
    wp (reclaimDust i) (fun _ s' l' => s' = s.rebook i (Account.dusted (s.accounts i))
      { s.totals with
        cTot := s.cTot - (s.accounts i).capital
        insuranceFund := s.insuranceFund + (s.accounts i).capital } ∧ l' = l) (fun _ _ => False) s l := by
  have hle := h.capital_le used
  have hbacked := h.backed
  obtain ⟨hc, -, hv⟩ := h.bounds
  have fits : checkedAddU128 s.insuranceFund (s.accounts i).capital =
      some (s.insuranceFund + (s.accounts i).capital) := if_pos (by omega)
  simp only [reclaimDust, wp_bind, wp_read, wp_whenever, wp_orErr, wp_update, wp_writeAccount, fits]
  refine ⟨fun _ => ⟨(by rintro ⟨⟩), ?_⟩, fun none => ⟨?_, trivial⟩⟩
  · rintro _ ⟨⟩
    refine wp_mono (setCapital_down hle (Nat.zero_le _) hc) ?_ fun _ _ he => he
    rintro _ _ _ ⟨rfl, rfl⟩
    simp [RiskEngine.rebook, RiskEngine.setAccount, RiskEngine.withInsuranceFund, RiskEngine.totals,
      Account.dusted]
  · have none : (s.accounts i).capital = 0 := by omega
    simp [RiskEngine.rebook, RiskEngine.setAccount, RiskEngine.totals, Account.dusted, none,
      Account.withCapital, Account.withFeeCredits]

/-- The clock of a transaction within the accrual envelope of the market. -/
structure AcceptsClock (s : RiskEngine) (now : Nat) : Prop where
  clock : s.currentSlot ≤ now
  envelope : now ≤ saturatingAddU64 s.lastMarketSlot s.params.maxAccrualDtSlots

/-- In a Live market a slot found eligible is reclaimed. -/
theorem reclaim_total (h : Good ⟨s, .idle⟩) (live : s.marketMode = .live) (accepts : AcceptsClock s now)
    (eligible : gcEligible s i) : wp (reclaimEmptyAccount i now) (fun _ _ _ => True) (fun _ _ => False) s [] := by
  obtain ⟨used, flat, pnl, reserved, sched, pending, dust⟩ := eligible
  obtain ⟨le, within⟩ := accepts
  have credits := (h.books.fee i used).2
  simp only [reclaimEmptyAccount, checkLiveSlot, checkLiveAccrualEnvelope, wp_bind, wp_read, wp_lift, wp_rejectIf,
    wp_update]
  refine ⟨fun other => absurd live other, fun _ => ⟨fun unused => ?_, fun _ => ?_⟩⟩
  · rw [used] at unused
    cases unused
  refine ⟨fun early => absurd early (not_lt.mpr le), fun _ => ⟨fun late => absurd late (not_lt.mpr within), fun _ => ?_⟩⟩
  refine ⟨fun odd => absurd flat odd, fun _ => ⟨fun odd => absurd pnl odd, fun _ => ⟨fun odd => absurd reserved odd, fun _ => ?_⟩⟩⟩
  refine ⟨fun odd => ?_, fun _ => ⟨fun positive => absurd positive (not_lt.mpr credits), fun _ => ?_⟩⟩
  · rw [sched, pending] at odd
    exact odd.elim (fun odd => absurd odd (by decide)) fun odd => absurd odd (by decide)
  refine ⟨fun large => absurd large.1 (not_le.mpr dust), fun _ => ?_⟩
  -- from here on the engine has written, and nothing may fail
  set t := s.withCurrentSlot now with ht
  have h₁ : Course (.single i True False True) ⟨s, .idle⟩ [] t .idle := (Course.start _ h).anchor live le within
  have taken := reclaimDust_safe (l := []) h₁.good.books used
  refine wp_split (wp_mono taken (fun _ _ _ _ => trivial) fun _ _ he => he.elim) fun _ s₂ l₂ hok => ?_
  obtain ⟨hs₂, -⟩ := wp_at taken hok
  obtain ⟨s₃, b₁, b₂, rfl, -⟩ := reclaimDust_spec hok
  have h₃ := h₁.charged used rfl (.inl ⟨rfl, trivial⟩) b₁
  have used₃ : s₃.isUsed i = true := by
    rw [(b₁.sameSeats fun _ _ e => e.1.exact.position).used]; exact used
  have h₂ := h₃.charged used₃ rfl (.inl ⟨rfl, trivial⟩) b₂
  have used₂ : s₂.isUsed i = true := by rw [hs₂]; exact used
  have freeable : (s₂.accounts i).Freeable := by
    have account : s₂.accounts i = Account.dusted (s.accounts i) := by
      rw [hs₂]
      exact put_same _ _ _
    rw [account]
    exact ⟨pnl, reserved, flat, sched, pending, rfl, max_eq_right credits⟩
  have occupied : 0 < s₂.usedSlots.card :=
    Finset.card_pos.mpr ⟨i, RiskEngine.mem_usedSlots.mpr used₂⟩
  have released := h₂.release trivial rfl ⟨rfl, trivial⟩ rfl
  have freed := freeSlot_safe (l := [] ++ []) used₂ freeable (h₂.good.books.numUsed ▸ occupied)
    (h₂.good.books.materialized ▸ occupied)
  refine wp_split (wp_mono freed (fun _ _ _ _ => trivial) fun _ _ he => he.elim) fun _ s₄ l₄ hok₄ => ?_
  obtain ⟨hf, -⟩ := wp_at freed hok₄
  have backed : s₄.insuranceFund ≤ s₄.vault ∧ s₄.vault ≤ U128_MAX := by
    have hbacked := h₂.good.books.backed
    have hbound := h₂.good.books.bounds
    rw [hf.eq]
    exact ⟨(Nat.le_add_left _ _).trans hbacked, hbound.2.2⟩
  refine wp_split (wp_mono (sweepEmptyMarketSurplusToInsurance_total backed.1 backed.2) (fun _ _ _ _ => trivial)
    fun _ _ he => he.elim) fun _ s₅ l₅ hok₅ => ?_
  have h₄ := wp_at released hok₄
  have h₅ := wp_at h₄ hok₅
  exact wp_mono (assertPublicPostconditions_safe h₅.good.books.backed h₅.good.books.vault_le h₅.good.balanced)
    (fun _ _ _ _ => trivial) fun _ _ he => he.elim

/-- On a slot found eligible only the checks before the first write refuse. -/
theorem reclaim_untouched (h : Good ⟨s, .idle⟩) (eligible : gcEligible s i) :
    wp (reclaimEmptyAccount i now) (fun _ _ _ => True) (Untouched s) s [] := by
  by_cases passes : s.marketMode = .live ∧ AcceptsClock s now
  · refine wp_mono (reclaim_total h passes.1 passes.2 eligible) (fun _ _ _ _ => trivial) ?_
    intro _ _ never
    exact never.elim
  · simp only [reclaimEmptyAccount, checkLiveSlot, checkLiveAccrualEnvelope, wp_bind, wp_read, wp_lift, wp_rejectIf,
      Untouched.refl, implies_true, true_and, not_not, not_lt]
    intro live _ le within
    exact absurd ⟨live, le, within⟩ passes

/-! ### The scan -/

/-- A scan that undoes what a refused call has written. -/
def gcTurnAtomic (maxAccounts now : Nat) (g : GcScan) : Option GcScan :=
  let cursor := (g.cursor + 1) % max maxAccounts 1
  if cursor = PROTOCOL_LP_SLOT then some { g with cursor }
  else if ¬ gcEligible g.engine cursor then some { g with cursor }
  else match reclaimEmptyAccount cursor now g.engine with
    | .ok _ engine _ => some { engine, cursor, reclaimed := g.reclaimed + 1 }
    | .fault f _ => if f.riskError = none then none else some { g with cursor }

def gcLoopAtomic (maxAccounts now : Nat) : Nat → GcScan → Option GcScan
  | 0, g => some g
  | n + 1, g => (gcTurnAtomic maxAccounts now g).bind (gcLoopAtomic maxAccounts now n)

/-- From a reachable engine a turn has nothing to undo, and reaches an engine again. -/
theorem gcTurn_eq {maxAccounts : Nat} {now : UInt64} {g : GcScan} (h : Reachable g.engine) :
    gcTurn maxAccounts now.toNat g = gcTurnAtomic maxAccounts now.toNat g ∧
      ∀ g', gcTurn maxAccounts now.toNat g = some g' → Reachable g'.engine := by
  unfold gcTurn gcTurnAtomic
  set cursor := (g.cursor + 1) % max maxAccounts 1
  by_cases lp : cursor = PROTOCOL_LP_SLOT
  · simp only [if_pos lp]
    exact ⟨trivial, by rintro _ ⟨⟩; exact h⟩
  by_cases eligible : gcEligible g.engine cursor
  · simp only [if_neg lp, not_true, if_false, eligible]
    cases run : reclaimEmptyAccount cursor now.toNat g.engine with
    | ok _ engine l =>
        refine ⟨rfl, ?_⟩
        rintro _ ⟨⟩
        exact h.performed (.committed (show (Instruction.reclaimEmptyAccount cursor now).run g.engine = _ from run))
    | fault f engine =>
        by_cases fatal : f.riskError = none
        · simp only [if_pos fatal]
          exact ⟨trivial, by rintro _ ⟨⟩⟩
        · have same : engine = g.engine := wp_sound_fault run (reclaim_untouched h.good eligible) fatal
          simp only [if_neg fatal, same]
          exact ⟨trivial, by rintro _ ⟨⟩; exact h⟩
  · simp only [if_neg lp, eligible, not_false_iff, if_true]
    exact ⟨trivial, by rintro _ ⟨⟩; exact h⟩

/-- The whole scan writes what its successful calls write, and no more. -/
theorem gcLoop_eq {maxAccounts : Nat} {now : UInt64} (n : Nat) {g : GcScan} (h : Reachable g.engine) :
    gcLoop maxAccounts now.toNat n g = gcLoopAtomic maxAccounts now.toNat n g := by
  induction n generalizing g with
  | zero => rfl
  | succ n ih =>
      obtain ⟨same, reach⟩ : gcTurn maxAccounts now.toNat g = gcTurnAtomic maxAccounts now.toNat g ∧
          ∀ g', gcTurn maxAccounts now.toNat g = some g' → Reachable g'.engine := gcTurn_eq h
      unfold gcLoop gcLoopAtomic
      rw [← same]
      cases turn : gcTurn maxAccounts now.toNat g with
      | none => rfl
      | some g' => exact ih (reach g' turn)

/-- An error of the engine that the scan swallows has left the engine as it was. -/
theorem swallowed_error_untouched (h : Reachable s) (now : UInt64) (cursor : Nat)
    (eligible : gcEligible s cursor) {f : Fault}
    (refused : reclaimEmptyAccount cursor now.toNat s = .fault f s') (error : f.riskError ≠ none) : s' = s :=
  wp_sound_fault refused (reclaim_untouched h.good eligible) error

/-- A market with an account that fees have left with dust. -/
def dustyMarket : RiskEngine := performAll sampleMarket [.deposit 1 1000 101, .chargeAccountFee 1 950 101]

/-- Past the accrual envelope the engine refuses to reclaim it. -/
theorem dustyMarket_swallowed_error :
    (reclaimEmptyAccount 1 (500 : UInt64).toNat dustyMarket).final = dustyMarket := by
  have refused := Outcome.eq_fault_of_failure
    (o := reclaimEmptyAccount 1 (500 : UInt64).toNat dustyMarket) (e := .plain (.err .overflow)) (by decide +kernel)
  exact swallowed_error_untouched (sampleMarket_reachable.performAll _) 500 1 (by decide +kernel) refused
    (by rintro ⟨⟩)

end Percolator.Program
