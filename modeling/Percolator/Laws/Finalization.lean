import Percolator.Laws.Order
import Percolator.Laws.Payouts
import Percolator.Machine.Profits

/-!
Finalization: converting and sweeping the touched accounts of an instruction under one
snapshot of the haircut ends as it does one account at a time, in every order, each with
a snapshot of its own.

A whole conversion takes as much off matured PnL as off the residual and a sweep takes
nothing off either, so that no account changes whether the market is whole; a market
that is not converts nothing.
-/

namespace Percolator

open Effect

variable {s s' : RiskEngine} {i j : Nat} {whole : Bool} {l : List Event} {ph : Phase} {sc : Scope} {c : Conf}

/-! ### One account -/

/-- What the finalization of an account converts. -/
def Account.convertible (whole : Bool) (a : Account) : Nat :=
  if whole = true ∧ a.positionBasisQ = 0 ∧ 0 < a.pnl then a.releasedPos else 0

/-- The engine after account `i` is finalized. -/
def RiskEngine.finalizedAs (whole : Bool) (s : RiskEngine) (i : Nat) : RiskEngine :=
  (s.converted i ((s.accounts i).convertible whole) ((s.accounts i).convertible whole)).feeSwept i

/-- Whether matured PnL is within the residual, as finalization takes it. -/
def RiskEngine.isWhole (s : RiskEngine) : Bool :=
  decide (0 < s.pnlMaturedPosTot ∧ s.pnlMaturedPosTot ≤ s.residual)

theorem RiskEngine.converted_zero (s : RiskEngine) (i : Nat) : s.converted i 0 0 = s := by
  simp [converted, rebook, totals, Account.withPnl, Account.withCapital]

theorem Account.convertible_le (a : Account) : a.convertible whole ≤ a.releasedPos := by
  unfold convertible
  split_ifs
  · exact Nat.le_refl _
  · exact Nat.zero_le _

/-- A Live market within an instruction, with everything that finalization relies on. -/
structure Finalizable (ph : Phase) (s : RiskEngine) : Prop where
  good : Good ⟨s, ph⟩
  profits : Profits s
  vacant : Vacant s
  live : s.marketMode = .live

section One

theorem Finalizable.books (h : Finalizable ph s) : Books s := h.good.books

theorem Finalizable.reserves (h : Finalizable ph s) : Reserves s := h.good.reserves h.live

theorem Finalizable.backing (h : Finalizable ph s) : 0 ≤ s.backing := by
  have := h.books.backed
  unfold RiskEngine.backing
  omega

theorem Finalizable.step {ph' : Phase} (h : Finalizable ph s) (step : Step sc ⟨s, ph⟩ l ⟨s', ph'⟩)
    (live : s'.marketMode = .live) : Finalizable ph' s' :=
  ⟨h.good.step step, h.profits.step step, h.vacant.step step, live⟩

theorem Finalizable.booked (h : Finalizable ph s) (used : s.isUsed i = true)
    (hb : Booked Entry i s s' l) : Finalizable ph s' := by
  rcases hb with ⟨rfl, -⟩ | ⟨a, t, rfl, entry⟩
  · exact h
  · have step : Step .touches ⟨s, ph⟩ l ⟨s.rebook i a t, ph⟩ := .booked used trivial entry
    exact h.step step h.live

/-- Released PnL is matured, and all matured PnL is positive PnL. -/
theorem Finalizable.released_le (h : Finalizable ph s) (used : s.isUsed i = true) :
    (s.accounts i).releasedPos ≤ s.pnlMaturedPosTot ∧ s.pnlMaturedPosTot ≤ s.pnlPosTot := by
  have le_pos : ∀ a : Account, a.releasedPos ≤ a.posPnl := fun a => Nat.sub_le _ _
  rw [h.reserves.matured, h.books.pos]
  constructor
  · exact le_tally (f := Account.releasedPos) (RiskEngine.mem_usedSlots.mpr used)
  · exact tally_mono fun _ _ => le_pos _

/-- Whole conversion within the residual succeeds. -/
theorem Finalizable.convert (h : Finalizable ph s) (used : s.isUsed i = true) {x : Nat} (pos : 0 < x)
    (released : x ≤ (s.accounts i).releasedPos) (backed : (x : Int) ≤ s.backing) :
    convertInto i x x s = .ok () (s.converted i x x) [] := by
  have capital := h.books.capital_le used
  obtain ⟨boundC, boundI, boundV⟩ := h.books.bounds
  obtain ⟨matured, total⟩ := h.released_le used
  have cap := h.profits h.live i used
  have room : s.cTot + x ≤ U128_MAX := by
    unfold RiskEngine.backing at backed
    omega
  have own : x + (s.accounts i).reservedPnl ≤ i128ClampPos (s.accounts i).pnl := by
    unfold Account.releasedPos at released
    omega
  have profit : (x : Int) ≤ (s.accounts i).pnl ∧ (s.accounts i).pnl ≤ I128_MAX := by
    simp only [MAX_ACCOUNT_POSITIVE_PNL, I128_MAX, i128ClampPos] at *
    omega
  have fits : toI128 ((s.accounts i).pnl - x) = some ((s.accounts i).pnl - x) := by
    refine if_pos ⟨?_, by omega⟩
    unfold I128_MIN
    omega
  have low : (s.accounts i).pnl - x ≠ I128_MIN := by
    unfold I128_MIN
    omega
  have safe : wp (convertInto i x x) (fun _ _ _ => True) (fun _ _ => False) s [] := by
    have present : x ≠ 0 := by omega
    have reserved : (s.accounts i).reservedPnl ≤ i128ClampPos (s.accounts i).pnl := by omega
    have enough : x ≤ i128ClampPos (s.accounts i).pnl - (s.accounts i).reservedPnl := by omega
    have credit : (s.accounts i).capital + x ≤ U128_MAX := by omega
    simp [convertInto, consumeReleasedPnl, setCapital, checkedSub, checkedAddU128, checkedSubI128, present,
      reserved, enough, total, fits, low, credit, room, released.trans matured,
      (released.trans matured).trans total]
  obtain ⟨_, s', l, hok, -⟩ := wp_total safe
  obtain ⟨-, -, -, -, rfl, rfl⟩ := convertInto_exact hok
  exact hok

/-- Sweeping the fee debt of an account succeeds. -/
theorem Finalizable.sweep (h : Finalizable ph s) (used : s.isUsed i = true) :
    feeDebtSweep i s = .ok () (s.feeSwept i) [] := by
  obtain ⟨_, s', l, hok, rfl, rfl⟩ := wp_total (h.books.feeDebtSweep_safe (l := []) used)
  exact hok

/-- An account that is not in use has nothing to finalize. -/
theorem Finalizable.unused (h : Finalizable ph s) (free : s.isUsed i = false) :
    finalizeTouched whole i s = .ok () s [] ∧ s.finalizedAs whole i = s := by
  have empty := h.vacant i free
  have none : (emptyAccount).convertible whole = 0 := if_neg fun h => absurd h.2.2 (by decide)
  constructor
  · obtain ⟨_, s', l, hok, rfl, rfl⟩ := wp_total (m := finalizeTouched whole i) (s := s)
      (Q := fun _ s' l => s' = s ∧ l = []) (by
        simp only [finalizeTouched, feeDebtSweep, wp_bind, wp_read, wp_whenever, empty]
        constructor
        · rintro ⟨-, -, pos, -⟩
          exact absurd pos (by decide)
        · intro _
          exact ⟨fun pos => absurd pos (by decide), fun _ => ⟨trivial, trivial⟩⟩)
    exact hok
  · unfold RiskEngine.finalizedAs
    rw [empty, none, RiskEngine.converted_zero]
    exact RiskEngine.feeSwept_eq (by rw [empty]; rfl)

theorem finalizeTouched_ok {s₁ s₂ : RiskEngine}
    (first : whenever (whole = true ∧ (s.accounts i).positionBasisQ = 0 ∧ 0 < (s.accounts i).pnl ∧
      0 < (s.accounts i).releasedPos) (convertInto i (s.accounts i).releasedPos (s.accounts i).releasedPos) s =
        .ok () s₁ [])
    (second : feeDebtSweep i s₁ = .ok () s₂ []) : finalizeTouched whole i s = .ok () s₂ [] := by
  unfold finalizeTouched
  rw [bind_eq_ok]
  refine ⟨s, s, [], [], rfl, ?_, rfl⟩
  rw [bind_eq_ok]
  exact ⟨(), s₁, [], [], first, second, rfl⟩

/-- Finalizing one account succeeds and keeps what finalization relies on; matured PnL
and the residual keep their distance. -/
theorem Finalizable.finalize (h : Finalizable ph s)
    (fits : whole = true → (s.pnlMaturedPosTot : Int) ≤ s.backing) (i : Nat) :
    finalizeTouched whole i s = .ok () (s.finalizedAs whole i) [] ∧
      Finalizable ph (s.finalizedAs whole i) ∧
      (s.finalizedAs whole i).backing - (s.finalizedAs whole i).pnlMaturedPosTot =
        s.backing - s.pnlMaturedPosTot := by
  cases used : s.isUsed i with
  | false =>
      obtain ⟨run, same⟩ := h.unused used
      rw [same]
      exact ⟨run, h, rfl⟩
  | true =>
      have sweeps {s₁ : RiskEngine} (h₁ : Finalizable ph s₁) (used₁ : s₁.isUsed i = true) :
          feeDebtSweep i s₁ = .ok () (s₁.feeSwept i) [] ∧ Finalizable ph (s₁.feeSwept i) ∧
            (s₁.feeSwept i).backing - (s₁.feeSwept i).pnlMaturedPosTot = s₁.backing - s₁.pnlMaturedPosTot := by
        have run := h₁.sweep used₁
        have fee := (h₁.books.fee i used₁).1
        exact ⟨run, h₁.booked used₁ (feeDebtSweep_spec fee run), feeDebtSweep_gap fee run⟩
      unfold RiskEngine.finalizedAs
      by_cases converts : whole = true ∧ (s.accounts i).positionBasisQ = 0 ∧ 0 < (s.accounts i).pnl ∧
          0 < (s.accounts i).releasedPos
      · obtain ⟨isWhole, flat, profit, released⟩ := converts
        have amount : (s.accounts i).convertible whole = (s.accounts i).releasedPos :=
          if_pos ⟨isWhole, flat, profit⟩
        have backed : ((s.accounts i).releasedPos : Int) ≤ s.backing := by
          have := fits isWhole
          have := (h.released_le used).1
          omega
        have run := h.convert used released (Nat.le_refl _) backed
        obtain ⟨swept, kept, gap⟩ := sweeps
          (h.booked used (convertInto_spec run h.live (Nat.le_refl _) fun _ => backed)) used
        rw [amount]
        refine ⟨finalizeTouched_ok ?_ swept, kept, gap.trans (convertInto_gap run)⟩
        rw [whenever, if_pos ⟨isWhole, flat, profit, released⟩]
        exact run
      · have amount : (s.accounts i).convertible whole = 0 := by
          unfold Account.convertible
          split_ifs with h
          · exact Nat.eq_zero_of_not_pos fun released => converts ⟨h.1, h.2.1, h.2.2, released⟩
          · rfl
        obtain ⟨swept, kept, gap⟩ := sweeps h used
        rw [amount, RiskEngine.converted_zero]
        refine ⟨finalizeTouched_ok ?_ swept, kept, gap⟩
        rw [whenever, if_neg converts]
        rfl

end One

/-! ### Two accounts -/

section Two

/-- The account after its whole conversion. -/
def Account.wholeConverted (whole : Bool) (a : Account) : Account :=
  (a.withPnl (a.pnl - a.convertible whole)).withCapital (a.capital + a.convertible whole)

/-- What finalizing an account with the row `a` does to the totals. -/
def Totals.finalizedAs (whole : Bool) (t : Totals) (a : Account) : Totals :=
  { t with
    cTot := t.cTot + a.convertible whole - (a.wholeConverted whole).debtPay
    insuranceFund := t.insuranceFund + (a.wholeConverted whole).debtPay
    pnlPosTot := t.pnlPosTot - a.convertible whole
    pnlMaturedPosTot := t.pnlMaturedPosTot - a.convertible whole }

/-- The account after its finalization. -/
def Account.finalizedAs (whole : Bool) (a : Account) : Account :=
  ((a.wholeConverted whole).withCapital ((a.wholeConverted whole).capital -
    (a.wholeConverted whole).debtPay)).withFeeCredits (a.feeCredits + (a.wholeConverted whole).debtPay)

theorem RiskEngine.finalizedAs_eq (s : RiskEngine) (i : Nat) : s.finalizedAs whole i =
    s.rebook i ((s.accounts i).finalizedAs whole) (s.totals.finalizedAs whole (s.accounts i)) := by
  simp [finalizedAs, converted, feeSwept, Account.finalizedAs, Totals.finalizedAs, totals,
    Account.wholeConverted, Account.debtPay]

theorem Account.debtPay_le (a : Account) :
    (a.wholeConverted whole).debtPay ≤ a.capital + a.convertible whole :=
  Nat.min_le_right _ _

/-- Two accounts own at most the capital total together. -/
theorem Finalizable.capitals_le (h : Finalizable ph s) (ne : i ≠ j) :
    (s.accounts i).capital + (s.accounts j).capital ≤ s.cTot := by
  cases usedI : s.isUsed i with
  | false =>
      rw [h.vacant i usedI]
      cases usedJ : s.isUsed j with
      | false =>
          rw [h.vacant j usedJ]
          exact Nat.zero_le _
      | true =>
          have := h.books.capital_le usedJ
          exact (Nat.zero_add _).le.trans this
  | true =>
      have own := h.books.capital_le usedI
      cases usedJ : s.isUsed j with
      | false =>
          rw [h.vacant j usedJ]
          exact own
      | true =>
          rw [h.books.cTot]
          exact two_le_tally (f := Account.capital) (RiskEngine.mem_usedSlots.mpr usedI)
            (RiskEngine.mem_usedSlots.mpr usedJ) ne

/-- Finalizing two accounts commutes. -/
theorem Finalizable.commutes (h : Finalizable ph s) (ne : i ≠ j) :
    (s.finalizedAs whole i).finalizedAs whole j = (s.finalizedAs whole j).finalizedAs whole i := by
  have together := h.capitals_le ne
  have first : ((s.finalizedAs whole i).accounts j) = s.accounts j := by
    rw [RiskEngine.finalizedAs_eq]
    exact put_other _ _ ne.symm
  have second : ((s.finalizedAs whole j).accounts i) = s.accounts i := by
    rw [RiskEngine.finalizedAs_eq]
    exact put_other _ _ ne
  have payI : ((s.accounts i).wholeConverted whole).debtPay ≤ _ := (s.accounts i).debtPay_le
  have payJ : ((s.accounts j).wholeConverted whole).debtPay ≤ _ := (s.accounts j).debtPay_le
  rw [RiskEngine.finalizedAs_eq (s.finalizedAs whole i), first,
    RiskEngine.finalizedAs_eq (s.finalizedAs whole j), second, RiskEngine.finalizedAs_eq s i,
    RiskEngine.finalizedAs_eq s j]
  simp only [RiskEngine.rebook, RiskEngine.totals, Totals.finalizedAs, put_comm s.accounts ne,
    RiskEngine.mk.injEq, true_and, and_true]
  omega

end Two

/-! ### Sets of accounts -/

section Sets

/-- A market that is whole, or is not, for as long as its accounts are finalized so. -/
structure Regime (whole : Bool) (ph : Phase) (s : RiskEngine) : Prop extends Finalizable ph s where
  fits : whole = true → (s.pnlMaturedPosTot : Int) ≤ s.backing
  short : whole = false → s.pnlMaturedPosTot = 0 ∨ s.backing < s.pnlMaturedPosTot

theorem Finalizable.residual_eq (h : Finalizable ph s) : (s.residual : Int) = s.backing := by
  have := h.books.backed
  unfold RiskEngine.residual RiskEngine.backing
  omega

theorem Finalizable.regime (h : Finalizable ph s) : Regime s.isWhole ph s := by
  have residual := h.residual_eq
  refine ⟨h, fun whole => ?_, fun short => ?_⟩
  · have := of_decide_eq_true whole
    omega
  · have := of_decide_eq_false short
    omega

/-- Without whole conversion nothing is converted. -/
theorem Account.convertible_false (a : Account) : a.convertible false = 0 :=
  if_neg fun h => Bool.false_ne_true h.1

/-- Finalizing an account keeps the regime. -/
theorem Regime.finalize (h : Regime whole ph s) (i : Nat) :
    finalizeTouched whole i s = .ok () (s.finalizedAs whole i) [] ∧ Regime whole ph (s.finalizedAs whole i) := by
  obtain ⟨run, kept, gap⟩ := h.toFinalizable.finalize h.fits i
  refine ⟨run, kept, fun isWhole => ?_, ?_⟩
  · have := h.fits isWhole
    omega
  · rintro rfl
    have matured : (s.finalizedAs false i).pnlMaturedPosTot = s.pnlMaturedPosTot := by
      rw [RiskEngine.finalizedAs_eq]
      simp [Totals.finalizedAs, Account.convertible_false, RiskEngine.totals]
    have := h.short rfl
    omega

/-- A snapshot taken within a regime finalizes an account as the regime does. -/
theorem Regime.snapshot (h : Regime whole ph s) (i : Nat) : s.finalizedAs s.isWhole i = s.finalizedAs whole i := by
  have residual := h.residual_eq
  have agree : (s.accounts i).convertible s.isWhole = (s.accounts i).convertible whole := by
    rcases Nat.eq_zero_or_pos s.pnlMaturedPosTot with none | some
    · -- without matured PnL there is nothing to convert in either regime
      have released : (s.accounts i).releasedPos = 0 := by
        cases used : s.isUsed i with
        | false =>
            rw [h.vacant i used]
            rfl
        | true =>
            have := (h.released_le used).1
            omega
      have : (s.accounts i).convertible s.isWhole ≤ _ := (s.accounts i).convertible_le
      have : (s.accounts i).convertible whole ≤ _ := (s.accounts i).convertible_le
      omega
    · have same : s.isWhole = whole := by
        cases whole with
        | true =>
            have := h.fits rfl
            exact decide_eq_true ⟨some, by omega⟩
        | false =>
            have := h.short rfl
            exact decide_eq_false (by omega)
      rw [same]
  unfold RiskEngine.finalizedAs
  rw [agree]

/-- The context of an instruction that touched account `i` alone. -/
def InstructionContext.only (ctx : InstructionContext) (i : Nat) : InstructionContext :=
  { ctx with touchedAccounts := [i] }

/-- Finalize the accounts of a list one at a time, each with a context and a snapshot of its own. -/
def finalizeEach (ctx : InstructionContext) (is : List Nat) : Act Unit :=
  forEach (fun i => finalizeTouchedAccountsPostLive (ctx.only i)) is

/-- A finalization with its own snapshot is one turn of a regime. -/
theorem Regime.single (h : Regime whole ph s) (ctx : InstructionContext) (i : Nat) :
    finalizeTouchedAccountsPostLive (ctx.only i) s = .ok () (s.finalizedAs whole i) [] := by
  obtain ⟨run, -⟩ := h.toFinalizable.regime.finalize i
  rw [h.snapshot i] at run
  have sorted : (ctx.only i).touchedAccounts.insertionSort (· ≤ ·) = [i] := rfl
  unfold finalizeTouchedAccountsPostLive
  rw [bind_eq_ok]
  refine ⟨s, s, [], [], rfl, ?_, rfl⟩
  rw [sorted, forEach, bind_eq_ok]
  exact ⟨(), _, [], [], run, rfl, rfl⟩

/-- Whatever the order, the whole set under one snapshot and the accounts one at a time end in
the same state. -/
theorem Finalizable.path_independent (h : Finalizable ph s) {ctx : InstructionContext} {is : List Nat}
    (nodup : ctx.touchedAccounts.Nodup) (perm : ctx.touchedAccounts.Perm is) :
    ∃ s', finalizeTouchedAccountsPostLive ctx s = .ok () s' [] ∧ finalizeEach ctx is s = .ok () s' [] := by
  have regime := h.regime
  set whole := s.isWhole with hwhole
  obtain ⟨all, -⟩ := forEach_fold (f := finalizeTouched whole) (g := RiskEngine.finalizedAs whole)
    (I := Regime whole ph) (fun i s h => h.finalize i) regime
  obtain ⟨each, -⟩ := forEach_fold (f := fun i => finalizeTouchedAccountsPostLive (ctx.only i))
    (g := RiskEngine.finalizedAs whole) (I := Regime whole ph)
    (fun i s h => ⟨h.single ctx i, (h.finalize i).2⟩) regime
  have sorted : (ctx.touchedAccounts.insertionSort (· ≤ ·)).Perm is :=
    (List.perm_insertionSort _ _).trans perm
  have same : (ctx.touchedAccounts.insertionSort (· ≤ ·)).foldl (RiskEngine.finalizedAs whole) s =
      is.foldl (RiskEngine.finalizedAs whole) s :=
    foldl_perm (I := Regime whole ph) (fun i s h => (h.finalize i).2) (fun i j s ne h => h.commutes ne) sorted
      ((List.perm_insertionSort _ _).nodup_iff.mpr nodup) regime
  refine ⟨_, ?_, each⟩
  rw [← same]
  unfold finalizeTouchedAccountsPostLive
  rw [bind_eq_ok]
  exact ⟨s, s, [], [], rfl, all, rfl⟩

end Sets

/-- In every state of a Live market, between the instructions or within one, and for every set of
touched accounts, finalization under the shared snapshot ends in the same state as one finalization
an account, in any order and each with a snapshot of its own. -/
theorem Reachable.finalization_path_independent {s₀ : RiskEngine} (h : Reachable s₀)
    (run : Run (Step sc) ⟨s₀, .idle⟩ l ⟨s, ph⟩) (live : s.marketMode = .live) {ctx : InstructionContext}
    {is : List Nat} (nodup : ctx.touchedAccounts.Nodup) (perm : ctx.touchedAccounts.Perm is) :
    ∃ s', finalizeTouchedAccountsPostLive ctx s = .ok () s' [] ∧ finalizeEach ctx is s = .ok () s' [] := by
  have good : Good ⟨s, ph⟩ := run.invariant (fun _ _ _ good step => good.step step) h.good
  have vacant : Vacant s :=
    run.invariant (I := fun c => Vacant c.engine) (fun _ _ _ vacant step => vacant.step step) h.vacant
  have finalizable : Finalizable ph s := ⟨good, run.profits h.profits, vacant, live⟩
  exact finalizable.path_independent nodup perm

theorem movedMarket_finalization_path_independent : ∃ s',
    finalizeTouchedAccountsPostLive { InstructionContext.new with touchedAccounts := [1, 2] } movedMarket =
        .ok () s' [] ∧
      finalizeEach { InstructionContext.new with touchedAccounts := [1, 2] } [2, 1] movedMarket = .ok () s' [] :=
  movedMarket_reachable.finalization_path_independent (.refl _ : Run (Step .none) _ _ _) (by decide +kernel) (by decide)
    (.swap 2 1 [])

end Percolator
