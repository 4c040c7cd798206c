import Percolator.Laws.Sides

/-!
Exit: a flat account without PnL, reserve or fee debt can always withdraw its whole
capital, whatever the other accounts have done to the market.
-/

namespace Percolator

open Effect

variable {s s' : RiskEngine} {i : Nat} {ctx : InstructionContext} {l : List Event}

/-- The engine with its market clock and funding price moved on. -/
def RiskEngine.caughtUp (s : RiskEngine) (market fundPx : Nat) : RiskEngine :=
  { s with lastMarketSlot := market, fundPxLast := fundPx }

/-- At the current slot, the last price and rate zero an accrual succeeds. -/
theorem Timely.accrue_still_safe (h : Timely s) (live : s.marketMode = .live) :
    wp (accrueAndAnchor s.currentSlot s.lastOraclePrice 0) (fun _ _ _ => True) (fun _ _ => False) s l := by
  have hle := h.market_le live
  have hpos := h.price_pos
  have hmax := h.price_le
  have hmark : markIndices s (decide ((s.sides .long).oiEffQ ≠ 0)) (decide ((s.sides .short).oiEffQ ≠ 0))
      (s.lastOraclePrice - s.lastOraclePrice) ≠ none := by simp [markIndices]
  have hfund : fundIndices s (decide ((s.sides .long).oiEffQ ≠ 0)) (decide ((s.sides .short).oiEffQ ≠ 0)) 0
      (s.currentSlot - s.lastMarketSlot) ≠ none := by simp [fundIndices]
  simp only [accrueAndAnchor, accrueMarketTo, wp_bind, wp_read, wp_rejectIf, wp_ite, wp_update, wp_orErr,
    wp_writeSide, wp_emit, implies_true, and_true, true_and]
  refine ⟨fun hn => hn live, fun _ => ⟨fun hp => by omega, fun _ => ⟨fun hr => ?_, fun _ => ⟨fun hn => by omega,
    fun _ => ⟨fun hn => by omega, fun _ _ => ⟨fun hn => hn.1.1 rfl, fun _ => ⟨hmark, fun _ _ => hfund⟩⟩⟩⟩⟩⟩⟩
  rw [Int.natAbs_zero] at hr
  exact Nat.not_lt_zero _ hr

/-- It moves no index. -/
theorem Timely.accrue_still (h : Timely s) (live : s.marketMode = .live) :
    wp (accrueAndAnchor s.currentSlot s.lastOraclePrice 0)
      (fun _ s' _ => ∃ market fundPx, s' = s.caughtUp market fundPx) (fun _ _ => False) s l := by
  refine wp_split (h.accrue_still_safe live) fun _ s' l' hok => ?_
  obtain ⟨-, ⟨-, -, -, rfl⟩ | ⟨-, acc⟩⟩ := accrueAndAnchor_spec hok
  · exact ⟨s.lastMarketSlot, s.fundPxLast, rfl⟩
  · have hsides : s'.sides = s.sides := funext fun d => by
      rw [acc.side d]
      simp [SideState.marked, RiskEngine.funded]
    refine ⟨s.currentSlot, s.lastOraclePrice, ?_⟩
    rw [acc.eq, hsides]
    rfl

/-! ### A flat account without reserve -/

/-- An account without position, PnL, reserve and fee debt. -/
structure Account.Idle (a : Account) : Prop where
  flat : a.positionBasisQ = 0
  pnl : a.pnl = 0
  sched : a.schedPresent = false
  pending : a.pendingPresent = false
  fee : a.feeCredits = 0

/-- Touching an idle account does nothing to it. -/
theorem Account.Idle.touch (h : (s.accounts i).Idle) (shape : ReserveShape s.params (s.accounts i))
    (live : s.marketMode = .live) (used : s.isUsed i = true) (fresh : ctx.touchedAccounts = []) :
    wp (touchAccountLiveLocal i ctx)
      (fun ctx' s' _ => s' = s ∧ ctx' = { ctx with touchedAccounts := [i] }) (fun _ _ => False) s l := by
  have hadd : ctx.addTouched i = some { ctx with touchedAccounts := [i] } := by
    unfold InstructionContext.addTouched
    rw [fresh]
    rfl
  have hshape : reserveShapeCheck s.params (s.accounts i) = true := reserveShapeCheck_iff.mpr shape
  have hheld : (s.accounts i).schedHeld + (s.accounts i).pendingHeld = 0 := by
    unfold Account.schedHeld Account.pendingHeld
    rw [h.sched, h.pending]
    rfl
  have hreserved : (s.accounts i).reservedPnl = 0 := by rw [← shape.total.2, hheld]
  have hside : sideOfI128 (s.accounts i).positionBasisQ = none := sideOfI128_eq_none.mpr h.flat
  have heff : effectivePosQ s i = some 0 := effectivePosQ_flat h.flat
  simp only [touchAccountLiveLocal, validateReserveShape, admitOutstandingReserveOnTouch, advanceProfitWarmup,
    settleSideEffectsLive, settleLosses, wp_bind, wp_read, wp_lift, wp_rejectIf, wp_whenever, wp_ite, wp_orErr,
    wp_expect, wp_emit, wp_pure, hadd, hshape, hreserved, hside, heff, h.pnl, live, used]
  simp [checkedAddU128, hheld]

/-- Finalizing it does nothing either. -/
theorem Account.Idle.finalize (h : (s.accounts i).Idle) (only : ctx.touchedAccounts = [i]) :
    wp (finalizeTouchedAccountsPostLive ctx) (fun _ s' _ => s' = s) (fun _ _ => False) s l := by
  have hpay : min (feeDebtU128Checked (s.accounts i).feeCredits) (s.accounts i).capital = 0 := by
    rw [h.fee]
    exact Nat.zero_min _
  simp only [finalizeTouchedAccountsPostLive, only, List.insertionSort_cons, List.insertionSort_nil,
    List.orderedInsert_nil, forEach, finalizeTouched, feeDebtSweep, wp_bind, wp_read, wp_whenever, wp_pure, h.pnl,
    hpay]
  simp

/-- The engine without the capital of account `i`. -/
def RiskEngine.paidOut (s : RiskEngine) (i : Nat) : RiskEngine :=
  ((s.withCTot (s.cTot - (s.accounts i).capital)).setAccount i ((s.accounts i).withCapital 0)).withVault
    (s.vault - (s.accounts i).capital)

theorem Books.capital_le (h : Books s) (used : s.isUsed i = true) : (s.accounts i).capital ≤ s.cTot := by
  rw [h.cTot]
  exact le_tally (RiskEngine.mem_usedSlots.mpr used)

/-- The capital of an account in use can be paid out. -/
theorem Books.payOut_all (h : Books s) (used : s.isUsed i = true) :
    wp (payOut i (s.accounts i).capital) (fun _ s' _ => s' = s.paidOut i) (fun _ _ => False) s l := by
  have hle := h.capital_le used
  have hbacked := h.backed
  have hvault := h.vault_le
  have hbound : s.cTot + 0 ≤ U128_MAX := by
    have : MAX_VAULT_TVL ≤ U128_MAX := by decide
    omega
  have hpaid : checkedSub s.vault (s.accounts i).capital = some (s.vault - (s.accounts i).capital) :=
    if_pos (by omega)
  simp only [payOut, setCapital, wp_bind, wp_read, wp_ite, wp_orErr, wp_update, wp_writeAccount, Nat.sub_self,
    Nat.sub_zero, RiskEngine.withCTot_accounts, hpaid]
  refine ⟨fun hzero => ?_, fun _ => ?_⟩
  · have h0 : (s.accounts i).capital = 0 := Nat.le_zero.mp hzero
    have hadd : checkedAddU128 s.cTot (0 - (s.accounts i).capital) = some s.cTot := by
      rw [h0]
      exact if_pos hbound
    rw [hadd]
    refine ⟨(by rintro ⟨⟩), ?_⟩
    rintro _ ⟨⟩
    refine ⟨(by rintro ⟨⟩), ?_⟩
    rintro _ ⟨⟩
    unfold RiskEngine.paidOut
    rw [h0]
    rfl
  · have hsub : checkedSub s.cTot (s.accounts i).capital = some (s.cTot - (s.accounts i).capital) := if_pos hle
    rw [hsub]
    refine ⟨(by rintro ⟨⟩), ?_⟩
    rintro _ ⟨⟩
    refine ⟨(by rintro ⟨⟩), ?_⟩
    rintro _ ⟨⟩
    rfl

/-! ### Resets on quiet sides -/

/-- Quiet sides have nothing to reset. -/
theorem endOfInstructionResets_quiet (quiet : ∀ d, Quiet (s.sides d))
    (balanced : (s.sides .long).oiEffQ = (s.sides .short).oiEffQ)
    (none : ∀ d, ctx.pendingReset d = false) :
    wp (endOfInstructionResets ctx) (fun _ s' _ => s' = s) (fun _ _ => False) s l := by
  have hready : ∀ d, ¬ (s.sides d).Ready := fun d hr => by
    have := (quiet d).waiting hr.1
    have := hr.2.2.1
    omega
  have hdrained : ∀ d, ¬ ((s.sides d).sideMode = .drainOnly ∧ (s.sides d).oiEffQ = 0) := fun d hd => by
    have := (quiet d).draining hd.1
    omega
  have hclear : wp (clearDust ctx) (fun ctx' s' _ => ctx' = ctx ∧ s' = s) (fun _ _ => False) s l := by
    have hoi : ∀ d, (s.sides d).storedPosCount = 0 → (s.sides .long).oiEffQ = 0 ∧ (s.sides .short).oiEffQ = 0 :=
      fun d hd => by
        have := ((quiet d).vacant hd).1
        cases d <;> omega
    have hdust : ∀ d, (s.sides d).storedPosCount = 0 → (s.sides d).phantomDustBoundQ = 0 :=
      fun d hd => ((quiet d).vacant hd).2
    have hnone : ∀ {residual : Bool} {n : Nat}, residual = false →
        wp (clearResidual ctx residual n) (fun ctx' s' _ => ctx' = ctx ∧ s' = s) (fun _ _ => False) s l := by
      rintro _ n rfl
      simp [clearResidual]
    simp only [clearDust, wp_bind, wp_read, wp_ite, wp_corruptIf, wp_pure]
    refine ⟨fun h => ⟨fun hover => ?_, fun _ => hnone ?_⟩, fun _ => ⟨fun h => hnone ?_, fun _ =>
      ⟨fun h => hnone ?_, fun _ => ⟨trivial, trivial⟩⟩⟩⟩
    · rw [hdust .long h.1, hdust .short h.2] at hover
      exact Nat.not_lt_zero _ hover
    · simp [hoi .long h.1, hdust .long h.1, hdust .short h.2]
    · simp [hoi .long h, hdust .long h]
    · simp [hoi .short h, hdust .short h]
  have hsched : wp (scheduleEndOfInstructionResets ctx) (fun ctx' s' _ => ctx' = ctx ∧ s' = s)
      (fun _ _ => False) s l := by
    simp only [scheduleEndOfInstructionResets, wp_bind, wp_read, wp_pure]
    refine wp_mono hclear ?_ fun _ _ he => he
    rintro _ _ _ ⟨rfl, rfl⟩
    simp only [scheduleDrained, if_neg (hdrained _), and_self]
  simp only [endOfInstructionResets, wp_bind]
  refine wp_mono hsched ?_ fun _ _ he => he
  rintro _ _ _ ⟨rfl, rfl⟩
  simp only [finalizeEndOfInstructionResets, beginPendingReset, maybeFinalizeReadyResetSides, finalizeReadySide,
    wp_bind, wp_read, wp_whenever, wp_lift, none, hready]
  simp

/-! ### Withdrawal -/

/-- The checks at the end of an operation pass where the books are backed. -/
theorem assertPublicPostconditions_safe (backed : s.cTot + s.insuranceFund ≤ s.vault)
    (cap : s.vault ≤ MAX_VAULT_TVL) (balanced : (s.sides .long).oiEffQ = (s.sides .short).oiEffQ) :
    wp assertPublicPostconditions (fun _ s' l' => s' = s ∧ l' = l) (fun _ _ => False) s l := by
  have hcap : MAX_VAULT_TVL ≤ U128_MAX := by decide
  have hcons : checkConservation s = true := by
    simp only [checkConservation, Bool.and_eq_true, decide_eq_true_eq]
    omega
  simp only [assertPublicPostconditions, wp_bind, wp_read, wp_corruptIf, hcons, balanced]
  simp

/-- In every reachable Live state an idle account can withdraw its whole capital at the
current slot, the last price and rate zero, under every admission pair that the engine
accepts, and the vault gives up exactly that capital. -/
theorem Reachable.flat_exit (h : Reachable s) (live : s.marketMode = .live) (used : s.isUsed i = true)
    (idle : (s.accounts i).Idle) {hMin hMax : Nat} (pair : AdmissionPair s.params hMin hMax) :
    ∃ s' l, withdraw i (s.accounts i).capital s.lastOraclePrice s.currentSlot 0 hMin hMax s = .ok () s' l ∧
      s'.vault + (s.accounts i).capital = s.vault := by
  have hg := h.good
  have hb := hg.books
  have ht := hg.timely
  have hp := hg.positions live
  have hshape := (hg.reserves live).shape i used
  have hbal := hg.balanced
  dsimp only at hb ht hp hshape hbal
  have hcap := hb.capital_le used
  have hbacked := hb.backed
  have hvault := hb.vault_le
  have heff : effectivePosQ s i = some 0 := effectivePosQ_flat idle.flat
  have hrun : wp (withdraw i (s.accounts i).capital s.lastOraclePrice s.currentSlot 0 hMin hMax)
      (fun _ s' _ => s'.vault + (s.accounts i).capital = s.vault) (fun _ _ => False) s [] := by
    simp only [withdraw, validateAdmissionPair, checkWithdrawMargin, wp_bind, wp_read, wp_lift, wp_rejectIf]
    refine ⟨fun hn => hn pair, fun _ => ⟨fun hn => ?_, fun _ => ⟨fun hn => ?_, fun _ => ⟨fun hn => hn live,
      fun _ => ?_⟩⟩⟩⟩
    · have := ht.price_pos
      have := ht.price_le
      omega
    · rw [used] at hn
      cases hn
    · refine wp_mono (ht.accrue_still live) ?_ fun _ _ he => he
      rintro _ _ _ ⟨market, fundPx, rfl⟩
      have hidle : ((s.caughtUp market fundPx).accounts i).Idle := idle
      refine wp_mono (hidle.touch hshape live used rfl) ?_ fun _ _ he => he
      rintro _ _ _ ⟨rfl, rfl⟩
      refine wp_mono (hidle.finalize rfl) ?_ fun _ _ he => he
      rintro _ _ _ rfl
      have hbooks : Books (s.caughtUp market fundPx) := ⟨hb.cTot, hb.pos, hb.neg, hb.stored, hb.numUsed,
        hb.materialized, hb.fee, hb.pnl, hb.capacity, hb.retired, hb.backed, hb.vault_le⟩
      have heff' : effectivePosQ (s.caughtUp market fundPx) i = some 0 := effectivePosQ_flat hidle.flat
      simp only [wp_bind, wp_rejectIf, wp_whenever, wp_expect, heff']
      refine ⟨fun hlt => lt_irrefl _ hlt, fun _ => ⟨fun hd => hd.1 (Nat.sub_self _), fun _ => ⟨(by rintro ⟨⟩), ?_⟩⟩⟩
      rintro _ ⟨⟩
      refine ⟨fun hn => absurd rfl hn, fun _ => ?_⟩
      refine wp_mono (hbooks.payOut_all used) ?_ fun _ _ he => he
      rintro _ _ _ rfl
      refine wp_mono (endOfInstructionResets_quiet (hp.quiet rfl) hbal fun _ => rfl) ?_ fun _ _ he => he
      rintro _ _ _ rfl
      refine wp_mono (assertPublicPostconditions_safe ?_ ?_ hbal) ?_ fun _ _ he => he
      · show s.cTot - (s.accounts i).capital + s.insuranceFund ≤ s.vault - (s.accounts i).capital
        omega
      · show s.vault - (s.accounts i).capital ≤ MAX_VAULT_TVL
        omega
      · rintro _ _ _ ⟨rfl, -⟩
        show s.vault - (s.accounts i).capital + (s.accounts i).capital = s.vault
        omega
  obtain ⟨_, s', l, ok, hs⟩ := wp_total hrun
  exact ⟨s', l, ok, hs⟩

/-- A third account beside the two of a trade. -/
def watchedMarket : RiskEngine := performAll tradedMarket [.deposit 3 5000 101, .accrueMarketTo 150 1010 0]

theorem watchedMarket_reachable : Reachable watchedMarket := tradedMarket_reachable.performAll _

theorem watchedMarket_flat_exit : ∃ s' l,
    withdraw 3 (watchedMarket.accounts 3).capital watchedMarket.lastOraclePrice watchedMarket.currentSlot 0 10 100
      watchedMarket = .ok () s' l ∧ s'.vault + (watchedMarket.accounts 3).capital = watchedMarket.vault :=
  watchedMarket_reachable.flat_exit (by decide +kernel) (by decide +kernel)
    ⟨by decide +kernel, by decide +kernel, by decide +kernel, by decide +kernel, by decide +kernel⟩
    (by decide +kernel)

end Percolator
