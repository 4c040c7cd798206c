import Percolator.Laws.Resolution

/-!
Terminal payouts: in a resolved market that is ready, every close succeeds, pays what one
shared snapshot and the account itself say, and leaves the other payouts alone.
-/

namespace Percolator

open Effect

variable {s s' : RiskEngine} {i : Nat} {l : List Event}

/-- The ratio of the terminal payouts: the snapshot, or what it would be if taken now. -/
def RiskEngine.snapshot (s : RiskEngine) : Nat × Nat :=
  if s.resolvedPayoutReady then (s.resolvedPayoutHNum, s.resolvedPayoutHDen)
  else (min s.residual s.pnlPosTot, s.pnlPosTot)

/-- What an account is paid at a ratio: its capital and its part of the residual, less its fee debt. -/
def Account.terminalPayout (ratio : Nat × Nat) (a : Account) : Nat :=
  a.capital + (max a.pnl 0).toNat * ratio.1 / ratio.2 - (-a.feeCredits).toNat

/-! ### Closing out an account without PnL -/

/-- Lowering the capital of an account within the total succeeds. -/
theorem setCapital_down {n : Nat} (hle : (s.accounts i).capital ≤ s.cTot) (hn : n ≤ (s.accounts i).capital)
    (hbound : s.cTot ≤ U128_MAX) :
    wp (setCapital i n) (fun _ s' l' => s' = s.rebook i ((s.accounts i).withCapital n)
      { s.totals with cTot := s.cTot - ((s.accounts i).capital - n) } ∧ l' = l) (fun _ _ => False) s l := by
  have hsafe : wp (setCapital i n) (fun _ _ _ => True) (fun _ _ => False) s l := by
    simp only [setCapital, wp_bind, wp_read, wp_ite, wp_orErr, wp_update, wp_writeAccount, checkedAddU128, checkedSub]
    refine ⟨fun h => ⟨fun hnone => ?_, fun _ _ => trivial⟩, fun h => ⟨fun hnone => ?_, fun _ _ => trivial⟩⟩
    · rw [if_pos (by omega)] at hnone
      cases hnone
    · rw [if_pos (by omega)] at hnone
      cases hnone
  refine wp_split hsafe fun _ s' l' hok => ?_
  obtain ⟨c, rfl, rfl, hc⟩ := setCapital_spec hok
  obtain rfl : c = s.cTot - ((s.accounts i).capital - n) := by omega
  exact ⟨rfl, List.append_nil l⟩

theorem Books.bounds (h : Books s) : s.cTot ≤ U128_MAX ∧ s.insuranceFund ≤ U128_MAX ∧ s.vault ≤ U128_MAX := by
  have h1 := h.backed
  have h2 := h.vault_le
  have h3 : MAX_VAULT_TVL ≤ U128_MAX := by decide
  omega

theorem Books.posPnl_le (h : Books s) (used : s.isUsed i = true) : (s.accounts i).posPnl ≤ s.pnlPosTot := by
  rw [h.pos]
  exact le_tally (f := Account.posPnl) (RiskEngine.mem_usedSlots.mpr used)

/-- Paying fee debt from capital succeeds. -/
theorem Books.feeDebtSweep_safe (h : Books s) (used : s.isUsed i = true) :
    wp (feeDebtSweep i) (fun _ s' l' => s' = s.feeSwept i ∧ l' = l) (fun _ _ => False) s l := by
  have hle := h.capital_le used
  obtain ⟨hc, hi, hv⟩ := h.bounds
  have hbacked := h.backed
  have hfee := h.fee i used
  have hsafe : wp (feeDebtSweep i) (fun _ _ _ => True) (fun _ _ => False) s l := by
    simp only [feeDebtSweep, wp_bind, wp_read, wp_whenever, wp_orErr, wp_update, wp_writeAccount]
    set pay := min (feeDebtU128Checked (s.accounts i).feeCredits) (s.accounts i).capital with hpay
    have hdebt : (pay : Int) ≤ -(s.accounts i).feeCredits := by
      have : pay ≤ (-(s.accounts i).feeCredits).toNat := min_le_left _ _
      omega
    have hadd : checkedAddI128 (s.accounts i).feeCredits (min (pay : Int) I128_MAX) ≠ none := by
      rw [min_eq_left (by omega)]
      unfold checkedAddI128 toI128
      rw [if_pos]
      · rintro ⟨⟩
      · unfold I128_MIN I128_MAX at *
        omega
    have hfund : checkedAddU128 s.insuranceFund pay ≠ none := by
      unfold checkedAddU128
      rw [if_pos]
      · rintro ⟨⟩
      · have : pay ≤ (s.accounts i).capital := min_le_right _ _
        omega
    refine ⟨fun _ => wp_mono (setCapital_down hle (Nat.sub_le _ _) hc) ?_ fun _ _ he => he, fun _ => trivial⟩
    intro _ _ _ _
    exact ⟨hadd, fun _ _ => ⟨hfund, fun _ _ => trivial⟩⟩
  refine wp_split hsafe fun _ s' l' hok => ?_
  obtain ⟨rfl, rfl, -⟩ := feeDebtSweep_exact hfee.1 hok
  exact ⟨rfl, List.append_nil l⟩

/-- Paying out the whole capital of an account succeeds. -/
theorem payOutAll_safe (hle : (s.accounts i).capital ≤ s.cTot) (hvault : (s.accounts i).capital ≤ s.vault)
    (hbound : s.cTot ≤ U128_MAX) :
    wp (payOutAll i) (fun c s' l' => c = (s.accounts i).capital ∧ s' = s.rebook i ((s.accounts i).withCapital 0)
      { s.totals with vault := s.vault - (s.accounts i).capital, cTot := s.cTot - (s.accounts i).capital } ∧ l' = l)
      (fun _ _ => False) s l := by
  simp only [payOutAll, wp_bind, wp_read, wp_rejectIf, wp_update, wp_pure]
  refine ⟨fun hlt => by omega, fun _ => ?_⟩
  refine wp_mono (setCapital_down hle (Nat.zero_le _) hbound) ?_ fun _ _ he => he
  rintro _ _ _ ⟨rfl, rfl⟩
  exact ⟨trivial, rfl, rfl⟩

/-- Giving up the slot of a freeable account succeeds. -/
theorem freeSlot_safe (used : s.isUsed i = true) (freeable : (s.accounts i).Freeable)
    (num : 0 < s.numUsedAccounts) (mat : 0 < s.materializedAccountCount) :
    wp (freeSlot i) (fun _ s' l' => Freed s s' i ∧ l' = l) (fun _ _ => False) s l := by
  have hlt := isUsed_lt used
  have hsafe : wp (freeSlot i) (fun _ _ _ => True) (fun _ _ => False) s l := by
    simp only [freeSlot, wp_bind, wp_read, wp_rejectIf, wp_writeAccount, wp_update, wp_orErr, implies_true, and_true,
      checkedSub]
    refine ⟨fun h => by omega, fun _ => ⟨fun h => absurd (used.symm.trans h) (by rintro ⟨⟩), fun _ => ⟨fun h => h freeable,
      fun _ => ⟨fun h => ?_, fun n _ h => ?_⟩⟩⟩⟩
    · rw [if_pos (Nat.succ_le_of_lt num)] at h
      cases h
    · rw [if_pos (Nat.succ_le_of_lt mat)] at h
      cases h
  refine wp_split hsafe fun _ s' l' hok => ?_
  obtain ⟨hf, rfl⟩ := freeSlot_spec hok
  exact ⟨hf, List.append_nil l⟩

/-- The sweep does not fail where the vault covers the insurance fund. -/
theorem sweepEmptyMarketSurplusToInsurance_total (backed : s.insuranceFund ≤ s.vault) (bound : s.vault ≤ U128_MAX) :
    wp sweepEmptyMarketSurplusToInsurance (fun _ _ _ => True) (fun _ _ => False) s l := by
  simp only [sweepEmptyMarketSurplusToInsurance, wp_bind, wp_read, wp_whenever, wp_rejectIf, wp_orErr, wp_update,
    implies_true, and_true, checkedAddU128]
  refine fun _ => ⟨fun h => by omega, fun _ h => ?_⟩
  rw [if_pos (by omega)] at h
  cases h

/-- The sweep of an empty market succeeds. -/
theorem sweepEmptyMarketSurplusToInsurance_safe (backed : s.insuranceFund ≤ s.vault) (bound : s.vault ≤ U128_MAX)
    (empty : s.numUsedAccounts = 0 → s.cTot = 0 ∧ s.pnlPosTot = 0 ∧ s.pnlMaturedPosTot = 0 ∧
      (s.sides .long).oiEffQ = 0 ∧ (s.sides .short).oiEffQ = 0) :
    wp sweepEmptyMarketSurplusToInsurance (fun _ s' l' => s' = s.swept ∧ l' = l) (fun _ _ => False) s l := by
  refine wp_split (sweepEmptyMarketSurplusToInsurance_total backed bound) fun _ s' l' hok => ?_
  obtain ⟨rfl, rfl⟩ := sweepEmptyMarketSurplusToInsurance_spec empty hok
  exact ⟨rfl, List.append_nil l⟩

/-- The engine when account `i` has been paid out: its fee debt is settled, its capital is gone. -/
def RiskEngine.closedOut (s : RiskEngine) (i : Nat) : RiskEngine :=
  let pay := min (feeDebtU128Checked (s.accounts i).feeCredits) (s.accounts i).capital
  s.rebook i (((s.accounts i).withCapital 0).withFeeCredits 0)
    { s.totals with
      vault := s.vault - ((s.accounts i).capital - pay), cTot := s.cTot - (s.accounts i).capital
      insuranceFund := s.insuranceFund + pay }

/-- An account without PnL and position is closed out: it receives its capital less its
fee debt, and gives up its slot. -/
theorem Good.closeOut_safe (h : Good ⟨s, .idle⟩) (mode : s.marketMode = .resolved) (used : s.isUsed i = true)
    (settled : (s.accounts i).SettledUp) (pnl : (s.accounts i).pnl = 0) {Q : Nat → RiskEngine → List Event → Prop}
    (next : ∀ s₁, Freed (s.closedOut i) s₁ i → s₁.swept.cTot + s₁.swept.insuranceFund ≤ s₁.swept.vault →
      Q ((s.accounts i).capital - feeDebtU128Checked (s.accounts i).feeCredits) s₁.swept l) :
    wp (feeDebtSweep i) (fun _ s l => wp (payOutAll i) (fun c s l => wp (freeSlot i) (fun _ s l =>
      wp sweepEmptyMarketSurplusToInsurance (fun _ s l => Q c s l) (fun _ _ => False) s l)
      (fun _ _ => False) s l) (fun _ _ => False)
      (s.setAccount i ((s.accounts i).withFeeCredits (max (s.accounts i).feeCredits 0))) l)
      (fun _ _ => False) s l := by
  have hb : Books s := h.books
  have hterm : Terminal s := h.terminal mode
  have hle := hb.capital_le used
  have hfee := hb.fee i used
  have hbacked := hb.backed
  obtain ⟨hc, hi, hv⟩ := hb.bounds
  set pay := min (feeDebtU128Checked (s.accounts i).feeCredits) (s.accounts i).capital with hpay
  have hpc : pay ≤ (s.accounts i).capital := min_le_right _ _
  have hcredits : max ((s.accounts i).feeCredits + (pay : Int)) 0 = 0 := by
    have : pay ≤ (-(s.accounts i).feeCredits).toNat := min_le_left _ _
    omega
  have hcard : 0 < s.usedSlots.card := Finset.card_pos.mpr ⟨i, RiskEngine.mem_usedSlots.mpr used⟩
  refine wp_mono (hb.feeDebtSweep_safe used) ?_ fun _ _ he => he
  rintro _ _ _ ⟨rfl, rfl⟩
  -- the account after the sweep and the forgiven rest of its debt
  have hclosed : ((s.feeSwept i).setAccount i
      (((s.feeSwept i).accounts i).withFeeCredits (max ((s.feeSwept i).accounts i).feeCredits 0))) =
      s.rebook i (((s.accounts i).withCapital ((s.accounts i).capital - pay)).withFeeCredits 0)
        { s.totals with cTot := s.cTot - pay, insuranceFund := s.insuranceFund + pay } := by
    simp [RiskEngine.feeSwept, ← hpay, hcredits, RiskEngine.rebook, RiskEngine.setAccount, Account.withFeeCredits]
  rw [hclosed]
  refine wp_mono (payOutAll_safe ?_ ?_ ?_) ?_ fun _ _ he => he
  · simp [RiskEngine.totals]; omega
  · simp [RiskEngine.totals]; omega
  · simp [RiskEngine.totals]; omega
  rintro c _ _ ⟨rfl, rfl, rfl⟩
  have hout : ∀ t : RiskEngine, t = s.rebook i
      (((s.accounts i).withCapital ((s.accounts i).capital - pay)).withFeeCredits 0)
      { s.totals with cTot := s.cTot - pay, insuranceFund := s.insuranceFund + pay } →
      t.rebook i ((t.accounts i).withCapital 0)
        { t.totals with vault := t.vault - (t.accounts i).capital, cTot := t.cTot - (t.accounts i).capital } =
      s.closedOut i := by
    rintro t rfl
    have hsub : s.cTot - pay - ((s.accounts i).capital - pay) = s.cTot - (s.accounts i).capital := by omega
    simp [RiskEngine.closedOut, RiskEngine.rebook, RiskEngine.totals, Account.withCapital, Account.withFeeCredits,
      hsub, ← hpay]
  rw [hout _ rfl]
  have hacc : (s.closedOut i).accounts i = ((s.accounts i).withCapital 0).withFeeCredits 0 := by
    simp [RiskEngine.closedOut]
  have hfree : ((s.closedOut i).accounts i).Freeable := by
    have hclear := settled.clear
    rw [hacc]
    refine ⟨pnl, ?_, settled.flat, ?_, ?_, rfl, rfl⟩
    · show (s.accounts i).reservedPnl = 0
      rw [← hclear]; rfl
    · show (s.accounts i).schedPresent = false
      rw [← hclear]; rfl
    · show (s.accounts i).pendingPresent = false
      rw [← hclear]; rfl
  refine wp_mono (freeSlot_safe (s := s.closedOut i) used hfree (hb.numUsed ▸ hcard) (hb.materialized ▸ hcard)) ?_
    fun _ _ he => he
  rintro _ s₁ _ ⟨hfreed, rfl⟩
  have heq := hfreed.eq
  have hvault : s₁.vault = s.vault - ((s.accounts i).capital - pay) := by rw [heq]; rfl
  have hins : s₁.insuranceFund = s.insuranceFund + pay := by rw [heq]; rfl
  have hctot : s₁.cTot = s.cTot - (s.accounts i).capital := by rw [heq]; rfl
  -- the last account: everything was its own
  have hlast : s₁.numUsedAccounts = 0 → s₁.cTot = 0 ∧ s₁.pnlPosTot = 0 ∧ s₁.pnlMaturedPosTot = 0 ∧
      (s₁.sides .long).oiEffQ = 0 ∧ (s₁.sides .short).oiEffQ = 0 := by
    intro hempty
    have hnum : s.usedSlots.card = 1 := by
      have := hfreed.numUsed
      rw [hempty] at this
      exact hb.numUsed.symm.trans this.symm
    obtain ⟨j, hj⟩ := Finset.card_eq_one.mp hnum
    have hji : j = i := by
      have := RiskEngine.mem_usedSlots.mpr used
      rw [hj, Finset.mem_singleton] at this
      exact this.symm
    rw [hji] at hj
    have hct : s.cTot = (s.accounts i).capital := by rw [hb.cTot, hj]; simp [tally]
    have hpos : s.pnlPosTot = 0 := by
      rw [hb.pos, hj]
      simp [tally, Account.posPnl, i128ClampPos, pnl]
    have hmat : s.pnlMaturedPosTot = 0 := hterm.matured.trans hpos
    have e2 : s₁.pnlPosTot = s.pnlPosTot := by rw [heq]; rfl
    have e3 : s₁.pnlMaturedPosTot = s.pnlMaturedPosTot := by rw [heq]; rfl
    have e4 : s₁.sides = s.sides := by rw [heq]; rfl
    rw [hctot, e2, e3, e4]
    exact ⟨by omega, hpos, hmat, hterm.oi .long, hterm.oi .short⟩
  refine wp_mono (sweepEmptyMarketSurplusToInsurance_safe ?_ ?_ hlast) ?_ fun _ _ he => he
  · rw [hvault, hins]; omega
  · rw [hvault]; omega
  · rintro _ _ _ ⟨rfl, rfl⟩
    have hpaid : (s.accounts i).capital - pay =
        (s.accounts i).capital - feeDebtU128Checked (s.accounts i).feeCredits := by omega
    have hswept : s₁.swept.cTot + s₁.swept.insuranceFund ≤ s₁.swept.vault := by
      unfold RiskEngine.swept
      split_ifs with hempty
      · show s₁.cTot + s₁.vault ≤ s₁.vault
        rw [(hlast hempty).1, Nat.zero_add]
      · rw [hctot, hins, hvault]
        omega
    rw [← hpaid] at next
    simpa using next s₁ hfreed hswept

/-! ### The snapshot -/

/-- In a market that is ready for its payouts every account is flat and not negative. -/
theorem Good.ready_flat {ph : Phase} (h : Good ⟨s, ph⟩) (mode : s.marketMode = .resolved)
    (ready : isTerminalReady s = true) (used : s.isUsed i = true) :
    (s.accounts i).positionBasisQ = 0 ∧ 0 ≤ (s.accounts i).pnl := by
  have hb : Books s := h.books
  have hterm : Terminal s := h.terminal mode
  have mem := RiskEngine.mem_usedSlots.mpr used
  have hcounts : (∀ d, (s.sides d).storedPosCount = 0) ∧ s.negPnlAccountCount = 0 := by
    unfold isTerminalReady at ready
    simp only [Bool.or_eq_true, Bool.and_eq_true, decide_eq_true_eq] at ready
    rcases ready with hr | ⟨⟨⟨⟨hl, hs⟩, -⟩, -⟩, hn⟩
    · exact ⟨hterm.flat hr, hterm.nonneg hr⟩
    · exact ⟨fun d => by cases d <;> assumption, hn⟩
  refine ⟨sideOfI128_eq_none.mp ?_, ?_⟩
  · cases hside : sideOfI128 (s.accounts i).positionBasisQ with
    | none => rfl
    | some d => exact absurd (hcounts.1 d) (hb.stored_ne_zero used hside)
  · have hzero := eq_zero_of_tally (f := Account.negPnl) (hb.neg.symm.trans hcounts.2) mem
    unfold Account.negPnl at hzero
    split_ifs at hzero with hlt
    exact not_lt.mp hlt

/-- The engine with its snapshot taken. -/
def RiskEngine.snapshotted (s : RiskEngine) : RiskEngine :=
  if s.resolvedPayoutReady then s else s.withSnapshot

theorem captureSnapshot_safe :
    wp captureSnapshot (fun _ s' l' => s' = s.snapshotted ∧ l' = l) (fun _ _ => False) s l := by
  simp only [captureSnapshot, wp_bind, wp_read, wp_whenever, wp_update, RiskEngine.snapshotted]
  refine ⟨fun h => ?_, fun h => ?_⟩
  · rw [h]
    exact ⟨rfl, trivial⟩
  · rw [Bool.not_eq_false] at h
    rw [h]
    exact ⟨rfl, trivial⟩

theorem RiskEngine.snapshotted_ready : s.snapshotted.resolvedPayoutReady = true := by
  unfold snapshotted
  split_ifs with h
  · exact h
  · rfl

theorem RiskEngine.snapshotted_ratio :
    (s.snapshotted.resolvedPayoutHNum, s.snapshotted.resolvedPayoutHDen) = s.snapshot := by
  unfold snapshotted snapshot
  split_ifs <;> rfl

theorem RiskEngine.snapshotted_eq : s.snapshotted = { s with
    pnlMaturedPosTot := s.snapshotted.pnlMaturedPosTot, resolvedPayoutReady := true
    resolvedPayoutHNum := s.snapshot.1, resolvedPayoutHDen := s.snapshot.2 } := by
  unfold snapshotted snapshot
  split_ifs with h
  · cases s
    simp only at h
    subst h
    rfl
  · rfl

/-- The positive PnL of an account is paid at the ratio of the snapshot. -/
theorem Good.payResolvedPnl_safe (h : Good ⟨s, .idle⟩) (mode : s.marketMode = .resolved)
    (used : s.isUsed i = true) (reserve : (s.accounts i).reservedPnl = 0)
    (ready : s.resolvedPayoutReady = true) (pos : 0 < (s.accounts i).pnl) :
    wp (payResolvedPnl i) (fun _ s' l' => (∃ y, SnapshotPaid s s' i y) ∧ l' = l) (fun _ _ => False) s l := by
  have hb : Books s := h.books
  have hterm : Terminal s := h.terminal mode
  have mem := RiskEngine.mem_usedSlots.mpr used
  have hset := h.settleable mode used reserve
  have hden := hterm.den_pos ready
  have hcap := hb.capital_le used
  have hcovered := hterm.covered ready
  have hpay := le_tally (f := Account.payout s.resolvedPayoutHNum s.resolvedPayoutHDen) (t := s.accounts) mem
  have hvault := hb.vault_le
  have hmax : MAX_VAULT_TVL + MAX_VAULT_TVL ≤ U128_MAX := by decide
  have hrel : (s.accounts i).releasedPos = (s.accounts i).posPnl := by
    unfold Account.releasedPos Account.posPnl; omega
  set y := (s.accounts i).posPnl * s.resolvedPayoutHNum / s.resolvedPayoutHDen with hy
  have hyle : y ≤ s.vault := by
    have : y ≤ tally s.usedSlots s.accounts (Account.payout s.resolvedPayoutHNum s.resolvedPayoutHDen) := hpay
    omega
  have hmul : wideMulDivFloorU128 (s.accounts i).posPnl s.resolvedPayoutHNum s.resolvedPayoutHDen = some y := by
    unfold wideMulDivFloorU128
    rw [if_neg (by omega)]
  have hsafe : wp (payResolvedPnl i) (fun _ _ _ => True) (fun _ _ => False) s l := by
    simp only [payResolvedPnl, wp_bind, wp_read, wp_rejectIf, wp_whenever, wp_expect, wp_orErr, hrel, hmul, implies_true,
      and_true]
    refine ⟨fun hr => hr reserve, fun _ _ => ⟨fun h0 => by omega, fun _ => ⟨(by rintro ⟨⟩), ?_⟩⟩⟩
    rintro _ ⟨⟩
    have hdown : wp (setPnlWithReserve i 0 .noPositiveIncreaseAllowed none) (fun _ _ _ => True)
        (fun _ _ => False) s l := setPnlWithReserve_down hset (by decide) (Nat.zero_le _)
    refine wp_split hdown fun _ s₁ l₁ hok => ?_
    obtain ⟨a', t', rfl, rfl, -, hpnl⟩ := setPnlWithReserve_resolved hok mode
    have hacc : a'.capital = (s.accounts i).capital := by rw [hpnl.same]
    have hct : t'.cTot = s.cTot := by rw [hpnl.frame]; rfl
    simp only [RiskEngine.rebook_accounts, put_same, hacc]
    refine ⟨fun hn => ?_, fun n hn => ?_⟩
    · unfold checkedAddU128 at hn
      rw [if_pos (by omega)] at hn
      cases hn
    · obtain ⟨rfl, -⟩ := checkedAddU128_eq hn
      simp only [setCapital, wp_bind, wp_read, wp_ite, wp_orErr, wp_update, wp_writeAccount, RiskEngine.rebook_accounts,
        put_same, hacc, RiskEngine.rebook_cTot, hct, implies_true, and_true]
      refine ⟨fun _ hn => ?_, fun hlt => absurd (Nat.le_add_right _ _) hlt⟩
      unfold checkedAddU128 at hn
      rw [if_pos (by omega)] at hn
      cases hn
  refine wp_split hsafe fun _ s' l' hok => ?_
  obtain ⟨hpaid, rfl⟩ := payResolvedPnl_spec mode ready pos reserve hok
  exact ⟨hpaid, List.append_nil l⟩

/-! ### A terminal close -/

/-- What a terminal close of account `i` that paid `c` leaves to the others. -/
structure PaidOff (s s' : RiskEngine) (i c : Nat) : Prop where
  gone : s'.isUsed i = false
  vault : s'.vault + c = s.vault
  snapshot : s'.numUsedAccounts ≠ 0 → s'.snapshot = s.snapshot
  ready : isTerminalReady s' = true

/-- What a close-out leaves of the vault and of the market's readiness. -/
theorem closedOut_freed {s₁ : RiskEngine} (hfreed : Freed (s.closedOut i) s₁ i)
    (hcap : (s.accounts i).capital ≤ s.vault) (ready : isTerminalReady s = true) :
    s₁.swept.isUsed i = false ∧
      s₁.swept.vault + ((s.accounts i).capital - feeDebtU128Checked (s.accounts i).feeCredits) = s.vault ∧
      isTerminalReady s₁.swept = true := by
  have heq := hfreed.eq
  rw [RiskEngine.swept_eq]
  refine ⟨?_, ?_, ?_⟩
  · show s₁.isUsed i = false
    rw [hfreed.toSameButSlots.isUsed (isUsed_lt hfreed.used), if_pos rfl]
  · have hvault : (s₁.withInsuranceFund s₁.swept.insuranceFund).vault = (s.closedOut i).vault := by rw [heq]; rfl
    rw [hvault]
    simp only [RiskEngine.closedOut, RiskEngine.rebook_vault]
    omega
  · have hsame : isTerminalReady (s₁.withInsuranceFund s₁.swept.insuranceFund) = isTerminalReady s := by
      rw [heq]; rfl
    exact hsame.trans ready

/-- A close-out keeps the snapshot while an account is left. -/
theorem closedOut_snapshot {s₁ : RiskEngine} (hfreed : Freed (s.closedOut i) s₁ i) (hb : Books s)
    (used : s.isUsed i = true) (some : s₁.swept.numUsedAccounts ≠ 0) : s₁.swept.snapshot = s.snapshot := by
  have heq := hfreed.eq
  have hle := hb.capital_le used
  have hbacked := hb.backed
  have hnum : s₁.numUsedAccounts ≠ 0 := by
    rw [RiskEngine.swept_eq] at some
    exact some
  have hswept : s₁.swept = s₁ := by
    unfold RiskEngine.swept
    rw [if_neg hnum]
  have hres : s₁.residual = s.residual := by
    have e1 : s₁.vault = (s.closedOut i).vault := by rw [heq]
    have e2 : s₁.cTot = (s.closedOut i).cTot := by rw [heq]
    have e3 : s₁.insuranceFund = (s.closedOut i).insuranceFund := by rw [heq]
    unfold RiskEngine.residual
    rw [e1, e2, e3]
    simp only [RiskEngine.closedOut, RiskEngine.rebook_vault, RiskEngine.rebook_cTot, RiskEngine.rebook_insuranceFund]
    have : min (feeDebtU128Checked (s.accounts i).feeCredits) (s.accounts i).capital ≤ (s.accounts i).capital :=
      min_le_right _ _
    omega
  have e4 : s₁.pnlPosTot = s.pnlPosTot := by rw [heq]; rfl
  have e5 : s₁.resolvedPayoutReady = s.resolvedPayoutReady := by rw [heq]; rfl
  have e6 : s₁.resolvedPayoutHNum = s.resolvedPayoutHNum := by rw [heq]; rfl
  have e7 : s₁.resolvedPayoutHDen = s.resolvedPayoutHDen := by rw [heq]; rfl
  rw [hswept]
  unfold RiskEngine.snapshot
  rw [e4, e5, e6, e7, hres]

/-- The checks at the end of a close pass. -/
theorem Good.closed_checks {s₁ : RiskEngine} (h : Good ⟨s, .idle⟩) (hfreed : Freed (s.closedOut i) s₁ i)
    (backed : s₁.swept.cTot + s₁.swept.insuranceFund ≤ s₁.swept.vault) {Q : RiskEngine → Prop}
    (hQ : Q s₁.swept) : wp assertPublicPostconditions (fun _ s' _ => Q s') (fun _ _ => False) s₁.swept l := by
  have heq := hfreed.eq
  have hvault : s₁.swept.vault ≤ MAX_VAULT_TVL := by
    refine le_trans ?_ h.books.vault_le
    have : s₁.swept.vault = (s.closedOut i).vault := by rw [RiskEngine.swept_eq, heq]; rfl
    rw [this]
    exact Nat.sub_le _ _
  have hsides : s₁.swept.sides = s.sides := by rw [RiskEngine.swept_eq, heq]; rfl
  have hbal : (s₁.swept.sides .long).oiEffQ = (s₁.swept.sides .short).oiEffQ := by
    rw [hsides]
    exact h.balanced
  refine wp_mono (assertPublicPostconditions_safe backed hvault hbal) ?_ fun _ _ he => he
  rintro _ _ _ ⟨rfl, -⟩
  exact hQ

/-- The snapshot is taken at most once, and every close after it uses it. -/
theorem Course.snapshotted {sc : Scope} {c : Conf} (h : Course sc c l s .idle) (mode : s.marketMode = .resolved)
    (ready : isTerminalReady s = true) (pos : 0 < s.pnlPosTot) : Course sc c l s.snapshotted .idle := by
  unfold RiskEngine.snapshotted
  split_ifs with hr
  · exact h
  · exact h.quiet (.captured mode ready (by simpa using hr) pos)

/-- In a market that is ready every close succeeds and pays what the snapshot says. -/
theorem Good.close_pays (h : Good ⟨s, .idle⟩) (mode : s.marketMode = .resolved)
    (ready : isTerminalReady s = true) (used : s.isUsed i = true) :
    ∃ s' l, Percolator.closeResolvedTerminal i s = .ok ((s.accounts i).terminalPayout s.snapshot) s' l ∧
      PaidOff s s' i ((s.accounts i).terminalPayout s.snapshot) := by
  obtain ⟨flat, nonneg⟩ := h.ready_flat mode ready used
  have reach : (Scope.single i True False True).reach i := rfl
  have h₁ := (Course.start (Scope.single i True False True) h).quiet (.wiped used reach mode)
  set s₁ := s.setAccount i (s.accounts i).clearReserve with hs₁
  have hacc₁ : s₁.accounts i = (s.accounts i).clearReserve := by simp [hs₁]
  have hsettled : (s₁.accounts i).SettledUp := by rw [hacc₁]; exact ⟨flat, rfl, nonneg⟩
  have ready₁ : isTerminalReady s₁ = true := ready
  have hrun : wp (Percolator.closeResolvedTerminal i)
      (fun c s' _ => c = (s.accounts i).terminalPayout s.snapshot ∧ PaidOff s s' i c) (fun _ _ => False) s [] := by
    simp only [Percolator.closeResolvedTerminal, prepareAccountForResolvedTouch, wp_bind, wp_read, wp_lift, wp_rejectIf,
      wp_whenever, wp_writeAccount, wp_pure, ← hs₁]
    refine ⟨fun hn => hn mode, fun _ => ⟨fun hn => absurd (used.symm.trans hn) (by rintro ⟨⟩), fun _ => ⟨fun hn => hn flat,
      fun _ => ⟨fun hn => absurd nonneg (not_le.mpr hn), fun _ => ⟨fun pos => ⟨fun hn =>
        absurd (ready₁.symm.trans hn) (by rintro ⟨⟩), fun _ => ?_⟩, fun hzero => ?_⟩⟩⟩⟩⟩
    · -- a positive account is paid from the snapshot
      refine wp_mono captureSnapshot_safe ?_ fun _ _ he => he
      rintro _ _ _ ⟨rfl, rfl⟩
      set s₂ := s₁.snapshotted with hs₂
      have hposTot : 0 < s₁.pnlPosTot := by
        have used₁ : s₁.isUsed i = true := used
        have hle : (s₁.accounts i).posPnl ≤ s₁.pnlPosTot := h₁.good.books.posPnl_le used₁
        have : 0 < (s₁.accounts i).posPnl := by unfold Account.posPnl i128ClampPos; omega
        omega
      have h₂ := h₁.snapshotted mode ready₁ hposTot
      have heq₂ : s₂ = { s₁ with
          pnlMaturedPosTot := s₂.pnlMaturedPosTot, resolvedPayoutReady := true
          resolvedPayoutHNum := s₁.snapshot.1, resolvedPayoutHDen := s₁.snapshot.2 } := RiskEngine.snapshotted_eq
      have hacc₂ : s₂.accounts i = (s.accounts i).clearReserve := by rw [heq₂]; exact hacc₁
      have used₂ : s₂.isUsed i = true := by rw [heq₂]; exact used
      have mode₂ : s₂.marketMode = .resolved := by rw [heq₂]; exact mode
      have ready₂ : s₂.resolvedPayoutReady = true := RiskEngine.snapshotted_ready
      have reserve₂ : (s₂.accounts i).reservedPnl = 0 := by rw [hacc₂]; rfl
      have pos₂ : 0 < (s₂.accounts i).pnl := by rw [hacc₂, ← hacc₁]; exact pos
      refine wp_mono (h₂.good.payResolvedPnl_safe mode₂ used₂ reserve₂ ready₂ pos₂) ?_ fun _ _ he => he
      rintro _ s₃ _ ⟨⟨y, hpaid⟩, rfl⟩
      have h₃ := h₂.quiet (.paid used₂ reach ⟨rfl, trivial⟩ mode₂ hpaid)
      have hacc₃ : s₃.accounts i = ((s.accounts i).clearReserve.withPnl 0).withCapital
          ((s.accounts i).capital + y) := by
        rw [hpaid.eq, RiskEngine.rebook_accounts, put_same, hacc₂]
        rfl
      have used₃ : s₃.isUsed i = true := by rw [hpaid.eq]; exact used₂
      have mode₃ : s₃.marketMode = .resolved := by rw [hpaid.eq]; exact mode₂
      have hy : y = (max (s.accounts i).pnl 0).toNat * s.snapshot.1 / s.snapshot.2 := by
        have e1 : s₂.resolvedPayoutHNum = s.snapshot.1 := by rw [heq₂]; rfl
        have e2 : s₂.resolvedPayoutHDen = s.snapshot.2 := by rw [heq₂]; rfl
        have e3 : (s₂.accounts i).posPnl = (max (s.accounts i).pnl 0).toNat := by
          rw [hacc₂]
          show (s.accounts i).pnl.toNat = _
          omega
        rw [hpaid.payout, e1, e2, e3]
      refine h₃.good.closeOut_safe mode₃ used₃ ?_ ?_ fun s₄ hfreed hbacked => ?_
      · rw [hacc₃]
        exact ⟨flat, rfl, le_rfl⟩
      · rw [hacc₃]; rfl
      · refine h₃.good.closed_checks hfreed hbacked ?_
        have hb₃ : Books s₃ := h₃.good.books
        have ready₃ : isTerminalReady s₃ = true := by
          have : s₃.resolvedPayoutReady = true := by rw [hpaid.eq]; exact ready₂
          simp [isTerminalReady, this]
        have hsnap₃ : s₃.snapshot = s.snapshot := by
          have e1 : s₃.resolvedPayoutReady = true := by rw [hpaid.eq]; exact ready₂
          have e2 : (s₃.resolvedPayoutHNum, s₃.resolvedPayoutHDen) = s.snapshot := by
            rw [hpaid.eq]
            exact RiskEngine.snapshotted_ratio
          rw [← e2]
          unfold RiskEngine.snapshot
          rw [e1]
          rfl
        have hvault₃ : s₃.vault = s.vault := by rw [hpaid.eq]; show s₂.vault = s.vault; rw [heq₂]; rfl
        have hpayout : (s₃.accounts i).capital - feeDebtU128Checked (s₃.accounts i).feeCredits =
            (s.accounts i).terminalPayout s.snapshot := by
          rw [hacc₃, hy]
          rfl
        obtain ⟨hgone, hvault, hready⟩ := closedOut_freed hfreed
          ((hb₃.capital_le used₃).trans ((Nat.le_add_right _ _).trans hb₃.backed)) ready₃
        rw [hpayout, hvault₃] at hvault
        exact ⟨hpayout, hgone, hpayout ▸ hvault, fun hn => (closedOut_snapshot hfreed hb₃ used₃ hn).trans hsnap₃, hready⟩
    · -- an account without PnL receives its capital
      have pnl : (s₁.accounts i).pnl = 0 := by
        have := hsettled.nonneg
        omega
      have hpayout : (s₁.accounts i).capital - feeDebtU128Checked (s₁.accounts i).feeCredits =
          (s.accounts i).terminalPayout s.snapshot := by
        have hz : (s.accounts i).pnl = 0 := by rw [hacc₁] at pnl; exact pnl
        rw [hacc₁]
        simp [Account.terminalPayout, hz, feeDebtU128Checked]
      refine h₁.good.closeOut_safe mode used hsettled pnl fun s₂ hfreed hbacked => ?_
      refine h₁.good.closed_checks hfreed hbacked ?_
      have hb₁ : Books s₁ := h₁.good.books
      obtain ⟨hgone, hvault, hready⟩ := closedOut_freed hfreed
        ((hb₁.capital_le used).trans ((Nat.le_add_right _ _).trans hb₁.backed)) ready₁
      exact ⟨hpayout, hgone, hpayout ▸ hvault, closedOut_snapshot (s := s₁) hfreed hb₁ used, hready⟩
  obtain ⟨c, s', l, ok, rfl, hpaid⟩ := wp_total hrun
  exact ⟨s', l, ok, hpaid⟩

/-! ### Fee syncs in between -/

/-- What a fee sync of account `i` on a resolved market leaves alone. -/
structure FeeSynced (s s' : RiskEngine) (i : Nat) : Prop where
  vault : s'.vault = s.vault
  snapshot : s'.snapshot = s.snapshot
  ready : isTerminalReady s' = isTerminalReady s
  used : s'.isUsed = s.isUsed
  others : ∀ j, j ≠ i → s'.accounts j = s.accounts j

/-- A charge moves capital to insurance, and no more. -/
structure FeeMoved (s s' : RiskEngine) (i : Nat) : Prop where
  eq : s' = { s with accounts := s'.accounts, cTot := s'.cTot, insuranceFund := s'.insuranceFund }
  others : ∀ j, j ≠ i → s'.accounts j = s.accounts j
  moved : s'.cTot + s'.insuranceFund = s.cTot + s.insuranceFund

theorem chargeFeeToInsurance_moved {fee : Nat} {r : Nat × Nat × Nat}
    (hok : chargeFeeToInsurance i fee s = .ok r s' l) : FeeMoved s s' i := by
  refine wp_sound (Q := fun _ s' _ => FeeMoved s s' i) hok ?_
  simp only [chargeFeeToInsurance, wp_bind, wp_read, wp_whenever, wp_rejectIf, wp_orErr, wp_update, wp_writeAccount,
    wp_pure, implies_true, true_and]
  have hput : ∀ (t : RiskEngine) (a : Account), FeeMoved s t i → FeeMoved s (t.setAccount i a) i := fun t a ht => by
    refine ⟨?_, fun j hj => (put_other _ _ hj).trans (ht.others j hj), ht.moved⟩
    show ({ t with accounts := put t.accounts i a } : RiskEngine) = _
    rw [ht.eq]
    rfl
  have hrefl : FeeMoved s s i := ⟨rfl, fun _ _ => rfl, rfl⟩
  refine fun _ => ⟨fun _ => wp_ok fun _ s₁ l₁ h₁ fund hf => ?_, fun _ => ⟨fun _ => hput _ _ hrefl, fun _ => hrefl⟩⟩
  obtain ⟨c, rfl, -, hc⟩ := setCapital_spec h₁
  obtain ⟨rfl, -⟩ := checkedAddU128_eq hf
  have hmoved : FeeMoved s ((s.rebook i ((s.accounts i).withCapital
      ((s.accounts i).capital - min fee (s.accounts i).capital)) { s.totals with cTot := c }).withInsuranceFund
      (s.insuranceFund + min fee (s.accounts i).capital)) i := by
    refine ⟨rfl, fun j hj => put_other _ _ hj, ?_⟩
    show c + (s.insuranceFund + min fee (s.accounts i).capital) = s.cTot + s.insuranceFund
    have : min fee (s.accounts i).capital ≤ (s.accounts i).capital := min_le_right _ _
    omega
  exact ⟨fun _ => hput _ _ hmoved, fun _ => hmoved⟩

theorem syncAccountFee_synced {now rate : Nat} (mode : s.marketMode = .resolved)
    (hok : Percolator.syncAccountFee i now rate s = .ok () s' l) : FeeSynced s s' i := by
  have hmoved : FeeMoved s s' i := by
    refine wp_sound (Q := fun _ s' _ => FeeMoved s s' i) hok ?_
    have hput : ∀ (t : RiskEngine) (a : Account), FeeMoved s t i → FeeMoved s (t.setAccount i a) i := fun t a ht => by
      refine ⟨?_, fun j hj => (put_other _ _ hj).trans (ht.others j hj), ht.moved⟩
      show ({ t with accounts := put t.accounts i a } : RiskEngine) = _
      rw [ht.eq]
      rfl
    have hrefl : FeeMoved s s i := ⟨rfl, fun _ _ => rfl, rfl⟩
    simp only [Percolator.syncAccountFee, syncAccountFeeToSlot, assertPublicPostconditions, mode, wp_bind, wp_read,
      wp_lift, wp_whenever, wp_rejectIf, wp_orErr, wp_writeAccount, wp_corruptIf, implies_true, true_and]
    refine fun _ _ _ _ _ => ⟨fun _ => ⟨fun _ raw _ => ⟨fun _ => ?_, fun _ _ _ => hput _ _ hrefl⟩,
      fun _ _ _ => hput _ _ hrefl⟩, fun _ _ _ => hrefl⟩
    exact wp_ok fun _ s₁ l₁ h₁ _ _ => hput _ _ (chargeFeeToInsurance_moved h₁)
  have heq := hmoved.eq
  have hres : s'.residual = s.residual := by
    have e1 : s'.vault = s.vault := by rw [heq]
    unfold RiskEngine.residual
    rw [e1, hmoved.moved]
  refine ⟨by rw [heq], ?_, by rw [heq]; rfl, by rw [heq]; rfl, hmoved.others⟩
  have e1 : s'.resolvedPayoutReady = s.resolvedPayoutReady := by rw [heq]
  have e2 : s'.resolvedPayoutHNum = s.resolvedPayoutHNum := by rw [heq]
  have e3 : s'.resolvedPayoutHDen = s.resolvedPayoutHDen := by rw [heq]
  have e4 : s'.pnlPosTot = s.pnlPosTot := by rw [heq]
  unfold RiskEngine.snapshot
  rw [e1, e2, e3, e4, hres]

/-! ### Closing every account -/

/-- A run of terminal closes from `s` that paid the amounts in `paid`, with fee syncs of
the accounts in `synced` in between. -/
inductive PayoutRun (s : RiskEngine) : Finset Nat → List (Nat × Nat) → RiskEngine → Prop
  | start : PayoutRun s ∅ [] s
  | closed {synced : Finset Nat} {paid : List (Nat × Nat)} {s₁ s₂ : RiskEngine} {i c : Nat} {l : List Event}
      (run : PayoutRun s synced paid s₁) (ok : Percolator.closeResolvedTerminal i s₁ = .ok c s₂ l) :
      PayoutRun s synced (paid ++ [(i, c)]) s₂
  | synced {synced : Finset Nat} {paid : List (Nat × Nat)} {s₁ s₂ : RiskEngine} {i : Nat} {now : UInt64}
      {rate : Nat} {l : List Event} (run : PayoutRun s synced paid s₁)
      (ok : Percolator.syncAccountFee i now.toNat rate s₁ = .ok () s₂ l) :
      PayoutRun s (insert i synced) paid s₂

/-- What such a run keeps. -/
structure PayoutRun.Kept (s : RiskEngine) (synced : Finset Nat) (paid : List (Nat × Nat)) (s₁ : RiskEngine) :
    Prop where
  good : Good ⟨s₁, .idle⟩
  mode : s₁.marketMode = .resolved
  ready : isTerminalReady s₁ = true
  snapshot : s₁.numUsedAccounts ≠ 0 → s₁.snapshot = s.snapshot
  used : ∀ i, s₁.isUsed i = true → s.isUsed i = true
  same : ∀ i, s₁.isUsed i = true → i ∉ synced → s₁.accounts i = s.accounts i
  payouts : ∀ i c, (i, c) ∈ paid → i ∉ synced → c = (s.accounts i).terminalPayout s.snapshot
  total : (paid.map Prod.snd).sum + s₁.vault = s.vault

theorem Books.numUsed_ne_zero (h : Books s) (used : s.isUsed i = true) : s.numUsedAccounts ≠ 0 := by
  rw [h.numUsed]
  exact Finset.card_ne_zero_of_mem (RiskEngine.mem_usedSlots.mpr used)

theorem closeResolvedTerminal_used {c : Nat} (hok : Percolator.closeResolvedTerminal i s = .ok c s' l) :
    s.isUsed i = true := by
  by_contra unused
  refine wp_sound (Q := fun _ _ _ => False) hok ?_
  simp only [Percolator.closeResolvedTerminal, wp_bind, wp_read, wp_lift, wp_rejectIf, implies_true, true_and]
  exact fun _ hused => absurd (by simpa using unused) hused

theorem discard_ok {α : Type} {m : Op α} {a : α} (hok : m s = .ok a s' l) : discard m s = .ok () s' l := by
  show Effect.seq m (fun _ => Effect.ret ()) s = _
  simp [Effect.seq, Effect.ret, hok]

/-- A committed operation leaves a slot out of its reach alone. -/
theorem Good.frame {ins : Instruction} {j : Nat} (h : Good ⟨s, .idle⟩) (ok : ins.run s = .ok () s' l)
    (out : ¬ ins.scope.reach j) : s'.accounts j = s.accounts j ∧ s'.isUsed j = s.isUsed j := by
  obtain ⟨ph, course, rest⟩ := h.committed ok
  exact course.run.frame out

theorem PayoutRun.kept {synced : Finset Nat} {paid : List (Nat × Nat)} {s₁ : RiskEngine}
    (run : PayoutRun s synced paid s₁) (h : Good ⟨s, .idle⟩) (mode : s.marketMode = .resolved)
    (ready : isTerminalReady s = true) : PayoutRun.Kept s synced paid s₁ := by
  induction run with
  | start => exact ⟨h, mode, ready, fun _ => rfl, fun _ hu => hu, fun _ _ _ => rfl, (by simp), Nat.zero_add _⟩
  | @closed synced paid s₁ s₂ i c l run ok ih =>
      have hins : (Instruction.closeResolvedTerminal i).run s₁ = .ok () s₂ l := discard_ok ok
      have used := closeResolvedTerminal_used ok
      have hsnap := ih.snapshot (ih.good.books.numUsed_ne_zero used)
      obtain ⟨s₃, l₃, ok₃, hpaid⟩ := ih.good.close_pays ih.mode ih.ready used
      obtain ⟨rfl, rfl, rfl⟩ : _ ∧ _ ∧ _ := Outcome.ok.inj (ok.symm.trans ok₃)
      have hp : Performed s₁ [(.closeResolvedTerminal i, l)] s₂ := .committed hins
      have hframe := fun j (hj : j ≠ i) => ih.good.frame (j := j) hins fun hr : j = i => hj hr
      have hother : ∀ j, s₂.isUsed j = true → j ≠ i := fun j hj hji => by
        rw [hji, hpaid.gone] at hj
        cases hj
      have hbefore : ∀ j, s₂.isUsed j = true → s₁.isUsed j = true := fun j hj =>
        (hframe j (hother j hj)).2 ▸ hj
      refine ⟨ih.good.performed hp, (ih.good.performed_resolved ih.mode hp).1, hpaid.ready,
        fun hn => (hpaid.snapshot hn).trans hsnap, fun j hj => ih.used j (hbefore j hj), fun j hj hs => ?_,
        fun j c hmem hs => ?_, ?_⟩
      · exact (hframe j (hother j hj)).1.trans (ih.same j (hbefore j hj) hs)
      · rcases List.mem_append.mp hmem with hmem | hmem
        · exact ih.payouts j c hmem hs
        · obtain ⟨rfl, rfl⟩ := Prod.mk.inj (List.mem_singleton.mp hmem)
          rw [hsnap, ih.same j used hs]
      · have hvault := hpaid.vault
        have htotal := ih.total
        simp only [List.map_append, List.sum_append, List.map_cons, List.map_nil, List.sum_cons, List.sum_nil]
        omega
  | @synced synced paid s₁ s₂ i now rate l run ok ih =>
      have hins : (Instruction.syncAccountFee i now rate).run s₁ = .ok () s₂ l := ok
      have hp : Performed s₁ [(.syncAccountFee i now rate, l)] s₂ := .committed hins
      have hsynced := syncAccountFee_synced ih.mode ok
      have hgood := ih.good.performed hp
      have hnum : s₂.numUsedAccounts = s₁.numUsedAccounts := by
        rw [hgood.books.numUsed, ih.good.books.numUsed]
        congr 1
        ext j
        rw [RiskEngine.mem_usedSlots, RiskEngine.mem_usedSlots, hsynced.used]
      refine ⟨hgood, (ih.good.performed_resolved ih.mode hp).1, hsynced.ready.trans ih.ready,
        fun hn => hsynced.snapshot.trans (ih.snapshot (hnum ▸ hn)), fun j hj => ih.used j (hsynced.used ▸ hj),
        fun j hj hs => ?_, fun j c hmem hs => ?_, ?_⟩
      · rw [Finset.mem_insert, not_or] at hs
        exact (hsynced.others j hs.1).trans (ih.same j (hsynced.used ▸ hj) hs.2)
      · exact ih.payouts j c hmem fun hj => hs (Finset.mem_insert_of_mem hj)
      · rw [hsynced.vault]
        exact ih.total

/-- From a state the run has reached, the accounts left can be closed in any order, and each is
paid what its account and the snapshot of `s` say. -/
theorem PayoutRun.close_in_order {synced : Finset Nat} (h : Good ⟨s, .idle⟩) (mode : s.marketMode = .resolved)
    (ready : isTerminalReady s = true) {order : List Nat} :
    ∀ {paid : List (Nat × Nat)} {s₁ : RiskEngine}, PayoutRun s synced paid s₁ → order.Nodup →
      (∀ i ∈ order, s₁.isUsed i = true) →
      ∃ s₂, PayoutRun s synced (paid ++ order.map fun i => (i, (s₁.accounts i).terminalPayout s.snapshot)) s₂ ∧
        ∀ i, s₂.isUsed i = true → s₁.isUsed i = true ∧ i ∉ order := by
  induction order with
  | nil =>
      intro paid s₁ run _ _
      rw [List.map_nil, List.append_nil]
      exact ⟨s₁, run, fun i hi => ⟨hi, List.not_mem_nil⟩⟩
  | cons i rest ih =>
      intro paid s₁ run nodup used
      obtain ⟨hi, hrest⟩ := List.nodup_cons.mp nodup
      have hused := used i List.mem_cons_self
      have hk := run.kept h mode ready
      have hsnap := hk.snapshot (hk.good.books.numUsed_ne_zero hused)
      obtain ⟨s₂, l, ok, hpaid⟩ := hk.good.close_pays hk.mode hk.ready hused
      rw [hsnap] at ok
      have hins : (Instruction.closeResolvedTerminal i).run s₁ = .ok () s₂ l := discard_ok ok
      have hframe := fun j (hj : j ≠ i) => hk.good.frame (j := j) hins fun hr : j = i => hj hr
      have hne : ∀ j ∈ rest, j ≠ i := fun j hj hji => hi (hji ▸ hj)
      obtain ⟨s₃, hrun, hleft⟩ := ih (run.closed ok) hrest fun j hj =>
        (hframe j (hne j hj)).2.trans (used j (List.mem_cons_of_mem i hj))
      refine ⟨s₃, ?_, fun j hj => ?_⟩
      · have hmap : (rest.map fun j => (j, (s₂.accounts j).terminalPayout s.snapshot)) =
            rest.map fun j => (j, (s₁.accounts j).terminalPayout s.snapshot) :=
          List.map_congr_left fun j hj => by rw [(hframe j (hne j hj)).1]
        rw [hmap, List.append_assoc] at hrun
        exact hrun
      · obtain ⟨hj₂, hout⟩ := hleft j hj
        have hji : j ≠ i := by
          rintro rfl
          rw [hpaid.gone] at hj₂
          cases hj₂
        exact ⟨(hframe j hji).2 ▸ hj₂, fun hmem => (List.mem_cons.mp hmem).elim hji hout⟩

/-- From every reachable resolved state that is ready, the accounts can be closed in any order with
fee syncs in between. Every close succeeds and pays what the account and one snapshot say, a close
or a sync of other accounts does not change it, and the last close leaves the vault to insurance. -/
theorem Reachable.payouts_exact (h : Reachable s) (mode : s.marketMode = .resolved)
    (ready : isTerminalReady s = true) {synced : Finset Nat} {paid : List (Nat × Nat)} {s₁ : RiskEngine}
    (run : PayoutRun s synced paid s₁) :
    (∀ i, s₁.isUsed i = true → ∃ s₂ l, Percolator.closeResolvedTerminal i s₁ =
      .ok ((s₁.accounts i).terminalPayout s.snapshot) s₂ l) ∧
    (∀ i, s₁.isUsed i = true → i ∉ synced → s₁.accounts i = s.accounts i) ∧
    (∀ i c, (i, c) ∈ paid → i ∉ synced → c = (s.accounts i).terminalPayout s.snapshot) ∧
    (s₁.resolvedPayoutReady = true → (∃ i, s₁.isUsed i = true) →
      (s₁.resolvedPayoutHNum, s₁.resolvedPayoutHDen) = s.snapshot) ∧
    (paid.map Prod.snd).sum ≤ s.vault ∧
    ((∀ i, s₁.isUsed i = false) → s₁.vault = s₁.insuranceFund) ∧
    ∀ order : List Nat, order.Nodup → (∀ i, i ∈ order ↔ s₁.isUsed i = true) →
      ∃ s₂, PayoutRun s synced
          (paid ++ order.map fun i => (i, (s₁.accounts i).terminalPayout s.snapshot)) s₂ ∧
        (∀ i, s₂.isUsed i = false) ∧ s₂.vault = s₂.insuranceFund := by
  have hk := run.kept h.good mode ready
  have hsnap : ∀ {i}, s₁.isUsed i = true → s₁.snapshot = s.snapshot := fun hu =>
    hk.snapshot (hk.good.books.numUsed_ne_zero hu)
  have hretired : ∀ {s₂ : RiskEngine}, Books s₂ → (∀ i, s₂.isUsed i = false) → s₂.vault = s₂.insuranceFund := by
    intro s₂ hb hnone
    refine (hb.retired ?_).symm
    rw [hb.numUsed, Finset.card_eq_zero, Finset.eq_empty_iff_forall_notMem]
    exact fun i hi => absurd ((hnone i).symm.trans (RiskEngine.mem_usedSlots.mp hi)) (by rintro ⟨⟩)
  refine ⟨fun i hi => ?_, hk.same, hk.payouts, ?_, ?_, hretired hk.good.books, fun order nodup all => ?_⟩
  · obtain ⟨s₂, l, ok, -⟩ := hk.good.close_pays hk.mode hk.ready hi
    rw [hsnap hi] at ok
    exact ⟨s₂, l, ok⟩
  · rintro hr ⟨i, hi⟩
    rw [← hsnap hi]
    unfold RiskEngine.snapshot
    rw [if_pos hr]
  · have := hk.total
    omega
  · obtain ⟨s₂, hrun, hleft⟩ := PayoutRun.close_in_order h.good mode ready run nodup fun i hi => (all i).mp hi
    have hnone : ∀ i, s₂.isUsed i = false := fun i => by
      by_contra hi
      obtain ⟨hu, hout⟩ := hleft i (by simpa using hi)
      exact hout ((all i).mpr hu)
    exact ⟨s₂, hrun, hnone, hretired (hrun.kept h.good mode ready).good.books hnone⟩

/-- The resolved market with its two accounts reconciled. -/
def reconciledMarket : RiskEngine := performAll resolvedMarket [.reconcileResolved 1, .reconcileResolved 2]

theorem reconciledMarket_reachable : Reachable reconciledMarket := resolvedMarket_reachable.performAll _

theorem reconciledMarket_payouts : ∃ s₂ l, Percolator.closeResolvedTerminal 1 reconciledMarket =
    .ok ((reconciledMarket.accounts 1).terminalPayout reconciledMarket.snapshot) s₂ l :=
  (reconciledMarket_reachable.payouts_exact (by decide +kernel) (by decide +kernel) .start).1 1 (by decide +kernel)

end Percolator
