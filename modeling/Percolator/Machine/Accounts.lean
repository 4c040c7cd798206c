import Percolator.Machine.Liquidation

/-!
The courses of the Live instructions on single accounts and on the insurance fund.
-/

namespace Percolator

open Effect

variable {sc : Scope} {c : Conf} {ctx ctx' : InstructionContext} {l l' : List Event}
  {s s' : RiskEngine} {ph ph' : Phase} {i now price amount : Nat}

/-! ### Slots and clocks -/

theorem checkLiveAccrualEnvelope_spec (hok : checkLiveAccrualEnvelope now s = .ok () s' l) :
    s' = s ∧ l = [] ∧ now ≤ saturatingAddU64 s.lastMarketSlot s.params.maxAccrualDtSlots := by
  refine wp_sound (Q := fun _ s' l => s' = s ∧ l = [] ∧
    now ≤ saturatingAddU64 s.lastMarketSlot s.params.maxAccrualDtSlots) hok ?_
  simp only [checkLiveAccrualEnvelope, wp_bind, wp_read, wp_rejectIf, implies_true, true_and, not_lt]
  exact id

theorem checkLiveSlot_spec (hok : checkLiveSlot now s = .ok () s' l) :
    s' = s ∧ l = [] ∧ s.currentSlot ≤ now ∧
      now ≤ saturatingAddU64 s.lastMarketSlot s.params.maxAccrualDtSlots := by
  refine wp_sound (Q := fun _ s' l => s' = s ∧ l = [] ∧ s.currentSlot ≤ now ∧
    now ≤ saturatingAddU64 s.lastMarketSlot s.params.maxAccrualDtSlots) hok ?_
  simp only [checkLiveSlot, wp_bind, wp_read, wp_rejectIf, implies_true, true_and, not_lt]
  intro hle
  refine wp_ok fun _ s₁ l₁ h₁ => ?_
  obtain ⟨rfl, rfl, henv⟩ := checkLiveAccrualEnvelope_spec h₁
  exact ⟨rfl, rfl, hle, henv⟩

/-- Time moves on within the accrual envelope of a Live market. -/
theorem Course.anchor (h : Course sc c l s ph) (live : s.marketMode = .live) (le : s.currentSlot ≤ now)
    (within : now ≤ saturatingAddU64 s.lastMarketSlot s.params.maxAccrualDtSlots) :
    Course sc c l (s.withCurrentSlot now) ph := by
  have htimely : Timely s := h.good.timely
  exact h.quiet (.clocked now s.lastCrankSlot s.lastMarketSlot
    (.live live le ((htimely.market_le live).trans le) within))

theorem sweepEmptyMarketSurplusToInsurance_spec
    (empty : s.numUsedAccounts = 0 → s.cTot = 0 ∧ s.pnlPosTot = 0 ∧ s.pnlMaturedPosTot = 0 ∧
      (s.sides .long).oiEffQ = 0 ∧ (s.sides .short).oiEffQ = 0)
    (hok : sweepEmptyMarketSurplusToInsurance s = .ok () s' l) : s' = s.swept ∧ l = [] := by
  refine wp_sound (Q := fun _ s' l => s' = s.swept ∧ l = []) hok ?_
  simp only [sweepEmptyMarketSurplusToInsurance, wp_bind, wp_read, wp_whenever, wp_rejectIf, wp_orErr, wp_update,
    implies_true, true_and, and_true, not_lt]
  refine ⟨fun h0 hle fund hf => ?_, fun hn => ?_⟩
  · obtain ⟨rfl, -⟩ := checkedAddU128_eq hf
    rw [RiskEngine.swept, if_pos h0.1, Nat.add_sub_cancel' hle]
  · rw [RiskEngine.swept, if_neg fun h0 => hn ⟨h0, empty h0⟩]

/-- A slot is given up, and with the last one the vault goes to insurance. -/
theorem Course.release (h : Course sc c l s ph) (slots : sc.slots) (reach : sc.reach i)
    (charges : sc.charges i) (clean : ph.dirty = false) :
    wp (freeSlot i) (fun _ s l => wp sweepEmptyMarketSurplusToInsurance
      (fun _ s' l' => Course sc c l' s' ph) (fun p => Fault.Sound (.plain p)) s l)
      (fun p => Fault.Sound (.plain p)) s l := by
  refine wp_plain fun _ s₁ l₁ hok => ?_
  obtain ⟨hf, rfl⟩ := freeSlot_spec hok
  refine wp_plain fun _ s₂ l₂ hok => ?_
  have hc := h.quiet (.freed slots reach charges clean hf)
  have hbooks : Books s₁.swept := hc.good.books
  have hempty : s₁.numUsedAccounts = 0 → s₁.cTot = 0 ∧ s₁.pnlPosTot = 0 ∧ s₁.pnlMaturedPosTot = 0 ∧
      (s₁.sides .long).oiEffQ = 0 ∧ (s₁.sides .short).oiEffQ = 0 := by
    intro h0
    have hused : s₁.swept.usedSlots = ∅ := by
      rw [← Finset.card_eq_zero, ← hbooks.numUsed, RiskEngine.swept_eq]
      exact h0
    have hstored : ∀ d, (s₁.swept.sides d).storedPosCount = 0 := fun d => by
      rw [hbooks.stored, hused]; rfl
    have hcTot := hbooks.cTot
    have hpos := hbooks.pos
    have hrest : s₁.swept.pnlMaturedPosTot = 0 ∧ ∀ d, (s₁.swept.sides d).oiEffQ = 0 := by
      cases hmode : s₁.swept.marketMode with
      | live =>
          have hr : Reserves s₁.swept := hc.good.reserves hmode
          have hp : Positions s₁.swept ph := hc.good.positions hmode
          refine ⟨?_, fun d => ((hp.quiet clean d).vacant (hstored d)).1⟩
          rw [hr.matured, hused]; rfl
      | resolved =>
          have ht : Terminal s₁.swept := hc.good.terminal hmode
          refine ⟨?_, ht.oi⟩
          rw [ht.matured, hpos, hused]; rfl
    rw [hused] at hcTot hpos
    rw [RiskEngine.swept_eq] at hcTot hpos hrest
    exact ⟨hcTot, hpos, hrest.1, hrest.2 _, hrest.2 _⟩
  obtain ⟨rfl, rfl⟩ := sweepEmptyMarketSurplusToInsurance_spec hempty hok
  rw [List.append_nil, List.append_nil]
  exact hc

/-- A course that never left the idle phase is done. -/
theorem Course.done (h : Course sc c l s .idle) : Done sc c l s := ⟨.idle, h, Phase.idle_atRest⟩

/-- An instruction on one account begins by accruing and touching it. -/
theorem Good.touched {hMin hMax : Nat} {rate : Int} {R : InstructionContext → RiskEngine → List Event → Prop}
    (h : Good ⟨s, .idle⟩) (pair : AdmissionPair s.params hMin hMax) (instant : hMin = 0 → sc.instant)
    (fits : now ≤ U64_MAX) (reach : sc.reach i)
    (next : ∀ ctx s' l' ph, Between sc ⟨s, .idle⟩ ctx l' s' ph → i ∈ ctx.touchedAccounts → R ctx s' l') :
    wp (accrueAndAnchor now price rate) (fun _ s l =>
      wp (touchAccountLiveLocal i (.newWithAdmission hMin hMax)) R Fault.Sound s l)
      (fun p => Fault.Sound (.plain p)) s [] := by
  refine wp_mono (h.accrue sc pair instant fits) ?_ fun _ _ he => he
  rintro _ s₁ l₁ ⟨-, h₁⟩
  refine wp_mono (h₁.touch reach) ?_ fun _ _ he => he
  rintro ctx s₂ l₂ ⟨ph, h₂, -, hi, -, -⟩
  exact next ctx s₂ l₂ ph h₂ hi

/-! ### The instructions that touch an account -/

section Touching

variable {hMin hMax : Nat} {rate : Int}

theorem Good.settleAccount (h : Good ⟨s, .idle⟩) (fits : now ≤ U64_MAX) (reach : sc.reach i)
    (instant : hMin = 0 → sc.instant) :
    wp (Percolator.settleAccount i price now rate hMin hMax)
      (fun _ s' l' => Done sc ⟨s, .idle⟩ l' s') Fault.Sound s [] := by
  simp only [Percolator.settleAccount, validateAdmissionPair, wp_bind, wp_read, wp_lift, wp_rejectIf,
    Fault.sound_plain, implies_true, true_and, not_not]
  intro pair _ _ _
  exact h.touched pair instant fits reach fun _ _ _ _ h₁ _ => h₁.conclude

theorem checkWithdrawMargin_spec (hok : checkWithdrawMargin i amount price s = .ok () s' l) :
    s' = s ∧ l = [] := by
  refine wp_sound (Q := fun _ s' l => s' = s ∧ l = []) hok ?_
  simp only [checkWithdrawMargin, wp_bind, wp_read, wp_expect, wp_whenever, wp_rejectIf, implies_true,
    true_and, and_self]

theorem Good.withdraw (h : Good ⟨s, .idle⟩) (fits : now ≤ U64_MAX) (reach : sc.reach i)
    (charges : sc.charges i) (instant : hMin = 0 → sc.instant) :
    wp (Percolator.withdraw i amount price now rate hMin hMax)
      (fun _ s' l' => Done sc ⟨s, .idle⟩ l' s') Fault.Sound s [] := by
  simp only [Percolator.withdraw, validateAdmissionPair, wp_bind, wp_read, wp_lift, wp_rejectIf,
    Fault.sound_plain, implies_true, true_and, not_not, not_lt]
  intro pair _ _ _
  refine h.touched pair instant fits reach fun ctx s₁ l₁ ph h₁ hi => ?_
  refine wp_mono h₁.finalize ?_ fun _ _ he => he
  intro _ s₂ l₂ h₂ hle _
  refine wp_plain fun _ s₃ l₃ hok => ?_
  obtain ⟨rfl, rfl⟩ := checkWithdrawMargin_spec hok
  rw [List.append_nil]
  refine wp_plain fun _ s₄ l₄ hok => ?_
  have h₄ := h₂.charged (h₂.members i hi).1 reach charges (payOut_spec hok hle)
  refine wp_mono h₄.finish ?_ fun _ _ he => he
  rintro _ s₅ l₅ ⟨h₅, -⟩
  exact h₅.postconditions ⟨_, h₅, h₄.settledDown_atRest⟩

theorem checkConverted_spec (hok : checkConverted i price s = .ok () s' l) : s' = s ∧ l = [] := by
  refine wp_sound (Q := fun _ s' l => s' = s ∧ l = []) hok ?_
  simp only [checkConverted, wp_bind, wp_read, wp_expect, wp_ite, wp_rejectIf, implies_true,
    true_and, and_self]

/-- What an account has released is part of matured PnL. -/
theorem Between.released_le (h : Between sc c ctx l s ph) (used : s.isUsed i = true) :
    (s.accounts i).releasedPos ≤ s.pnlMaturedPosTot := by
  have hr : Reserves s := h.good.reserves h.live
  rw [hr.matured]
  exact le_tally (f := Account.releasedPos) (t := s.accounts) (RiskEngine.mem_usedSlots.mpr used)

theorem Good.convertReleasedPnl {x : Nat} (h : Good ⟨s, .idle⟩) (fits : now ≤ U64_MAX)
    (reach : sc.reach i) (instant : hMin = 0 → sc.instant) :
    wp (Percolator.convertReleasedPnl i x price now rate hMin hMax)
      (fun _ s' l' => Done sc ⟨s, .idle⟩ l' s') Fault.Sound s [] := by
  simp only [Percolator.convertReleasedPnl, validateAdmissionPair, wp_bind, wp_read, wp_lift, wp_rejectIf,
    Fault.sound_plain, implies_true, true_and, not_not]
  intro pair _ _ _
  refine h.touched pair instant fits reach fun ctx s₁ l₁ ph h₁ hi => ?_
  refine wp_plain fun _ s₂ l₂ hok => ?_
  have used := (h₁.members i hi).1
  have h₂ := h₁.booked used reach
    (convertAtHaircut_spec hok h₁.live h₁.toCourse.backing (h₁.released_le used))
  refine wp_plain fun _ s₃ l₃ hok => ?_
  have used := (h₂.members i hi).1
  have h₃ := h₂.booked used reach (feeDebtSweep_spec (h₂.toCourse.fee used) hok)
  refine wp_plain fun _ s₄ l₄ hok => ?_
  obtain ⟨rfl, rfl⟩ := checkConverted_spec hok
  rw [List.append_nil]
  exact h₃.conclude

theorem Good.closeAccount (h : Good ⟨s, .idle⟩) (fits : now ≤ U64_MAX) (reach : sc.reach i)
    (charges : sc.charges i) (slots : sc.slots) (instant : hMin = 0 → sc.instant) :
    wp (Percolator.closeAccount i now price rate hMin hMax)
      (fun _ s' l' => Done sc ⟨s, .idle⟩ l' s') Fault.Sound s [] := by
  simp only [Percolator.closeAccount, validateAdmissionPair, wp_bind, wp_read, wp_lift, wp_rejectIf,
    wp_expect, wp_pure, Fault.sound_plain, implies_true, true_and, not_not]
  intro pair _ _
  refine h.touched pair instant fits reach fun ctx s₁ l₁ ph h₁ hi => ?_
  refine wp_mono h₁.finalize ?_ fun _ _ he => he
  intro _ s₂ l₂ h₂ _ _ _ _ _ _ _
  refine wp_plain fun _ s₃ l₃ hok => ?_
  have h₃ := h₂.charged (h₂.members i hi).1 reach charges (payOutAll_spec hok).2.2
  refine wp_mono h₃.finish ?_ fun _ _ he => he
  rintro _ s₄ l₄ ⟨h₄, -⟩
  refine wp_mono (h₄.release slots reach charges rfl) (fun _ s₅ l₅ hw => ?_) fun _ _ he => he
  refine wp_mono hw (fun _ s₆ l₆ h₆ => ?_) fun _ _ he => he
  exact h₆.postconditions ⟨_, h₆, h₃.settledDown_atRest⟩

end Touching

/-! ### The instructions that touch nobody -/

section Untouching

theorem Good.setOwner {owner : Bytes32} (h : Good ⟨s, .idle⟩) (reach : sc.reach i) :
    wp (Percolator.setOwner i owner) (fun _ s' l' => Done sc ⟨s, .idle⟩ l' s') Fault.Sound s [] := by
  simp only [Percolator.setOwner, wp_bind, wp_read, wp_lift, wp_rejectIf, wp_writeAccount,
    Fault.sound_plain, implies_true, true_and, Bool.not_eq_false]
  intro used _ _
  have htimely : Timely s := h.timely
  have hsame : (s.accounts i).SameButLabels ((s.accounts i).withOwner owner) := rfl
  exact ((Course.start _ h).quiet (.relabeled used reach hsame (htimely.fee i used))).done

theorem Good.accrueMarket {rate : Int} (h : Good ⟨s, .idle⟩) (fits : now ≤ U64_MAX) :
    wp (liftM (accrueMarketTo now price rate) : Op Unit)
      (fun _ s' l' => Done sc ⟨s, .idle⟩ l' s') Fault.Sound s [] := by
  simp only [wp_lift]
  refine wp_plain fun _ s₁ l₁ hok => ?_
  obtain ⟨live, ⟨rfl, hcur, hnow, rfl⟩ | ⟨rfl, hacc⟩⟩ := accrueMarketTo_spec hok
  · refine ((Course.start sc h).anchor live hcur ?_).done
    unfold saturatingAddU64
    omega
  · exact ((Course.start _ h).step (.accrued Phase.idle_atRest rfl live fits hacc)).done

/-- A slot may be taken before the time of the market is written. -/
theorem Materialized.withCurrentSlot {slot t : Nat} (h : Materialized s s' i slot) :
    Materialized (s.withCurrentSlot t) (s'.withCurrentSlot t) i slot :=
  ⟨⟨by rw [h.eq]; rfl⟩, h.unused, h.lt, h.numUsed, h.materialized, h.capacity, h.room⟩

/-- A deposit into an account that is there, and stays there. -/
theorem Course.credit (h : Course sc c l s .idle) (reach : sc.reach i) (used : s.isUsed i = true)
    (hcap : s.vault + amount ≤ MAX_VAULT_TVL) :
    wp (creditDeposit i amount (s.vault + amount)) (fun _ s l =>
      wp (settleLosses i) (fun _ s l =>
        ((s.accounts i).positionBasisQ = 0 ∧ 0 ≤ (s.accounts i).pnl →
          wp (feeDebtSweep i) (fun _ s l => wp assertPublicPostconditions
            (fun _ s' l' => Done sc c l' s' ∧ s'.isUsed i = true) Fault.Sound s l)
            (fun p => Fault.Sound (.plain p)) s l) ∧
        (¬ ((s.accounts i).positionBasisQ = 0 ∧ 0 ≤ (s.accounts i).pnl) →
          wp assertPublicPostconditions (fun _ s' l' => Done sc c l' s' ∧ s'.isUsed i = true) Fault.Sound s l))
        (fun p => Fault.Sound (.plain p)) s l) (fun p => Fault.Sound (.plain p)) s l := by
  refine wp_plain fun _ s₁ l₁ hok => wp_plain fun _ s₂ l₂ hok' => ?_
  have b₁ := creditDeposit_spec hcap hok
  have h₁ := h.booked used reach b₁
  have used₁ : s₁.isUsed i = true := by
    rw [(b₁.sameSeats fun _ _ e => e.exact.position).used]; exact used
  have b₂ := settleLosses_spec hok'
  have h₂ := h₁.booked used₁ reach b₂
  have used₂ : s₂.isUsed i = true := by
    rw [(b₂.sameSeats fun _ _ e => e.exact.position).used]; exact used₁
  refine ⟨fun _ => wp_plain fun _ s₃ l₃ hok => ?_, fun _ => h₂.postconditions ⟨h₂.done, used₂⟩⟩
  have b₃ := feeDebtSweep_spec (h₂.fee used₂) hok
  have h₃ := h₂.booked used₂ reach b₃
  have used₃ : s₃.isUsed i = true := by
    rw [(b₃.sameSeats fun _ _ e => e.exact.position).used]; exact used₂
  exact h₃.postconditions ⟨h₃.done, used₃⟩

theorem Good.deposit_used (h : Good ⟨s, .idle⟩) (reach : sc.reach i) (slots : sc.slots) :
    wp (Percolator.deposit i amount now) (fun _ s' l' => Done sc ⟨s, .idle⟩ l' s' ∧ s'.isUsed i = true)
      Fault.Sound s [] := by
  simp only [Percolator.deposit, wp_bind, wp_read, wp_lift, wp_rejectIf, wp_ite, wp_update, wp_pure,
    wp_whenever, Fault.sound_plain, implies_true, true_and, not_not, not_lt, Bool.not_eq_false]
  intro live le _
  refine wp_plain fun _ s₁ l₁ hok => ?_
  obtain ⟨rfl, rfl, within⟩ := checkLiveAccrualEnvelope_spec hok
  refine wp_plain fun v s₁ l₁ hok => ?_
  obtain ⟨rfl, rfl, rfl, hcap⟩ := vaultAfter_spec hok
  have h₁ := (Course.start sc h).anchor live le within
  refine ⟨fun unused _ => wp_plain fun _ s₂ l₂ hok => fun _ => ?_, fun used _ =>
    h₁.credit reach used hcap⟩
  obtain ⟨hm, rfl⟩ := materializeAt_spec hok
  have h₂ := h₁.quiet (.materialized slots reach live le_rfl hm.withCurrentSlot)
  have used : s₂.isUsed i = true := by rw [hm.toSameButSlots.isUsed hm.lt, if_pos rfl]
  have hvault : (s₂.withCurrentSlot now).vault = s₁.vault := by rw [hm.eq]; rfl
  rw [← hvault] at hcap ⊢
  exact h₂.credit reach used hcap

theorem Good.deposit (h : Good ⟨s, .idle⟩) (reach : sc.reach i) (slots : sc.slots) :
    wp (Percolator.deposit i amount now) (fun _ s' l' => Done sc ⟨s, .idle⟩ l' s') Fault.Sound s [] :=
  wp_mono (h.deposit_used reach slots) (fun _ _ _ done => done.1) fun _ _ sound => sound

theorem Good.topUpInsuranceFund (h : Good ⟨s, .idle⟩) :
    wp (Percolator.topUpInsuranceFund amount now) (fun _ s' l' => Done sc ⟨s, .idle⟩ l' s')
      Fault.Sound s [] := by
  simp only [Percolator.topUpInsuranceFund, wp_bind, wp_read, wp_lift, wp_rejectIf, wp_orErr, wp_update,
    wp_pure, Fault.sound_plain, implies_true, true_and, not_not]
  intro live
  refine wp_plain fun _ s₁ l₁ hok => ?_
  obtain ⟨rfl, rfl, le, within⟩ := checkLiveSlot_spec hok
  refine wp_plain fun v s₁ l₁ hok fund hf => ?_
  obtain ⟨rfl, rfl, rfl, hcap⟩ := vaultAfter_spec hok
  obtain ⟨rfl, -⟩ := checkedAddU128_eq hf
  have h₁ := (Course.start sc h).anchor live le within
  exact (h₁.quiet (.funded amount hcap)).done

theorem Good.chargeAccountFee {fee : Nat} (h : Good ⟨s, .idle⟩) (reach : sc.reach i)
    (charges : sc.charges i) :
    wp (Percolator.chargeAccountFee i fee now) (fun _ s' l' => Done sc ⟨s, .idle⟩ l' s')
      Fault.Sound s [] := by
  simp only [Percolator.chargeAccountFee, wp_bind, wp_read, wp_lift, wp_rejectIf, wp_whenever, wp_update,
    wp_pure, Fault.sound_plain, implies_true, true_and, not_not, Bool.not_eq_false]
  intro live used
  refine wp_plain fun _ s₁ l₁ hok _ => ?_
  obtain ⟨rfl, rfl, le, within⟩ := checkLiveSlot_spec hok
  have h₁ := (Course.start sc h).anchor live le within
  refine ⟨fun _ => wp_plain fun r s₂ l₂ hok => ?_, fun _ => h₁.postconditions h₁.done⟩
  have h₂ := h₁.charged used reach (.inl charges) (chargeFeeToInsurance_spec hok (h₁.fee used))
  exact h₂.postconditions h₂.done

theorem Good.settleFlatNegativePnl (h : Good ⟨s, .idle⟩) (reach : sc.reach i) :
    wp (Percolator.settleFlatNegativePnl i now) (fun _ s' l' => Done sc ⟨s, .idle⟩ l' s')
      Fault.Sound s [] := by
  simp only [Percolator.settleFlatNegativePnl, wp_bind, wp_read, wp_lift, wp_rejectIf, wp_ite, wp_update,
    wp_pure, Fault.sound_plain, implies_true, true_and, not_not, Bool.not_eq_false]
  intro live used
  refine wp_plain fun _ s₁ l₁ hok _ _ => ?_
  obtain ⟨rfl, rfl, le, within⟩ := checkLiveSlot_spec hok
  have h₁ := (Course.start sc h).anchor live le within
  refine ⟨fun _ => (Course.start _ h).done, fun _ => wp_plain fun _ s₂ l₂ hok => ?_⟩
  have b₁ := settleLosses_spec hok
  have h₂ := h₁.booked used reach b₁
  have used₂ : s₂.isUsed i = true := by
    rw [(b₁.sameSeats fun _ _ e => e.exact.position).used]; exact used
  refine wp_plain fun _ s₃ l₃ hok => ?_
  have h₃ := h₂.forgave used₂ reach rfl (resolveFlatNegative_spec hok)
  exact h₃.postconditions h₃.done

theorem Good.depositFeeCredits (h : Good ⟨s, .idle⟩) (reach : sc.reach i) :
    wp (Percolator.depositFeeCredits i amount now) (fun _ s' l' => Done sc ⟨s, .idle⟩ l' s')
      Fault.Sound s [] := by
  simp only [Percolator.depositFeeCredits, wp_bind, wp_read, wp_lift, wp_rejectIf, wp_ite, wp_orErr, wp_update,
    wp_writeAccount, Fault.sound_plain, implies_true, true_and, not_not, not_lt, Bool.not_eq_false]
  intro live used
  refine wp_plain fun _ s₁ l₁ hok hdebt => ?_
  obtain ⟨rfl, rfl, le, within⟩ := checkLiveSlot_spec hok
  have h₁ := (Course.start sc h).anchor live le within
  refine ⟨fun _ => h₁.done, fun hpos _ => wp_plain fun v s₂ l₂ hok fund hf credits hcredits => ?_⟩
  obtain ⟨rfl, rfl, rfl, hcap⟩ := vaultAfter_spec hok
  obtain ⟨rfl, -⟩ := checkedAddU128_eq hf
  obtain ⟨rfl, -⟩ := toI128_eq hcredits
  have hdebt : (s₂.accounts i).feeCredits + amount ≤ 0 := by
    have : feeDebtU128Checked (s₂.accounts i).feeCredits = (-(s₂.accounts i).feeCredits).toNat := rfl
    omega
  have hstep := h₁.quiet (.booked used reach (.debtPaid amount hcap hdebt))
  exact hstep.done

/-- A fee is charged up to a slot that is not in the future, and the slot is noted. -/
theorem Course.syncFee {anchor rate : Nat} (h : Course sc c l s ph) (reach : sc.reach i)
    (charges : sc.charges i) :
    wp (syncAccountFeeToSlot i anchor rate) (fun _ s' l' => Course sc c l' s' ph)
      (fun p => Fault.Sound (.plain p)) s l := by
  simp only [syncAccountFeeToSlot, wp_bind, wp_read, wp_rejectIf, wp_whenever, wp_orErr, wp_writeAccount,
    wp_pure, Fault.sound_plain, implies_true, true_and, not_lt, Bool.not_eq_false]
  intro used _ hanchor
  have htimely : Timely s := h.good.timely
  have hslot : anchor ≤ s.currentSlot := by
    cases hmode : s.marketMode with
    | live => rw [hmode] at hanchor; exact hanchor
    | resolved => rw [hmode] at hanchor; rw [htimely.resolved hmode]; exact hanchor
  -- the last write, wherever the fee left the account
  have hmark : ∀ {s₁ l₁}, Course sc c l₁ s₁ ph → s₁.isUsed i = true → anchor ≤ s₁.currentSlot →
      Course sc c l₁ (s₁.setAccount i ((s₁.accounts i).withLastFeeSlot anchor)) ph := by
    intro s₁ l₁ h₁ used hslot
    have hsame : (s₁.accounts i).SameButLabels ((s₁.accounts i).withLastFeeSlot anchor) := rfl
    exact h₁.quiet (.relabeled used reach hsame hslot)
  refine ⟨fun _ => ⟨fun _ raw _ => ⟨fun _ => wp_plain fun r s₁ l₁ hok => ?_,
    fun _ => hmark h used hslot⟩, fun _ => hmark h used hslot⟩, fun _ => h⟩
  have b₁ := chargeFeeToInsurance_spec hok (h.fee used)
  have hframe : s₁.isUsed i = true ∧ s₁.currentSlot = s.currentSlot := by
    rcases b₁ with ⟨rfl, -⟩ | ⟨a', t', rfl, -⟩
    · exact ⟨used, rfl⟩
    · exact ⟨used, rfl⟩
  exact hmark (h.charged used reach (.inl charges) b₁) hframe.1 (hframe.2 ▸ hslot)

theorem Good.syncAccountFee {rate : Nat} (h : Good ⟨s, .idle⟩) (reach : sc.reach i)
    (charges : sc.charges i) :
    wp (Percolator.syncAccountFee i now rate) (fun _ s' l' => Done sc ⟨s, .idle⟩ l' s')
      Fault.Sound s [] := by
  simp only [Percolator.syncAccountFee, wp_bind, wp_read, wp_lift, wp_rejectIf, Fault.sound_plain, implies_true,
    true_and, not_lt, Bool.not_eq_false]
  intro _ le
  cases hmode : s.marketMode with
  | live =>
      simp only [wp_bind, wp_lift, wp_update]
      refine wp_plain fun _ s₁ l₁ hok => ?_
      obtain ⟨rfl, rfl, within⟩ := checkLiveAccrualEnvelope_spec hok
      have h₁ := (Course.start sc h).anchor hmode le within
      refine wp_mono (h₁.syncFee reach charges) ?_ fun _ _ he => he
      exact fun _ s₂ l₂ h₂ => h₂.postconditions h₂.done
  | resolved =>
      simp only [wp_bind, wp_lift]
      refine wp_mono ((Course.start _ h).syncFee reach charges) ?_ fun _ _ he => he
      exact fun _ s₁ l₁ h₁ => h₁.postconditions h₁.done

theorem Good.reclaimEmptyAccount (h : Good ⟨s, .idle⟩) (reach : sc.reach i) (charges : sc.charges i)
    (slots : sc.slots) :
    wp (Percolator.reclaimEmptyAccount i now) (fun _ s' l' => Done sc ⟨s, .idle⟩ l' s')
      Fault.Sound s [] := by
  simp only [Percolator.reclaimEmptyAccount, wp_bind, wp_read, wp_lift, wp_rejectIf, wp_update,
    Fault.sound_plain, implies_true, true_and, not_not, Bool.not_eq_false]
  intro live used
  refine wp_plain fun _ s₁ l₁ hok => ?_
  obtain ⟨rfl, rfl, le, within⟩ := checkLiveSlot_spec hok
  intro _ _ _ _ _ _
  have h₁ := (Course.start sc h).anchor live le within
  refine wp_plain fun _ s₂ l₂ hok => ?_
  obtain ⟨s₃, b₁, b₂, rfl, -⟩ := reclaimDust_spec hok
  have h₃ := h₁.charged used reach (.inl charges) b₁
  have used₃ : s₃.isUsed i = true := by
    rw [(b₁.sameSeats fun _ _ e => e.1.exact.position).used]; exact used
  have h₂ := h₃.charged used₃ reach (.inl charges) b₂
  refine wp_mono (h₂.release slots reach charges rfl) (fun _ s₅ l₅ hw => ?_) fun _ _ he => he
  exact wp_mono hw (fun _ s₆ l₆ h₆ => h₆.postconditions h₆.done) fun _ _ he => he

end Untouching

end Percolator
