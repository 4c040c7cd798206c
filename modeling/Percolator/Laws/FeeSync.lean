import Percolator.Laws.Payouts

/-!
Recurring fees: two syncs are one, whatever capital is left between them, and a
sync moves capital to the insurance fund, notes the rest as debt and drops what
is beyond the debt limit.
-/

namespace Percolator

open Effect

variable {s s' : RiskEngine} {i fee more slot slot' rate anchor : Nat} {a : Account} {l : List Event}

/-! ### What a fee leaves -/

/-- What of a fee is paid from capital. -/
def Account.feePaid (a : Account) (fee : Nat) : Nat := min fee a.capital

/-- What of a fee is noted as debt. -/
def Account.feeNoted (a : Account) (fee : Nat) : Nat :=
  min (fee - a.feePaid fee) (feeHeadroom a.feeCredits)

/-- An account after a fee. -/
def Account.afterFee (a : Account) (fee : Nat) : Account :=
  (a.withCapital (a.capital - a.feePaid fee)).withFeeCredits (a.feeCredits - a.feeNoted fee)

/-- The engine after a fee of account `i`. -/
def RiskEngine.feeCharged (s : RiskEngine) (i fee : Nat) : RiskEngine :=
  s.rebook i ((s.accounts i).afterFee fee) { s.totals with
    cTot := s.cTot - (s.accounts i).feePaid fee
    insuranceFund := s.insuranceFund + (s.accounts i).feePaid fee }

/-- The engine after a sync of account `i` to `slot` that charges `fee`. -/
def RiskEngine.feeSynced (s : RiskEngine) (i fee slot : Nat) : RiskEngine :=
  (s.feeCharged i fee).setAccount i (((s.accounts i).afterFee fee).withLastFeeSlot slot)

/-- The fee of the slots since the last sync. -/
def Account.feeDue (a : Account) (slot rate : Nat) : Nat :=
  min (rate * (slot - a.lastFeeSlot)) MAX_PROTOCOL_FEE_ABS

theorem feeHeadroom_eq {credits : Int} (low : -I128_MAX ≤ credits) (high : credits ≤ 0) :
    (feeHeadroom credits : Int) = credits + I128_MAX := by
  have fits : checkedAddI128 credits I128_MAX = some (credits + I128_MAX) := by
    rw [checkedAddI128, toI128, if_pos]
    simp only [I128_MAX, I128_MIN] at *
    omega
  rw [feeHeadroom, fits]
  exact Int.toNat_of_nonneg (by omega)

section Account

variable (low : -I128_MAX ≤ a.feeCredits) (high : a.feeCredits ≤ 0)

theorem Account.feePaid_add :
    a.feePaid fee + (a.afterFee fee).feePaid more = a.feePaid (fee + more) := by
  simp only [feePaid, afterFee, Account.withFeeCredits_capital, Account.withCapital_capital]
  omega

include low high in
theorem Account.feeNoted_add :
    a.feeNoted fee + (a.afterFee fee).feeNoted more = a.feeNoted (fee + more) := by
  have room := feeHeadroom_eq low high
  have within : (a.feeNoted fee : Int) ≤ feeHeadroom a.feeCredits := by
    exact_mod_cast min_le_right _ _
  have left : (feeHeadroom (a.feeCredits - a.feeNoted fee) : Int) =
      a.feeCredits - a.feeNoted fee + I128_MAX := feeHeadroom_eq (by omega) (by omega)
  simp only [feeNoted, feePaid, afterFee, Account.withFeeCredits_capital, Account.withCapital_capital,
    Account.withFeeCredits_feeCredits] at *
  omega

include low high in
/-- Two fees are one, also when capital or room for debt runs out in between. -/
theorem Account.afterFee_afterFee : (a.afterFee fee).afterFee more = a.afterFee (fee + more) := by
  have paid : a.feePaid fee + (a.afterFee fee).feePaid more = a.feePaid (fee + more) := a.feePaid_add
  have noted : a.feeNoted fee + (a.afterFee fee).feeNoted more = a.feeNoted (fee + more) :=
    a.feeNoted_add low high
  have capital : a.capital - a.feePaid fee - (a.afterFee fee).feePaid more =
      a.capital - a.feePaid (fee + more) := by omega
  have credits : a.feeCredits - a.feeNoted fee - (a.afterFee fee).feeNoted more =
      a.feeCredits - a.feeNoted (fee + more) := by omega
  show (a.afterFee fee).afterFee more = a.afterFee (fee + more)
  rw [Account.afterFee.eq_1 a (fee + more), ← capital, ← credits]
  rfl

theorem Account.afterFee_zero : a.afterFee 0 = a := by
  simp [afterFee, feePaid, feeNoted, Account.withCapital, Account.withFeeCredits]

end Account

/-! ### Charging -/

theorem RiskEngine.feeSynced_feeSynced (low : -I128_MAX ≤ (s.accounts i).feeCredits)
    (high : (s.accounts i).feeCredits ≤ 0) :
    (s.feeSynced i fee slot).feeSynced i more slot' = s.feeSynced i (fee + more) slot' := by
  have account : ((s.feeSynced i fee slot).accounts i) =
      ((s.accounts i).afterFee fee).withLastFeeSlot slot := by
    simp [feeSynced]
  have paid : (s.accounts i).feePaid fee + ((s.accounts i).afterFee fee).feePaid more =
      (s.accounts i).feePaid (fee + more) := (s.accounts i).feePaid_add
  have both : ((s.accounts i).afterFee fee).afterFee more = (s.accounts i).afterFee (fee + more) :=
    (s.accounts i).afterFee_afterFee low high
  have later : (((s.accounts i).afterFee fee).withLastFeeSlot slot).feePaid more =
      ((s.accounts i).afterFee fee).feePaid more := rfl
  have last : ((((s.accounts i).afterFee fee).withLastFeeSlot slot).afterFee more).withLastFeeSlot
      slot' = (((s.accounts i).afterFee fee).afterFee more).withLastFeeSlot slot' := rfl
  have tot : s.cTot - (s.accounts i).feePaid fee - ((s.accounts i).afterFee fee).feePaid more =
      s.cTot - (s.accounts i).feePaid (fee + more) := by omega
  have fund : s.insuranceFund + (s.accounts i).feePaid fee +
      ((s.accounts i).afterFee fee).feePaid more =
      s.insuranceFund + (s.accounts i).feePaid (fee + more) := by omega
  rw [feeSynced, feeCharged, account, later, last, both]
  simp only [feeSynced, feeCharged, RiskEngine.rebook, RiskEngine.setAccount, RiskEngine.totals,
    tot, fund, put_put]

/-- Without a fee only the slot is noted. -/
theorem RiskEngine.marked_eq :
    s.setAccount i ((s.accounts i).withLastFeeSlot slot) = s.feeSynced i 0 slot := by
  have paid : (s.accounts i).feePaid 0 = 0 := Nat.zero_min _
  rw [feeSynced, feeCharged, Account.afterFee_zero, paid]
  simp [RiskEngine.totals, RiskEngine.rebook, RiskEngine.setAccount]

/-- No fee up to the slot noted last is nothing. -/
theorem RiskEngine.feeSynced_still (last : (s.accounts i).lastFeeSlot = slot) :
    s.feeSynced i 0 slot = s := by
  have same : (s.accounts i).withLastFeeSlot slot = s.accounts i := by
    rw [← last]
    rfl
  rw [← marked_eq, same, setAccount_eta]

/-- A fee within the protocol's cap is charged without fail. -/
theorem Books.charge_safe (h : Books s) (used : s.isUsed i = true) (cap : fee ≤ MAX_PROTOCOL_FEE_ABS) :
    wp (chargeFeeToInsurance i fee) (fun _ s' l' => s' = s.feeCharged i fee ∧ l' = l)
      (fun _ _ => False) s l := by
  have hle := h.capital_le used
  obtain ⟨hc, hi, hv⟩ := h.bounds
  have hbacked := h.backed
  have hpaid : min fee (s.accounts i).capital = (s.accounts i).feePaid fee := rfl
  have hnoted : min (fee - (s.accounts i).feePaid fee) (feeHeadroom (s.accounts i).feeCredits) =
      (s.accounts i).feeNoted fee := rfl
  simp only [chargeFeeToInsurance, wp_bind, wp_read, wp_whenever, wp_rejectIf, wp_orErr, wp_update,
    wp_writeAccount, wp_pure, hpaid, hnoted]
  have hbound : (s.accounts i).feePaid fee ≤ (s.accounts i).capital := min_le_right _ _
  refine ⟨fun above => by omega, fun _ => ⟨fun paid => ?_, fun unpaid => ?_⟩⟩
  · refine wp_mono (setCapital_down hle (by omega) hc) ?_ fun _ _ he => he
    rintro _ _ _ ⟨rfl, rfl⟩
    have fits : checkedAddU128 s.insuranceFund ((s.accounts i).feePaid fee) =
        some (s.insuranceFund + (s.accounts i).feePaid fee) := by
      rw [checkedAddU128, if_pos (by omega)]
    have tot : s.cTot - ((s.accounts i).capital - ((s.accounts i).capital -
        (s.accounts i).feePaid fee)) = s.cTot - (s.accounts i).feePaid fee := by omega
    refine ⟨fun none => absurd (fits.symm.trans none) (by rintro ⟨⟩), fun fund some => ?_⟩
    obtain rfl : fund = s.insuranceFund + (s.accounts i).feePaid fee :=
      (Option.some.inj (fits.symm.trans some)).symm
    rw [tot]
    refine ⟨fun _ => ⟨?_, rfl⟩, fun owed => ⟨?_, rfl⟩⟩
    · simp [RiskEngine.feeCharged, RiskEngine.rebook, RiskEngine.setAccount, RiskEngine.withInsuranceFund,
        Account.afterFee, RiskEngine.totals]
    · have none : (s.accounts i).feeNoted fee = 0 := by omega
      simp [RiskEngine.feeCharged, RiskEngine.rebook, RiskEngine.withInsuranceFund,
        Account.afterFee, RiskEngine.totals, none, Account.withFeeCredits, Account.withCapital]
  · have paid : (s.accounts i).feePaid fee = 0 := by omega
    refine ⟨fun _ => ⟨?_, trivial⟩, fun owed => ⟨?_, trivial⟩⟩
    · simp [RiskEngine.feeCharged, RiskEngine.rebook, RiskEngine.setAccount,
        Account.afterFee, RiskEngine.totals, paid, Account.withCapital]
    · have none : (s.accounts i).feeNoted fee = 0 := by omega
      simp [RiskEngine.feeCharged, RiskEngine.totals, RiskEngine.rebook, Account.afterFee, paid, none,
        Account.withFeeCredits, Account.withCapital]

/-- The last slot that a fee may be charged up to. -/
def RiskEngine.feeHorizon (s : RiskEngine) : Nat :=
  match s.marketMode with
  | .live => s.currentSlot
  | .resolved => s.resolvedSlot

/-- A sync within the bounds of the mode goes through at every rate. -/
theorem Books.sync_safe (h : Books s) (used : s.isUsed i = true) (since : (s.accounts i).lastFeeSlot ≤ anchor)
    (within : anchor ≤ s.feeHorizon) (narrow : anchor ≤ U64_MAX) (word : rate ≤ U128_MAX) :
    wp (syncAccountFeeToSlot i anchor rate)
      (fun _ s' l' => s' = s.feeSynced i ((s.accounts i).feeDue anchor rate) anchor ∧ l' = l)
      (fun _ _ => False) s l := by
  simp only [syncAccountFeeToSlot, wp_bind, wp_read, wp_rejectIf, wp_whenever, wp_orErr, wp_writeAccount,
    wp_pure]
  have product : U256.checkedMul rate (anchor - (s.accounts i).lastFeeSlot) =
      some (rate * (anchor - (s.accounts i).lastFeeSlot)) := by
    have : rate * (anchor - (s.accounts i).lastFeeSlot) ≤ U128_MAX * U64_MAX :=
      Nat.mul_le_mul word (by omega)
    rw [U256.checkedMul, if_pos (this.trans (by decide))]
  refine ⟨fun unused => absurd (used.symm.trans unused) (by rintro ⟨⟩), fun _ => ⟨fun early => by omega,
    fun _ => ⟨fun late => absurd late (not_lt.mpr within), fun _ => ⟨fun moved => ⟨fun charged => ⟨fun none => ?_, fun raw some =>
    ?_⟩, fun free => ?_⟩, fun still => ?_⟩⟩⟩⟩
  · exact absurd (product.symm.trans none) (by rintro ⟨⟩)
  · obtain rfl := Option.some.inj (product.symm.trans some)
    refine ⟨fun due => ?_, fun nothing => ?_⟩
    · refine wp_mono (h.charge_safe used (min_le_right _ _)) ?_ fun _ _ he => he
      rintro _ _ _ ⟨rfl, rfl⟩
      refine ⟨?_, rfl⟩
      have account : (s.feeCharged i (min (rate * (anchor - (s.accounts i).lastFeeSlot))
          MAX_PROTOCOL_FEE_ABS)).accounts i = (s.accounts i).afterFee
          (min (rate * (anchor - (s.accounts i).lastFeeSlot)) MAX_PROTOCOL_FEE_ABS) :=
        put_same _ _ _
      rw [account]
      rfl
    · have due : (s.accounts i).feeDue anchor rate = 0 := by
        rw [Account.feeDue]
        omega
      rw [due]
      exact ⟨RiskEngine.marked_eq, trivial⟩
  · have due : (s.accounts i).feeDue anchor rate = 0 := by
      rw [Account.feeDue, not_not.mp free, Nat.zero_mul, Nat.zero_min]
    rw [due]
    exact ⟨RiskEngine.marked_eq, trivial⟩
  · have due : (s.accounts i).feeDue anchor rate = 0 := by
      rw [Account.feeDue, not_not.mp still, Nat.sub_self, Nat.mul_zero, Nat.zero_min]
    rw [due]
    exact ⟨(RiskEngine.feeSynced_still (not_not.mp still).symm).symm, trivial⟩

/-! ### Syncing twice -/

/-- Fees of adjoining spans add up below the cap. -/
theorem Account.feeDue_add (a : Account) (since : a.lastFeeSlot ≤ slot) (le : slot ≤ slot')
    (cap : rate * (slot' - a.lastFeeSlot) ≤ MAX_PROTOCOL_FEE_ABS) :
    a.feeDue slot rate + min (rate * (slot' - slot)) MAX_PROTOCOL_FEE_ABS = a.feeDue slot' rate := by
  have spans : slot' - a.lastFeeSlot = (slot - a.lastFeeSlot) + (slot' - slot) := by omega
  rw [spans, Nat.mul_add] at cap
  rw [feeDue, feeDue, spans, Nat.mul_add]
  omega

/-- Syncing on to a later slot after a sync is syncing to it at once. -/
theorem RiskEngine.feeSynced_on (low : -I128_MAX ≤ (s.accounts i).feeCredits)
    (high : (s.accounts i).feeCredits ≤ 0) (since : (s.accounts i).lastFeeSlot ≤ slot)
    (le : slot ≤ slot') (cap : rate * (slot' - (s.accounts i).lastFeeSlot) ≤ MAX_PROTOCOL_FEE_ABS) :
    let s₁ := s.feeSynced i ((s.accounts i).feeDue slot rate) slot
    s₁.feeSynced i ((s₁.accounts i).feeDue slot' rate) slot' =
      s.feeSynced i ((s.accounts i).feeDue slot' rate) slot' := by
  intro s₁
  have noted : (s₁.accounts i).lastFeeSlot = slot := by
    simp [s₁, feeSynced]
  have due : (s₁.accounts i).feeDue slot' rate =
      min (rate * (slot' - slot)) MAX_PROTOCOL_FEE_ABS := by
    rw [Account.feeDue, noted]
  rw [due, feeSynced_feeSynced low high, (s.accounts i).feeDue_add since le cap]

/-- A sync keeps the invariant. -/
theorem Good.feeSynced (h : Good ⟨s, .idle⟩) (used : s.isUsed i = true)
    (since : (s.accounts i).lastFeeSlot ≤ anchor) (within : anchor ≤ s.feeHorizon)
    (narrow : anchor ≤ U64_MAX) (word : rate ≤ U128_MAX) :
    syncAccountFeeToSlot i anchor rate s =
        .ok () (s.feeSynced i ((s.accounts i).feeDue anchor rate) anchor) [] ∧
      Good ⟨s.feeSynced i ((s.accounts i).feeDue anchor rate) anchor, .idle⟩ := by
  obtain ⟨_, s', l, run, rfl, rfl⟩ := wp_total (h.books.sync_safe used since within narrow word)
  refine ⟨run, ?_⟩
  have start := Course.start (.single i True False False) h
  exact (wp_at (start.syncFee rfl ⟨rfl, trivial⟩) run).good

/-- Syncing again at the slot synced to does nothing. -/
theorem Good.sync_idle (h : Good ⟨s, .idle⟩) (used : s.isUsed i = true)
    (since : (s.accounts i).lastFeeSlot = anchor) (within : anchor ≤ s.feeHorizon)
    (narrow : anchor ≤ U64_MAX) (word : rate ≤ U128_MAX) :
    syncAccountFeeToSlot i anchor rate s = .ok () s [] := by
  have run := (h.feeSynced used since.le within narrow word).1
  have due : (s.accounts i).feeDue anchor rate = 0 := by
    rw [Account.feeDue, since, Nat.sub_self, Nat.mul_zero, Nat.zero_min]
  rw [due, RiskEngine.feeSynced_still since] at run
  exact run

/-! ### The instruction -/

/-- The engine at the clock that a sync sets: a resolved market keeps its own. -/
def RiskEngine.feeClock (s : RiskEngine) (now : Nat) : RiskEngine :=
  match s.marketMode with
  | .live => s.withCurrentSlot now
  | .resolved => s

/-- A time at which the instruction may be sent. -/
structure RiskEngine.FeeTime (s : RiskEngine) (now : Nat) : Prop where
  forward : s.currentSlot ≤ now
  within : s.marketMode = .live → now ≤ saturatingAddU64 s.lastMarketSlot s.params.maxAccrualDtSlots

theorem RiskEngine.feeClock_live {now : Nat} (mode : s.marketMode = .live) :
    s.feeClock now = s.withCurrentSlot now := by
  rw [feeClock, mode]

theorem RiskEngine.feeClock_resolved {now : Nat} (mode : s.marketMode = .resolved) :
    s.feeClock now = s := by
  rw [feeClock, mode]

/-- The clock that is set is a slot of the market, not before the last sync of any account. -/
theorem Good.feeClock {now : Nat} (h : Good ⟨s, .idle⟩) (time : s.FeeTime now) :
    Good ⟨s.feeClock now, .idle⟩ ∧ (s.feeClock now).feeHorizon ≤ now ∧
      s.currentSlot ≤ (s.feeClock now).feeHorizon ∧ (s.feeClock now).accounts = s.accounts ∧
      (s.feeClock now).isUsed = s.isUsed := by
  cases mode : s.marketMode with
  | live =>
      rw [RiskEngine.feeClock_live mode]
      have course := (Course.start .none h).anchor mode time.forward
        (time.within mode)
      have horizon : (s.withCurrentSlot now).feeHorizon = now := by
        rw [RiskEngine.feeHorizon, RiskEngine.withCurrentSlot_marketMode, mode]
        rfl
      exact ⟨course.good, horizon.le, time.forward.trans horizon.ge, rfl, rfl⟩
  | resolved =>
      rw [RiskEngine.feeClock_resolved mode]
      have horizon : s.feeHorizon = s.currentSlot := by
        rw [RiskEngine.feeHorizon, mode, h.timely.resolved mode]
      exact ⟨h, horizon.le.trans time.forward, horizon.ge, rfl, rfl⟩

/-- The instruction goes through at every rate. -/
theorem Good.syncAccountFee_runs {now : Nat} (h : Good ⟨s, .idle⟩) (used : s.isUsed i = true)
    (time : s.FeeTime now) (narrow : now ≤ U64_MAX) (word : rate ≤ U128_MAX) :
    Percolator.syncAccountFee i now rate s = .ok () ((s.feeClock now).feeSynced i
      ((s.accounts i).feeDue (s.feeClock now).feeHorizon rate) (s.feeClock now).feeHorizon) [] := by
  obtain ⟨good, le, ge, accounts, used'⟩ := h.feeClock time
  have since : ((s.feeClock now).accounts i).lastFeeSlot ≤ (s.feeClock now).feeHorizon := by
    rw [accounts]
    exact (h.timely.fee i used).trans ge
  obtain ⟨run, after⟩ := good.feeSynced (used' ▸ used) since le_rfl (le.trans narrow) word
  rw [accounts] at run after
  have checked := assertPublicPostconditions_safe (l := []) after.books.backed after.books.vault_le
    after.balanced
  -- what the sync and the postconditions do from the clock that is set
  have rest : wp (syncAccountFeeToSlot i (s.feeClock now).feeHorizon rate) (fun _ s₁ l₁ =>
      wp assertPublicPostconditions (fun _ s' l' => s' = (s.feeClock now).feeSynced i
        ((s.accounts i).feeDue (s.feeClock now).feeHorizon rate) (s.feeClock now).feeHorizon ∧ l' = [])
        (fun _ _ => False) s₁ l₁) (fun _ _ => False) (s.feeClock now) [] := by
    refine wp_call (fun _ s₁ l₁ ok => ?_) fun _ _ fault => absurd (run.symm.trans fault) (by rintro ⟨⟩)
    obtain ⟨-, rfl, rfl⟩ := Outcome.ok.inj (run.symm.trans ok)
    exact checked
  obtain ⟨_, s', l, ok, rfl, rfl⟩ := wp_total (m := Percolator.syncAccountFee i now rate) (s := s)
      (Q := fun _ s' l' => s' = (s.feeClock now).feeSynced i
        ((s.accounts i).feeDue (s.feeClock now).feeHorizon rate) (s.feeClock now).feeHorizon ∧ l' = []) (by
    simp only [Percolator.syncAccountFee, wp_bind, wp_read, wp_lift, wp_rejectIf]
    refine ⟨fun unused => absurd (used.symm.trans unused) (by rintro ⟨⟩), fun _ =>
      ⟨fun early => absurd time.forward (not_le.mpr early), fun _ => ?_⟩⟩
    cases mode : s.marketMode with
    | live =>
        have clock : s.feeClock now = s.withCurrentSlot now := RiskEngine.feeClock_live mode
        have horizon : (s.withCurrentSlot now).feeHorizon = now := by
          rw [RiskEngine.feeHorizon, RiskEngine.withCurrentSlot_marketMode, mode]
          rfl
        rw [clock, horizon] at rest
        simp only [checkLiveAccrualEnvelope, wp_bind, wp_read, wp_rejectIf, wp_lift, wp_update]
        refine ⟨fun beyond => absurd (time.within mode) (not_le.mpr beyond), fun _ => ?_⟩
        rw [clock, horizon]
        exact rest
    | resolved =>
        have clock : s.feeClock now = s := RiskEngine.feeClock_resolved mode
        have horizon : s.feeHorizon = s.resolvedSlot := by
          rw [RiskEngine.feeHorizon, mode]
        rw [clock, horizon] at rest
        simp only [wp_bind, wp_lift]
        rw [clock, horizon]
        exact rest)
  exact ok

/-- Only the last clock that is set counts. -/
theorem RiskEngine.feeClock_feeSynced {n m : Nat} :
    ((s.feeClock n).feeSynced i fee slot).feeClock m = (s.feeClock m).feeSynced i fee slot := by
  cases mode : s.marketMode with
  | live =>
      rw [feeClock_live mode, feeClock_live mode]
      exact feeClock_live mode
  | resolved =>
      rw [feeClock_resolved mode, feeClock_resolved mode]
      exact feeClock_resolved mode

/-- After a sync a later time may follow. -/
theorem RiskEngine.FeeTime.on {n m : Nat} (time : s.FeeTime n) (later : s.FeeTime m) (le : n ≤ m) :
    ((s.feeClock n).feeSynced i fee slot).FeeTime m := by
  cases mode : s.marketMode with
  | live =>
      rw [feeClock_live mode]
      exact ⟨le, fun _ => later.within mode⟩
  | resolved =>
      rw [feeClock_resolved mode]
      exact ⟨time.forward.trans le, fun live => absurd (live.symm.trans mode) (by rintro ⟨⟩)⟩

theorem RiskEngine.feeHorizon_mono {n m : Nat} (le : n ≤ m) :
    (s.feeClock n).feeHorizon ≤ (s.feeClock m).feeHorizon := by
  cases mode : s.marketMode with
  | live =>
      rw [feeClock_live mode, feeClock_live mode]
      simp only [feeHorizon, RiskEngine.withCurrentSlot_marketMode, mode]
      exact le
  | resolved => rw [feeClock_resolved mode, feeClock_resolved mode]

/-- The part of a fee that is beyond the limit of the fee debt. -/
def Account.feeDropped (a : Account) (fee : Nat) : Int :=
  max 0 (fee - a.capital - (a.feeCredits + I128_MAX))

/-- A fee moved capital to the insurance fund, and account `i` bears what was not dropped. -/
structure FeeBorne (s s' : RiskEngine) (i fee : Nat) : Prop where
  total : s'.cTot + s'.insuranceFund = s.cTot + s.insuranceFund
  borne : ((s.accounts i).capital + (s.accounts i).feeCredits) -
    ((s'.accounts i).capital + (s'.accounts i).feeCredits) = fee - (s.accounts i).feeDropped fee

theorem Books.feeSynced_borne (h : Books s) (used : s.isUsed i = true) :
    FeeBorne s (s.feeSynced i fee slot) i fee := by
  have paid : (s.accounts i).feePaid fee ≤ (s.accounts i).capital := min_le_right _ _
  have backed := paid.trans (h.capital_le used)
  obtain ⟨low, high⟩ := h.fee i used
  have room := feeHeadroom_eq low high
  constructor
  · show s.cTot - (s.accounts i).feePaid fee + (s.insuranceFund + (s.accounts i).feePaid fee) = _
    omega
  · have account : (s.feeSynced i fee slot).accounts i =
        ((s.accounts i).afterFee fee).withLastFeeSlot slot := put_same _ _ _
    rw [account]
    simp only [Account.withLastFeeSlot_capital, Account.withLastFeeSlot_feeCredits, Account.afterFee,
      Account.withFeeCredits_capital, Account.withFeeCredits_feeCredits, Account.withCapital_capital,
      Account.feeDropped, Account.feeNoted, Account.feePaid]
    omega

/-- The law of the recurring fee of account `i` at a rate per slot. -/
structure FeeLaw (s : RiskEngine) (i rate : Nat) : Prop where
  /-- Two syncs are one, and the slot that was synced to is not charged for again. -/
  additive : ∀ t₁ t₂ : UInt64, (s.accounts i).lastFeeSlot ≤ t₁.toNat → t₁ ≤ t₂ →
    t₂.toNat ≤ s.feeHorizon → rate * (t₂.toNat - (s.accounts i).lastFeeSlot) ≤ MAX_PROTOCOL_FEE_ABS →
      ∃ s₁ s₂, syncAccountFeeToSlot i t₁.toNat rate s = .ok () s₁ [] ∧
        syncAccountFeeToSlot i t₂.toNat rate s₁ = .ok () s₂ [] ∧
        syncAccountFeeToSlot i t₂.toNat rate s = .ok () s₂ [] ∧
        syncAccountFeeToSlot i t₂.toNat rate s₂ = .ok () s₂ []
  /-- A sync goes through, and what the account bears is what is not dropped. -/
  neutral : ∀ t : UInt64, (s.accounts i).lastFeeSlot ≤ t.toNat → t.toNat ≤ s.feeHorizon →
    ∃ s', syncAccountFeeToSlot i t.toNat rate s = .ok () s' [] ∧
      FeeBorne s s' i ((s.accounts i).feeDue t.toNat rate)
  /-- The same of the instruction, which sets the clock of a Live market. -/
  instruction_additive : ∀ n₁ n₂ : UInt64, s.FeeTime n₁.toNat → s.FeeTime n₂.toNat → n₁ ≤ n₂ →
    rate * ((s.feeClock n₂.toNat).feeHorizon - (s.accounts i).lastFeeSlot) ≤ MAX_PROTOCOL_FEE_ABS →
      ∃ s₁ s₂, (Instruction.syncAccountFee i n₁ rate).run s = .ok () s₁ [] ∧
        (Instruction.syncAccountFee i n₂ rate).run s₁ = .ok () s₂ [] ∧
        (Instruction.syncAccountFee i n₂ rate).run s = .ok () s₂ []
  instruction_neutral : ∀ n : UInt64, s.FeeTime n.toNat →
    ∃ s', (Instruction.syncAccountFee i n rate).run s = .ok () s' [] ∧
      FeeBorne s s' i ((s.accounts i).feeDue (s.feeClock n.toNat).feeHorizon rate)

private theorem word64 (t : UInt64) : t.toNat ≤ U64_MAX := by
  have := t.toNat_lt
  simp only [U64_MAX]
  omega

/-- In every reachable state the recurring fee of an account in use is additive and neutral. -/
theorem Reachable.fee_law (h : Reachable s) (used : s.isUsed i = true) (rate : BitVec 128) :
    FeeLaw s i rate.toNat := by
  have good := h.good
  obtain ⟨low, high⟩ := good.books.fee i used
  have word : rate.toNat ≤ U128_MAX := by
    have := rate.isLt
    simp only [U128_MAX]
    omega
  constructor
  · intro t₁ t₂ since le within cap
    have le : t₁.toNat ≤ t₂.toNat := le
    obtain ⟨run₁, good₁⟩ := good.feeSynced used since (le.trans within) (word64 t₁) word
    obtain ⟨run, good₂⟩ := good.feeSynced used (since.trans le) within (word64 t₂) word
    have on := RiskEngine.feeSynced_on low high since le cap
    set s₁ := s.feeSynced i ((s.accounts i).feeDue t₁.toNat rate.toNat) t₁.toNat with hs₁
    have noted : (s₁.accounts i).lastFeeSlot = t₁.toNat := by
      simp [hs₁, RiskEngine.feeSynced]
    obtain ⟨run₂, -⟩ := good₁.feeSynced (i := i) used (noted.le.trans le) within (word64 t₂) word
    refine ⟨s₁, _, run₁, run₂, on ▸ run, ?_⟩
    rw [on]
    exact good₂.sync_idle used (by simp [RiskEngine.feeSynced]) within (word64 t₂) word
  · intro t since within
    exact ⟨_, (good.feeSynced used since within (word64 t) word).1, good.books.feeSynced_borne used⟩
  · intro n₁ n₂ time₁ time₂ le cap
    have le : n₁.toNat ≤ n₂.toNat := le
    have run₁ := good.syncAccountFee_runs used time₁ (word64 n₁) word
    have run := good.syncAccountFee_runs used time₂ (word64 n₂) word
    obtain ⟨-, -, ge₁, accounts₁, used₁⟩ := good.feeClock time₁
    obtain ⟨-, -, -, accounts₂, used₂⟩ := good.feeClock time₂
    set h₁ := (s.feeClock n₁.toNat).feeHorizon with hh₁
    set h₂ := (s.feeClock n₂.toNat).feeHorizon with hh₂
    set f₁ := (s.accounts i).feeDue h₁ rate.toNat with hf₁
    have reached : Reachable ((s.feeClock n₁.toNat).feeSynced i f₁ h₁) :=
      h.performed (.committed (show (Instruction.syncAccountFee i n₁ rate.toNat).run s = _ from run₁))
    have run₂ := reached.good.syncAccountFee_runs (i := i) (used₁ ▸ used) (time₁.on time₂ le)
      (word64 n₂) word
    have since : ((s.feeClock n₂.toNat).accounts i).lastFeeSlot ≤ h₁ := by
      rw [accounts₂]
      exact (good.timely.fee i used).trans ge₁
    have later : rate.toNat * (h₂ - ((s.feeClock n₂.toNat).accounts i).lastFeeSlot) ≤ MAX_PROTOCOL_FEE_ABS :=
      accounts₂ ▸ cap
    have on := RiskEngine.feeSynced_on (accounts₂ ▸ low) (accounts₂ ▸ high) since
      (RiskEngine.feeHorizon_mono le) later
    have same : ((s.feeClock n₁.toNat).feeSynced i f₁ h₁).accounts i =
        ((s.feeClock n₂.toNat).feeSynced i f₁ h₁).accounts i := by
      simp only [RiskEngine.feeSynced, RiskEngine.setAccount_accounts, put_same, accounts₁, accounts₂]
    have horizon : ((s.feeClock n₂.toNat).feeSynced i f₁ h₁).feeHorizon = h₂ := rfl
    rw [RiskEngine.feeClock_feeSynced, horizon, same] at run₂
    rw [accounts₂] at on
    rw [on] at run₂
    exact ⟨_, _, run₁, run₂, run⟩
  · intro n time
    have run := good.syncAccountFee_runs used time (word64 n) word
    obtain ⟨good', -, -, accounts, used'⟩ := good.feeClock time
    refine ⟨_, run, ?_⟩
    have borne : FeeBorne (s.feeClock n.toNat) ((s.feeClock n.toNat).feeSynced i ((s.accounts i).feeDue
        (s.feeClock n.toNat).feeHorizon rate.toNat) (s.feeClock n.toNat).feeHorizon) i
        ((s.accounts i).feeDue (s.feeClock n.toNat).feeHorizon rate.toNat) :=
      good'.books.feeSynced_borne (used' ▸ used)
    have totals : (s.feeClock n.toNat).cTot = s.cTot ∧ (s.feeClock n.toNat).insuranceFund =
        s.insuranceFund := by
      cases mode : s.marketMode with
      | live =>
          rw [RiskEngine.feeClock_live mode]
          exact ⟨rfl, rfl⟩
      | resolved =>
          rw [RiskEngine.feeClock_resolved mode]
          exact ⟨rfl, rfl⟩
    exact ⟨totals.1 ▸ totals.2 ▸ borne.total, accounts ▸ borne.borne⟩

theorem tradedMarket_fee_law : FeeLaw tradedMarket 1 (7 : BitVec 128).toNat :=
  tradedMarket_reachable.fee_law (by decide +kernel) 7

end Percolator
