import Percolator.Laws.Exit
import Percolator.Machine.Frame

/-!
Resolution: reconciling a resolved market never fails a check, never has to be done
twice, and leads to the terminal payouts.
-/

namespace Percolator

open Effect

variable {s s' : RiskEngine} {i : Nat} {d : Side} {l : List Event} {v : Int}

/-- No corrupt state is reported. -/
def Plain.Uncorrupt (p : Plain) (_ : RiskEngine) : Prop := p ≠ .err .corruptState

@[simp] theorem Plain.uncorrupt_panic : Plain.panic.Uncorrupt s := by rintro ⟨⟩

@[simp] theorem Plain.uncorrupt_overflow : (Plain.err .overflow).Uncorrupt s := by rintro ⟨⟩

/-- What the canonical PnL mutator relies on in a resolved market. -/
structure Settleable (s : RiskEngine) (i : Nat) : Prop where
  mode : s.marketMode = .resolved
  reserve : (s.accounts i).reservedPnl = 0
  matured : s.pnlMaturedPosTot = s.pnlPosTot
  own : (s.accounts i).posPnl ≤ s.pnlPosTot
  neg : (s.accounts i).pnl < 0 → 0 < s.negPnlAccountCount
  room : s.negPnlAccountCount < U64_MAX

theorem trackNegPnl_safe (neg : (s.accounts i).pnl < 0 → 0 < s.negPnlAccountCount)
    (room : s.negPnlAccountCount < U64_MAX) {t : RiskEngine} (ht : t.negPnlAccountCount = s.negPnlAccountCount) :
    wp (trackNegPnl (s.accounts i).pnl v) (fun _ t' _ => ∃ n, t' = t.withNegPnlAccountCount n) (fun _ _ => False) t l := by
  simp only [trackNegPnl, wp_bind, wp_read, wp_ite, wp_orErr, wp_update, wp_pure, checkedSub, checkedAddU64, ht]
  refine ⟨fun h => ⟨fun hn => ?_, fun n _ => ⟨n, rfl⟩⟩, fun _ => ⟨fun h => ⟨fun hn => ?_, fun n _ => ⟨n, rfl⟩⟩,
    fun _ => ⟨t.negPnlAccountCount, rfl⟩⟩⟩
  · have := neg h.1
    rw [if_pos (by omega)] at hn
    cases hn
  · rw [if_pos (by omega)] at hn
    cases hn

theorem increase_uncorrupt (h : Settleable s i) (hlt : i128ClampPos (s.accounts i).pnl < i128ClampPos v) :
    wp (increasePnl i v .immediateReleaseResolvedOnly none) (fun _ _ _ => True) Plain.Uncorrupt s l := by
  simp only [increasePnl, checkPnlPair, wp_bind, wp_read, wp_orErr, wp_update, wp_writeAccount, wp_rejectIf, wp_pure,
    Plain.uncorrupt_overflow, implies_true, true_and]
  intro tot htot
  refine wp_mono (trackNegPnl_safe h.neg h.room rfl) ?_ fun _ _ he => he.elim
  rintro _ _ _ ⟨n, rfl⟩
  refine fun m hm => ⟨fun hgt => ?_, fun _ => ⟨fun hr => ?_, trivial⟩⟩
  · have h1 := (checkedAddU128_eq htot).1
    have h2 := (checkedAddU128_eq hm).1
    have := h.matured
    simp at h2 hgt
    omega
  · have := h.reserve
    simp at hr
    omega

/-- Without a positive increase the mutator cannot fail at all. -/
theorem decrease_safe (h : Settleable s i) :
    wp (decreasePnl i v) (fun _ _ _ => True) (fun _ _ => False) s l := by
  have hown := h.own
  unfold Account.posPnl at hown
  have hloss : i128ClampPos (s.accounts i).pnl - i128ClampPos v ≤ s.pnlPosTot := (Nat.sub_le _ _).trans hown
  have hmode := h.mode
  have hmatured := h.matured
  have hreserve := h.reserve
  simp only [decreasePnl, takeResolvedLoss, checkPnlPair, wp_bind, wp_read, wp_orErr, wp_update, wp_writeAccount,
    wp_rejectIf, wp_ite, wp_whenever, checkedSub]
  rw [if_pos hloss]
  refine ⟨(by rintro ⟨⟩), ?_⟩
  rintro _ ⟨⟩
  refine ⟨fun hl => ?_, fun _ => ⟨fun hr => ?_, fun _ => ⟨fun _ => ⟨fun hn => ?_, fun m hm => ?_⟩, fun hz => ?_⟩⟩⟩
  · exact absurd (hmode.symm.trans hl) (by rintro ⟨⟩)
  · exact hr hreserve
  · simp only [RiskEngine.withPnlPosTot_pnlMaturedPosTot, hmatured] at hn
    rw [if_pos hloss] at hn
    cases hn
  · simp only [RiskEngine.withPnlPosTot_pnlMaturedPosTot, hmatured] at hm
    rw [if_pos hloss] at hm
    obtain rfl := Option.some.inj hm
    refine wp_mono (trackNegPnl_safe h.neg h.room rfl) ?_ fun _ _ he => he
    rintro _ _ _ ⟨n, rfl⟩
    refine ⟨fun hl => ?_, fun _ => ⟨fun hgt => ?_, fun _ => ⟨fun hr => ?_, fun _ => trivial⟩⟩⟩
    · exact absurd (hmode.symm.trans hl.2.1) (by rintro ⟨⟩)
    · exact lt_irrefl _ hgt
    · simp at hr
      omega
  · refine wp_mono (trackNegPnl_safe h.neg h.room rfl) ?_ fun _ _ he => he
    rintro _ _ _ ⟨n, rfl⟩
    refine ⟨fun hl => ?_, fun _ => ⟨fun hgt => ?_, fun _ => ⟨fun hr => ?_, fun _ => trivial⟩⟩⟩
    · exact absurd (hmode.symm.trans hl.2.1) (by rintro ⟨⟩)
    · simp at hgt
      omega
    · simp at hr
      omega

/-- Lowering the PnL of an account never fails in a resolved market. -/
theorem setPnlWithReserve_down (h : Settleable s i) (hv : v ≠ I128_MIN)
    (hle : i128ClampPos v ≤ i128ClampPos (s.accounts i).pnl) {mode : ReserveMode}
    {octx : Option InstructionContext} :
    wp (setPnlWithReserve i v mode octx) (fun _ _ _ => True) (fun _ _ => False) s l := by
  have hreserve := h.reserve
  simp only [setPnlWithReserve, wp_bind, wp_read, wp_rejectIf, wp_ite, wp_pure]
  refine ⟨hv, fun _ => ⟨fun hr => by omega, fun _ => ⟨fun hr => hr.2 hreserve, fun _ =>
    ⟨fun hlt => absurd hlt (not_lt.mpr hle), fun _ => ⟨fun hm => absurd (h.mode.symm.trans hm.1) (by rintro ⟨⟩),
      fun _ => ⟨fun hlt => absurd hlt (not_lt.mpr hle), fun _ => decrease_safe h⟩⟩⟩⟩⟩⟩

/-- Setting it to any value reports no corrupt state. -/
theorem setPnl_uncorrupt (h : Settleable s i) : wp (setPnl i v) (fun _ _ _ => True) Plain.Uncorrupt s l := by
  have hreserve := h.reserve
  have hmode := h.mode
  have hdown := decrease_safe (v := v) (l := l) h
  simp only [setPnl, setPnlWithReserve, wp_bind, wp_read, wp_rejectIf, wp_ite, wp_pure, wp_orErr, hmode,
    ReserveMode.refusal, Plain.uncorrupt_overflow, implies_true, true_and]
  refine fun _ => ⟨fun hr => by omega, fun _ => ⟨fun hr => absurd hreserve hr.2, fun _ => ⟨fun hlt _ => ?_,
    fun hle _ => ?_⟩⟩⟩
  · exact ⟨fun _ _ _ _ => increase_uncorrupt h hlt, fun hle => absurd hlt hle⟩
  · exact ⟨fun hlt => absurd hlt hle, fun _ => wp_mono hdown (fun _ _ _ ht => ht) fun _ _ he => he.elim⟩

/-! ### The parts of a reconciliation -/

theorem Good.settleable {ph : Phase} (h : Good ⟨s, ph⟩) (mode : s.marketMode = .resolved)
    (used : s.isUsed i = true) (reserve : (s.accounts i).reservedPnl = 0) : Settleable s i := by
  have hb : Books s := h.books
  have mem := RiskEngine.mem_usedSlots.mpr used
  refine ⟨mode, reserve, (h.terminal mode).matured, ?_, fun hneg => ?_, ?_⟩
  · rw [hb.pos]
    exact le_tally (f := Account.posPnl) mem
  · have hle := le_tally (f := Account.negPnl) (t := s.accounts) mem
    rw [← hb.neg, Account.negPnl, if_pos hneg] at hle
    exact hle
  · have hle : tally s.usedSlots s.accounts Account.negPnl ≤ tally s.usedSlots s.accounts fun _ => 1 :=
      tally_mono fun j _ => by unfold Account.negPnl; split_ifs <;> simp
    have hcard : (tally s.usedSlots s.accounts fun _ => 1) = s.usedSlots.card := by
      simp [tally]
    rw [hcard, ← hb.neg, ← hb.materialized] at hle
    exact (hle.trans hb.capacity).trans_lt (by decide)

/-- The mutator sees of a state the account, the totals of PnL and the mode. -/
theorem Settleable.congr (h : Settleable s i) (hmode : s'.marketMode = s.marketMode)
    (hpnl : (s'.accounts i).pnl = (s.accounts i).pnl)
    (hreserve : (s'.accounts i).reservedPnl = (s.accounts i).reservedPnl)
    (hmatured : s'.pnlMaturedPosTot = s.pnlMaturedPosTot) (hpos : s'.pnlPosTot = s.pnlPosTot)
    (hneg : s'.negPnlAccountCount = s.negPnlAccountCount) : Settleable s' i where
  mode := hmode.trans h.mode
  reserve := hreserve.trans h.reserve
  matured := by rw [hmatured, hpos]; exact h.matured
  own := by unfold Account.posPnl; rw [hpnl, hpos]; exact h.own
  neg := by rw [hpnl, hneg]; exact h.neg
  room := by rw [hneg]; exact h.room

/-- A stale position settles without a corrupt state. -/
theorem Good.reconcilePosition_uncorrupt {ph : Phase} (h : Good ⟨s, ph⟩) (mode : s.marketMode = .resolved)
    (used : s.isUsed i = true) (reserve : (s.accounts i).reservedPnl = 0)
    (side : sideOfI128 (s.accounts i).positionBasisQ = some d) :
    wp (reconcilePosition i d) (fun _ _ _ => True) Plain.Uncorrupt s l := by
  have hb : Books s := h.books
  have hterm : Terminal s := h.terminal mode
  have hset := h.settleable mode used reserve
  have hpos := hterm.seated.position i d used side
  have hstored : (s.sides d).storedPosCount ≠ 0 := hb.stored_ne_zero used side
  have hwaiting := hterm.waiting d hstored
  have hepoch : (s.accounts i).adlEpochSnap + 1 = (s.sides d).adlEpoch := by
    rcases hpos.epoch with ⟨hn, -⟩ | ⟨-, he⟩
    · exact absurd hwaiting hn
    · exact he
  have hnext : checkedAddU64 (s.accounts i).adlEpochSnap 1 = some (s.sides d).adlEpoch := by
    unfold checkedAddU64
    rw [if_pos (hepoch ▸ (hterm.seated.side d).epoch_le), hepoch]
  have hstale : 0 < (s.sides d).staleAccountCount := by
    rw [(hterm.seated.side d).stale, if_pos hwaiting]
    omega
  simp only [reconcilePosition, wp_bind, wp_read, wp_rejectIf, wp_orErr, wp_writeSide, wp_writeAccount, wp_whenever,
    wp_update, Plain.uncorrupt_overflow, implies_true, true_and]
  refine ⟨fun h0 => absurd h0 hpos.basis_pos.ne', fun _ den _ => ⟨fun heq => by omega, fun _ =>
    ⟨fun hn => absurd hnext hn, fun _ => ⟨fun h0 => absurd h0 hstale.ne', fun _ kT _ pnlDelta _ v _ _ => ?_⟩⟩⟩⟩
  have hdrop : checkedSub (s.sides d).staleAccountCount 1 = some ((s.sides d).staleAccountCount - 1) := if_pos hstale
  -- what follows the PnL write sees the sides and the basis, which it leaves alone
  have hrest : ∀ {s₁ : RiskEngine} {l₁ : List Event}, s₁.sides = s.sides →
      (s₁.accounts i).positionBasisQ = (s.accounts i).positionBasisQ →
      wp (setPositionBasisQ i 0) (fun _ _ _ => True) Plain.Uncorrupt
        (s₁.setSide d { s₁.sides d with staleAccountCount := (s.sides d).staleAccountCount - 1 }) l₁ := by
    intro s₁ l₁ hsides hbasis
    have hsome : checkedSub (s.sides d).storedPosCount 1 = some ((s.sides d).storedPosCount - 1) :=
      if_pos (Nat.pos_of_ne_zero hstored)
    simp only [setPositionBasisQ, wp_bind, wp_read, RiskEngine.setSide_accounts, hbasis, side, hsides, wp_orErr,
      RiskEngine.setSide_same, hsome, wp_writeSide]
    refine ⟨(by rintro ⟨⟩), ?_⟩
    rintro _ ⟨⟩
    simp [sideOfI128]
  rw [hdrop]
  refine ⟨fun _ => ?_, fun _ => ⟨(by rintro ⟨⟩), ?_⟩⟩
  · refine wp_split (setPnl_uncorrupt hset) fun _ s₁ l₁ hok => ⟨(by rintro ⟨⟩), ?_⟩
    rintro _ ⟨⟩
    obtain ⟨octx, hok⟩ := setPnl_eq hok
    obtain ⟨a', t', rfl, rfl, -, hpnl⟩ := setPnlWithReserve_resolved hok mode
    have hbasis : a'.positionBasisQ = (s.accounts i).positionBasisQ := by rw [hpnl.same]
    exact hrest rfl (by simpa using hbasis)
  · rintro _ ⟨⟩
    exact hrest rfl rfl

theorem asI128_eq {n : Nat} (h : (n : Int) ≤ I128_MAX) : asI128 n = n := if_pos h

/-- A loss is settled without a corrupt state. -/
theorem Good.settleLosses_uncorrupt {ph : Phase} (h : Good ⟨s, ph⟩) (mode : s.marketMode = .resolved)
    (used : s.isUsed i = true) (reserve : (s.accounts i).reservedPnl = 0) :
    wp (settleLosses i) (fun _ _ _ => True) Plain.Uncorrupt s l := by
  have hb : Books s := h.books
  have hset := h.settleable mode used reserve
  have hmin : I128_MIN < (s.accounts i).pnl := hb.pnl i used
  have hcap := hb.capital_le used
  simp only [settleLosses, setCapital, wp_bind, wp_read, wp_whenever, wp_rejectIf, wp_ite, wp_orErr, wp_update,
    wp_writeAccount, Plain.uncorrupt_overflow, implies_true, true_and, and_true]
  refine fun hneg => ⟨fun h0 => absurd h0 hmin.ne', fun _ hpay => ?_⟩
  set pay := min (s.accounts i).pnl.natAbs (s.accounts i).capital with hpayDef
  have hle : (pay : Int) ≤ -(s.accounts i).pnl := by omega
  have hmax : (pay : Int) ≤ I128_MAX := by unfold I128_MIN I128_MAX at *; omega
  have hsum : checkedAddI128 (s.accounts i).pnl (asI128 pay) = some ((s.accounts i).pnl + pay) := by
    rw [asI128_eq hmax]
    refine if_pos ⟨?_, ?_⟩ <;> unfold I128_MIN I128_MAX at * <;> omega
  have hnew : (s.accounts i).pnl + (pay : Int) ≠ I128_MIN := by omega
  have hnext : ∀ {c : Nat} {l₁ : List Event}, wp (setPnl i ((s.accounts i).pnl + pay)) (fun _ _ _ => True)
      Plain.Uncorrupt ((s.withCTot c).setAccount i
        (((s.withCTot c).accounts i).withCapital ((s.accounts i).capital - pay))) l₁ := by
    intro c l₁
    refine setPnl_uncorrupt (hset.congr rfl ?_ ?_ rfl rfl rfl) <;> simp
  rw [hsum]
  refine ⟨fun _ c _ => ⟨(by rintro ⟨⟩), ?_⟩, fun _ => ⟨fun hn => ?_, fun c _ => ⟨(by rintro ⟨⟩), ?_⟩⟩⟩
  · rintro _ ⟨⟩
    exact ⟨fun h0 => absurd h0 hnew, fun _ => hnext⟩
  · unfold checkedSub at hn
    rw [if_pos (by omega)] at hn
    cases hn
  · rintro _ ⟨⟩
    exact ⟨fun h0 => absurd h0 hnew, fun _ => hnext⟩

/-- The loss that is left is written off without a corrupt state. -/
theorem Good.resolveFlatNegative_uncorrupt {ph : Phase} (h : Good ⟨s, ph⟩) (mode : s.marketMode = .resolved)
    (used : s.isUsed i = true) (reserve : (s.accounts i).reservedPnl = 0) :
    wp (resolveFlatNegative i) (fun _ _ _ => True) Plain.Uncorrupt s l := by
  have hb : Books s := h.books
  have hset := h.settleable mode used reserve
  simp only [resolveFlatNegative, absorbProtocolLoss, useInsuranceBuffer, wp_bind, wp_read, wp_whenever, wp_rejectIf,
    wp_expect, wp_update, wp_pure, Plain.uncorrupt_panic, implies_true, true_and, and_true]
  refine fun eff _ _ => ⟨fun h0 => absurd h0 (hb.pnl i used).ne', fun _ => ?_⟩
  exact setPnl_uncorrupt (hset.congr rfl rfl rfl rfl rfl rfl)

/-! ### Accounts with nothing left to reconcile -/

/-- Nothing of an account is left to reconcile. -/
structure Account.SettledUp (a : Account) : Prop where
  flat : a.positionBasisQ = 0
  clear : a.clearReserve = a
  nonneg : 0 ≤ a.pnl

/-- What a change of an account keeps of that. -/
structure KeepsSettled (a a' : Account) : Prop where
  flat : a'.positionBasisQ = a.positionBasisQ
  clear : a.clearReserve = a → a'.clearReserve = a'
  nonneg : 0 ≤ a.pnl → 0 ≤ a'.pnl

theorem KeepsSettled.settledUp {a a' : Account} (h : KeepsSettled a a') (ha : a.SettledUp) : a'.SettledUp :=
  ⟨h.flat.trans ha.flat, h.clear ha.clear, h.nonneg ha.nonneg⟩

section Keeps

variable {a a' : Account} {t' : Totals}

theorem KeepsSettled.withCapital {n : Nat} : KeepsSettled a (a.withCapital n) :=
  ⟨rfl, fun h => congrArg (Account.withCapital · n) h, id⟩

theorem KeepsSettled.withFeeCredits {f : Int} : KeepsSettled a (a.withFeeCredits f) :=
  ⟨rfl, fun h => congrArg (Account.withFeeCredits · f) h, id⟩

theorem KeepsSettled.withPnl (hv : 0 ≤ a.pnl → 0 ≤ v) : KeepsSettled a (a.withPnl v) :=
  ⟨rfl, fun h => congrArg (Account.withPnl · v) h, hv⟩

theorem KeepsSettled.trans {b : Account} (h : KeepsSettled a b) (h' : KeepsSettled b a') : KeepsSettled a a' :=
  ⟨h'.flat.trans h.flat, h'.clear ∘ h.clear, h'.nonneg ∘ h.nonneg⟩

theorem KeepsSettled.labels (h : a.SameButLabels a') : KeepsSettled a a' := by
  rw [h]
  exact ⟨rfl, fun hc => congrArg (fun b : Account =>
    { b with kind := a'.kind, owner := a'.owner, lastFeeSlot := a'.lastFeeSlot }) hc, id⟩

theorem Entry.keepsSettled (h : Entry s i a' t' l) (mode : s.marketMode = .resolved) :
    KeepsSettled (s.accounts i) a' := by
  have hlive : s.marketMode ≠ .live := by rw [mode]; rintro ⟨⟩
  cases h with
  | deposited => exact .withCapital
  | debtPaid => exact .withFeeCredits
  | lossPaid pay n le_capital le_tot le_loss full count =>
      refine KeepsSettled.withCapital.trans (.withPnl fun h0 => ?_)
      simp only [Account.withCapital_pnl] at h0
      omega
  | feeSwept => exact KeepsSettled.withCapital.trans .withFeeCredits
  | converted _ _ live => exact absurd live hlive
  | warmed _ _ _ live => exact absurd live hlive
  | accelerated live => exact absurd live hlive

theorem Charge.keepsSettled (h : Charge s i a' t') : KeepsSettled (s.accounts i) a' := by
  cases h with
  | feeCharged => exact KeepsSettled.withCapital.trans .withFeeCredits
  | paidOut | reclaimed => exact .withCapital
  | debtForgiven => exact .withFeeCredits

theorem Forgiven.keepsSettled (h : Forgiven s i a' t' l) : KeepsSettled (s.accounts i) a' := by
  cases h
  exact .withPnl fun _ => le_rfl

theorem Booked.keepsSettled {R : RiskEngine → Nat → Account → Totals → List Event → Prop}
    (h : Booked R i s s' l) (keeps : ∀ a t l, R s i a t l → KeepsSettled (s.accounts i) a) :
    KeepsSettled (s.accounts i) (s'.accounts i) := by
  rcases h with ⟨rfl, -⟩ | ⟨a', t', rfl, hr⟩
  · exact ⟨rfl, id, id⟩
  · rw [RiskEngine.rebook_accounts, put_same]
    exact keeps _ _ _ hr

end Keeps

/-- A flat account is not negative once its loss is written off. -/
theorem resolveFlatNegative_nonneg (mode : s.marketMode = .resolved) (flat : (s.accounts i).positionBasisQ = 0)
    (hok : resolveFlatNegative i s = .ok () s' l) : 0 ≤ (s'.accounts i).pnl := by
  refine wp_sound (Q := fun _ s' _ => 0 ≤ (s'.accounts i).pnl) hok ?_
  simp only [resolveFlatNegative, absorbProtocolLoss, useInsuranceBuffer, wp_bind, wp_read, wp_whenever, wp_rejectIf,
    wp_expect, wp_update, wp_pure, implies_true, true_and, effectivePosQ_flat flat]
  rintro _ ⟨⟩
  refine ⟨fun _ _ => wp_ok fun _ s₁ l₁ h₁ => ?_, fun h0 => not_lt.mp fun hn => h0 ⟨rfl, hn⟩⟩
  obtain ⟨octx, h₁⟩ := setPnl_eq h₁
  obtain ⟨a', t', rfl, -, -, hset⟩ := setPnlWithReserve_resolved h₁ mode
  rw [RiskEngine.rebook_accounts, put_same, hset.pnl_eq]

/-! ### Reconciliation -/

/-- No corrupt state is reported, whichever check might. -/
def Fault.Uncorrupt (f : Fault) (_ : RiskEngine) : Prop := f.riskError ≠ some .corruptState

theorem Plain.Uncorrupt.fault {p : Plain} (h : p.Uncorrupt s) : (Fault.plain p).Uncorrupt s := by
  intro hf
  cases p with
  | err e => exact h (congrArg Plain.err (Option.some.inj hf))
  | panic => cases hf

/-- The losses of a flat account are settled and written off, and the checks pass. -/
theorem Course.settle_uncorrupt {sc : Scope} {c : Conf} (h : Course sc c l s .idle) (reach : sc.reach i)
    (mode : s.marketMode = .resolved) (used : s.isUsed i = true) (flat : (s.accounts i).positionBasisQ = 0)
    (clear : (s.accounts i).clearReserve = s.accounts i) :
    wp (settleLosses i) (fun _ s l => wp (resolveFlatNegative i) (fun _ s l => wp assertPublicPostconditions
      (fun _ s' _ => (s'.accounts i).SettledUp) Fault.Uncorrupt s l) (fun p => Fault.Uncorrupt (.plain p)) s l)
      (fun p => Fault.Uncorrupt (.plain p)) s l := by
  have reserve : ∀ {a : Account}, a.clearReserve = a → a.reservedPnl = 0 := fun {a} ha => by rw [← ha]; rfl
  have hplain : ∀ (p : Plain) (t : RiskEngine), p.Uncorrupt t → (Fault.plain p).Uncorrupt t := fun _ _ hp => hp.fault
  have hsettle := wp_mono (h.good.settleLosses_uncorrupt (l := l) mode used (reserve clear))
    (fun _ _ _ ht => ht) hplain
  refine wp_split hsettle fun _ s₁ l₁ hok => ?_
  have b₁ := settleLosses_spec hok
  have h₁ := h.booked used reach b₁
  have hseats := b₁.sameSeats fun _ _ e => e.exact.position
  have used₁ : s₁.isUsed i = true := by rw [hseats.used]; exact used
  have keeps₁ := b₁.keepsSettled fun _ _ _ e => e.keepsSettled mode
  have mode₁ : s₁.marketMode = .resolved := by
    rcases b₁ with ⟨rfl, -⟩ | ⟨a', t', rfl, -⟩ <;> exact mode
  have flat₁ := keeps₁.flat.trans flat
  have clear₁ := keeps₁.clear clear
  have hforgive := wp_mono (h₁.good.resolveFlatNegative_uncorrupt (l := l ++ l₁) mode₁ used₁ (reserve clear₁))
    (fun _ _ _ ht => ht) hplain
  refine wp_split hforgive fun _ s₂ l₂ hok' => ?_
  have b₂ := resolveFlatNegative_spec hok'
  have h₂ := h₁.forgave used₁ reach rfl b₂
  have keeps₂ := b₂.keepsSettled fun _ _ _ e => e.keepsSettled
  have hnonneg := resolveFlatNegative_nonneg mode₁ flat₁ hok'
  refine wp_mono (assertPublicPostconditions_safe h₂.good.books.backed h₂.good.books.vault_le h₂.good.balanced)
    ?_ fun _ _ he => he.elim
  rintro _ _ _ ⟨rfl, -⟩
  exact ⟨keeps₂.flat.trans flat₁, keeps₂.clear clear₁, hnonneg⟩

/-- A reconciliation reports no corrupt state, and leaves its account settled up. -/
theorem Good.reconcile_settles (h : Good ⟨s, .idle⟩) :
    wp (Percolator.reconcileResolved i) (fun _ s' _ => (s'.accounts i).SettledUp) Fault.Uncorrupt s [] := by
  simp only [Percolator.reconcileResolved, prepareAccountForResolvedTouch, wp_bind, wp_read, wp_lift, wp_rejectIf,
    wp_update, wp_writeAccount]
  refine ⟨fun _ => (by rintro ⟨⟩), fun hm => ⟨fun _ => (by rintro ⟨⟩), fun hu => ?_⟩⟩
  have mode := not_not.mp hm
  have used : s.isUsed i = true := by simpa using hu
  have reach : (Scope.single i False False False).reach i := rfl
  have h₁ := (Course.start (Scope.single i False False False) h).quiet
    (.clocked s.resolvedSlot s.lastCrankSlot s.lastMarketSlot (.resolved mode rfl))
  have h₂ := h₁.quiet (.wiped used reach mode)
  set s₂ := (s.withCurrentSlot s.resolvedSlot).setAccount i (s.accounts i).clearReserve with hs₂
  have hacc : s₂.accounts i = (s.accounts i).clearReserve := by simp [hs₂]
  have hclear : (s₂.accounts i).clearReserve = s₂.accounts i := by rw [hacc]; rfl
  cases side : sideOfI128 (s.accounts i).positionBasisQ with
  | none =>
      have flat : (s₂.accounts i).positionBasisQ = 0 := by
        rw [hacc]; exact sideOfI128_eq_none.mp side
      simp only [wp_bind, wp_lift]
      exact h₂.settle_uncorrupt reach mode used flat hclear
  | some d =>
      have side₂ : sideOfI128 (s₂.accounts i).positionBasisQ = some d := by rw [hacc]; exact side
      have reserve₂ : (s₂.accounts i).reservedPnl = 0 := by rw [hacc]; rfl
      simp only [wp_bind, wp_lift]
      have hpos := wp_mono (h₂.good.reconcilePosition_uncorrupt (l := []) mode used reserve₂ side₂)
        (fun _ _ _ ht => ht) fun _ _ hp => hp.fault
      refine wp_split hpos fun _ s₃ l₃ hok => ?_
      obtain ⟨⟨v, t', n, m, hrec⟩, rfl⟩ := reconcilePosition_spec (s := s₂) mode side₂ hok
      have h₃ := h₂.quiet (.reconciled used reach mode hrec)
      have used₃ : s₃.isUsed i = true := by rw [hrec.eq]; exact used
      have mode₃ : s₃.marketMode = .resolved := by rw [hrec.eq]; exact mode
      have hacc₃ : s₃.accounts i = ((s₂.accounts i).withPnl v).flat := by rw [hrec.eq]; simp
      refine h₃.settle_uncorrupt reach mode₃ used₃ (by rw [hacc₃]; rfl) ?_
      rw [hacc₃]
      exact congrArg (fun a : Account => (a.withPnl v).flat) hclear

/-- Reconciling a settled account again changes nothing. -/
theorem Good.reconcile_again (h : Good ⟨s, .idle⟩) (mode : s.marketMode = .resolved) (used : s.isUsed i = true)
    (settled : (s.accounts i).SettledUp) : Percolator.reconcileResolved i s = .ok () s [] := by
  have hslot : s.withCurrentSlot s.resolvedSlot = s := by
    rw [← h.timely.resolved mode]
    rfl
  have hwiped : s.setAccount i (s.accounts i).clearReserve = s := by
    rw [settled.clear, RiskEngine.setAccount_eta]
  have side : sideOfI128 (s.accounts i).positionBasisQ = none := sideOfI128_eq_none.mpr settled.flat
  have hneg : ¬ (s.accounts i).pnl < 0 := not_lt.mpr settled.nonneg
  have hrun : wp (Percolator.reconcileResolved i) (fun _ s' l' => s' = s ∧ l' = []) (fun _ _ => False) s [] := by
    simp only [Percolator.reconcileResolved, prepareAccountForResolvedTouch, settleLosses, resolveFlatNegative, wp_bind,
      wp_read, wp_lift, wp_rejectIf, wp_update, wp_writeAccount, wp_whenever, wp_expect, hslot, hwiped, side, mode,
      used, hneg, effectivePosQ_flat settled.flat]
    refine ⟨fun hn => hn rfl, fun _ => ⟨(by rintro ⟨⟩), fun _ => ⟨(by rintro ⟨⟩), fun _ => ⟨(by rintro ⟨⟩), ?_⟩⟩⟩⟩
    rintro _ ⟨⟩
    refine ⟨fun hn => hn.2.elim, fun _ => ?_⟩
    exact assertPublicPostconditions_safe h.books.backed h.books.vault_le h.balanced
  obtain ⟨_, s', l, ok, rfl, rfl⟩ := wp_total hrun
  exact ok

/-! ### Runs of a resolved market -/

/-- A resolved market stays resolved. -/
theorem Step.stays_resolved {sc : Scope} {c c' : Conf} (step : Step sc c l c')
    (mode : c.engine.marketMode = .resolved) : c'.engine.marketMode = .resolved := by
  cases step with
  | @freed s s' ph j allowed reach charges clean freed =>
      show s'.swept.marketMode = .resolved
      rw [RiskEngine.swept_eq, freed.eq]
      exact mode
  | accrued rest fresh live => exact absurd (mode.symm.trans live) (by rintro ⟨⟩)
  | settled used reach touched live => exact absurd (mode.symm.trans live) (by rintro ⟨⟩)
  | traded usedA usedB reachA reachB allowedA allowedB touchedA touchedB live =>
      exact absurd (mode.symm.trans live) (by rintro ⟨⟩)
  | closed allowed used reach touched live => exact absurd (mode.symm.trans live) (by rintro ⟨⟩)
  | materialized allowed reach live => exact absurd (mode.symm.trans live) (by rintro ⟨⟩)
  | reconciled used reach mode' reconciled => rw [reconciled.eq]; exact mode
  | paid used reach allowed mode' paid => rw [paid.eq]; exact mode
  | resolved => rfl
  | _ => exact mode

/-- In a resolved market an account that is settled up stays so. -/
theorem Step.keeps_settled {sc : Scope} {c c' : Conf} (step : Step sc c l c') (mode : c.engine.marketMode = .resolved)
    (settled : c.engine.isUsed i = true → (c.engine.accounts i).SettledUp) :
    c'.engine.isUsed i = true → (c'.engine.accounts i).SettledUp := by
  have hput : ∀ {s s' : RiskEngine} {j : Nat} {a : Account}, s'.accounts = put s.accounts j a →
      s'.isUsed = s.isUsed → s.isUsed j = true → (s.isUsed i = true → (s.accounts i).SettledUp) →
      KeepsSettled (s.accounts j) a → s'.isUsed i = true → (s'.accounts i).SettledUp := by
    intro s s' j a haccounts hused _ hs keeps used'
    rw [hused] at used'
    rw [haccounts]
    by_cases hij : i = j
    · subst hij
      rw [put_same]
      exact keeps.settledUp (hs used')
    · rw [put_other _ _ hij]
      exact hs used'
  cases step with
  | noted | funded | clocked | checked | reopened | captured => exact settled
  | booked used reach entry => exact hput rfl rfl used settled (entry.keepsSettled mode)
  | charged used reach allowed charge => exact hput rfl rfl used settled charge.keepsSettled
  | forgave used reach calm forgiven => exact hput rfl rfl used settled forgiven.keepsSettled
  | relabeled used reach same slot => exact hput rfl rfl used settled (.labels same)
  | @freed s s' ph j allowed reach charges clean freed =>
      have hused := freed.toSameButSlots.isUsed (isUsed_lt freed.used)
      intro used'
      have hacc : s'.swept.accounts = s'.accounts := by rw [RiskEngine.swept_eq]; rfl
      have hus : s'.swept.isUsed = s'.isUsed := by rw [RiskEngine.swept_eq]; rfl
      dsimp only at used' ⊢
      rw [hus, hused] at used'
      split_ifs at used' with hij
      rw [hacc, freed.toSameButSlots.accounts_eq, put_other _ _ hij]
      exact settled used'
  | @wiped s ph j used reach mode' =>
      exact hput (a := (s.accounts j).clearReserve) rfl rfl used settled ⟨rfl, fun _ => rfl, id⟩
  | @reconciled s s' ph j d v t' n m used reach mode' reconciled =>
      intro used'
      have hused : s'.isUsed = s.isUsed := by rw [reconciled.eq]; rfl
      dsimp only at used' ⊢
      rw [hused] at used'
      by_cases hij : i = j
      · subst hij
        have := reconciled.side
        rw [sideOfI128_eq_none.mpr (settled used').flat] at this
        cases this
      · have hacc : s'.accounts i = s.accounts i := by
          rw [reconciled.eq]
          simp [put_other _ _ hij]
        rw [hacc]
        exact settled used'
  | @paid s s' ph j y used reach allowed mode' paid =>
      refine hput (j := j) (a := ((s.accounts j).withPnl 0).withCapital ((s.accounts j).capital + y)) ?_ ?_
        used settled ?_
      · rw [paid.eq]; rfl
      · rw [paid.eq]; rfl
      · exact (KeepsSettled.withPnl fun _ => le_rfl).trans .withCapital
  | accrued rest fresh live => exact absurd (mode.symm.trans live) (by rintro ⟨⟩)
  | settled used reach touched live => exact absurd (mode.symm.trans live) (by rintro ⟨⟩)
  | slipped legs used reach allowed live => exact absurd (mode.symm.trans live) (by rintro ⟨⟩)
  | traded usedA usedB reachA reachB allowedA allowedB touchedA touchedB live =>
      exact absurd (mode.symm.trans live) (by rintro ⟨⟩)
  | closed allowed used reach touched live => exact absurd (mode.symm.trans live) (by rintro ⟨⟩)
  | deleveraged marks used live => exact absurd (mode.symm.trans live) (by rintro ⟨⟩)
  | reset live => exact absurd (mode.symm.trans live) (by rintro ⟨⟩)
  | materialized allowed reach live => exact absurd (mode.symm.trans live) (by rintro ⟨⟩)
  | resolved price live now kDelta allowed rest mode' => exact absurd (mode.symm.trans mode') (by rintro ⟨⟩)

/-- An operation on a resolved market leaves it resolved, takes no slot, and keeps an
account that is settled up so. -/
theorem Good.performed_resolved {ls : List (Instruction × List Event)} (h : Good ⟨s, .idle⟩)
    (mode : s.marketMode = .resolved) (hp : Performed s ls s') :
    s'.marketMode = .resolved ∧ (∀ i, s'.isUsed i = true → s.isUsed i = true) ∧
      ∀ i, (s.isUsed i = true → (s.accounts i).SettledUp) → s'.isUsed i = true → (s'.accounts i).SettledUp := by
  cases hp with
  | rolledBack fault => exact ⟨mode, fun _ hu => hu, fun _ hs => hs⟩
  | committed ok =>
      obtain ⟨ph, course, rest⟩ := h.committed ok
      refine course.run.invariant
        (I := fun c => c.engine.marketMode = .resolved ∧ (∀ i, c.engine.isUsed i = true → s.isUsed i = true) ∧
          ∀ i, (s.isUsed i = true → (s.accounts i).SettledUp) →
            c.engine.isUsed i = true → (c.engine.accounts i).SettledUp)
        (fun c l c' hc step => ?_) ⟨mode, fun _ hu => hu, fun _ hs => hs⟩
      obtain ⟨hm, hu, hs⟩ := hc
      exact ⟨step.stays_resolved hm, fun i hi => hu i (step.isUsed_of_resolved hm hi),
        fun i hi => step.keeps_settled hm (hs i hi)⟩

/-- A run of operations from `s` to `s'` on which the accounts in `done` were reconciled. -/
inductive Reconciling (s : RiskEngine) : Finset Nat → RiskEngine → Prop
  | start : Reconciling s ∅ s
  | reconciled {done : Finset Nat} {s₁ s₂ : RiskEngine} {i : Nat} {l : List Event} (run : Reconciling s done s₁)
      (ok : Percolator.reconcileResolved i s₁ = .ok () s₂ l) : Reconciling s (insert i done) s₂
  | performed {done : Finset Nat} {s₁ s₂ : RiskEngine} {ls : List (Instruction × List Event)}
      (run : Reconciling s done s₁) (next : Performed s₁ ls s₂) : Reconciling s done s₂

/-- What such a run keeps. -/
structure Reconciling.Kept (s : RiskEngine) (done : Finset Nat) (s' : RiskEngine) : Prop where
  good : Good ⟨s', .idle⟩
  mode : s'.marketMode = .resolved
  used : ∀ i, s'.isUsed i = true → s.isUsed i = true
  settled : ∀ i ∈ done, s'.isUsed i = true → (s'.accounts i).SettledUp

theorem Reconciling.Kept.performed {done : Finset Nat} {s₁ s₂ : RiskEngine} {ls : List (Instruction × List Event)}
    (h : Reconciling.Kept s done s₁) (hp : Performed s₁ ls s₂) : Reconciling.Kept s done s₂ := by
  obtain ⟨mode, used, settled⟩ := h.good.performed_resolved h.mode hp
  exact ⟨h.good.performed hp, mode, fun i hi => h.used i (used i hi), fun i hi => settled i (h.settled i hi)⟩

theorem Reconciling.kept {done : Finset Nat} (run : Reconciling s done s') (h : Good ⟨s, .idle⟩)
    (mode : s.marketMode = .resolved) : Reconciling.Kept s done s' := by
  induction run with
  | start => exact ⟨h, mode, fun _ hu => hu, fun i hi => absurd hi (Finset.notMem_empty i)⟩
  | @reconciled done s₁ s₂ i l run ok ih =>
      have hp : Performed s₁ [(.reconcileResolved i, l)] s₂ := .committed ok
      have hk := ih.performed hp
      refine ⟨hk.good, hk.mode, hk.used, fun j hj => ?_⟩
      rcases Finset.mem_insert.mp hj with rfl | hj
      · exact fun _ => wp_sound ok (wp_mono ih.good.reconcile_settles (fun _ _ _ hs => hs) fun _ _ _ => trivial)
      · exact hk.settled j hj
  | performed run next ih => exact ih.performed next

/-- A resolved market whose accounts are all settled up is ready for its payouts. -/
theorem Good.terminal_ready (h : Good ⟨s, .idle⟩) (mode : s.marketMode = .resolved)
    (settled : ∀ i, s.isUsed i = true → (s.accounts i).SettledUp) : isTerminalReady s = true := by
  have hb : Books s := h.books
  have hterm : Terminal s := h.terminal mode
  have hstored : ∀ d, (s.sides d).storedPosCount = 0 := fun d => by
    rw [hb.stored d]
    refine tally_eq_zero fun i hi => if_neg ?_
    rw [(settled i (RiskEngine.mem_usedSlots.mp hi)).flat]
    rintro ⟨⟩
  have hstale : ∀ d, (s.sides d).staleAccountCount = 0 := fun d => by
    rw [(hterm.seated.side d).stale, hstored, ite_self]
  have hneg : s.negPnlAccountCount = 0 := by
    rw [hb.neg]
    exact tally_eq_zero fun i hi => if_neg (not_lt.mpr (settled i (RiskEngine.mem_usedSlots.mp hi)).nonneg)
  simp [isTerminalReady, hstored, hstale, hneg]

/-- In every reachable resolved state a reconciliation reports no corrupt state. Repeated
after any operations it changes nothing while its account is open, and once every account in
use has been reconciled, whatever else was done in between, the market is ready for its payouts. -/
theorem Reachable.resolution_progresses (h : Reachable s) (mode : s.marketMode = .resolved) :
    (∀ i f s', Percolator.reconcileResolved i s = .fault f s' → f.riskError ≠ some .corruptState) ∧
    (∀ i s₁ l₁, Percolator.reconcileResolved i s = .ok () s₁ l₁ → ∀ l₂ s₂, History s₁ l₂ s₂ →
      s₂.isUsed i = true → Percolator.reconcileResolved i s₂ = .ok () s₂ []) ∧
    ∀ done s', Reconciling s done s' → (∀ i, s.isUsed i = true → i ∈ done) → isTerminalReady s' = true := by
  have hg := h.good
  refine ⟨fun i f s' fault => wp_sound_fault (E := Fault.Uncorrupt) fault hg.reconcile_settles, fun i s₁ l₁ ok l₂ s₂ hist used => ?_,
    fun done s' run all => ?_⟩
  · have hfirst : Reconciling s {i} s₁ := Reconciling.start.reconciled ok
    have hlater : Reconciling s {i} s₂ :=
      hist.invariant (I := Reconciling s {i}) (fun _ _ _ hr hp => hr.performed hp) hfirst
    have hk := hlater.kept hg mode
    exact hk.good.reconcile_again hk.mode used (hk.settled i (Finset.mem_singleton_self i) used)
  · have hk := run.kept hg mode
    exact hk.good.terminal_ready hk.mode fun i hi => hk.settled i (all i (hk.used i hi)) hi

/-- The traded market, resolved after a move of its price. -/
def resolvedMarket : RiskEngine :=
  performAll tradedMarket [.accrueMarketTo 150 1010 0, .resolveMarket .ordinary 1010 1010 150 0]

theorem resolvedMarket_reachable : Reachable resolvedMarket := tradedMarket_reachable.performAll _

theorem resolvedMarket_progresses :
    Percolator.reconcileResolved 1 (Percolator.reconcileResolved 1 resolvedMarket).final =
      .ok () (Percolator.reconcileResolved 1 resolvedMarket).final [] := by
  have mode : resolvedMarket.marketMode = .resolved := by decide +kernel
  have used : (Percolator.reconcileResolved 1 resolvedMarket).final.isUsed 1 = true := by
    decide +kernel
  obtain ⟨_, l, ok⟩ := Outcome.eq_ok (o := Percolator.reconcileResolved 1 resolvedMarket)
    (by decide +kernel)
  exact (resolvedMarket_reachable.resolution_progresses mode).2.1 1 _ l ok [] _ (.refl _) used

end Percolator
