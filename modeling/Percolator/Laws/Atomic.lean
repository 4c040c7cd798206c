import Percolator.Laws.Payouts

/-!
Atomic operations: an error leaves the engine as it was.

`top_up_insurance_fund`, `deposit_fee_credits` and `accrue_market_to` check
everything before they write, in any state. A deposit writes in between: what
follows its first write cannot fail in a reachable state.
-/

namespace Percolator

open Effect

variable {s s' : RiskEngine} {i amount now : Nat} {l : List Event}

/-- An error leaves the state `s`; a panic ends the transaction. -/
def Untouched (s : RiskEngine) (f : Fault) (s' : RiskEngine) : Prop := f.riskError ≠ none → s' = s

@[simp] theorem Untouched.refl {f : Fault} : Untouched s f s := fun _ => rfl

/-! ### Checks before writes -/

theorem topUpInsuranceFund_untouched (s : RiskEngine) (amount now : Nat) :
    wp (topUpInsuranceFund amount now) (fun _ _ _ => True) (Untouched s) s [] := by
  simp only [topUpInsuranceFund, vaultAfter, checkLiveSlot, checkLiveAccrualEnvelope, wp_bind, wp_read,
    wp_lift, wp_rejectIf, wp_orErr, wp_update, wp_pure, Untouched.refl, implies_true, and_true]

theorem depositFeeCredits_untouched (s : RiskEngine) (i amount now : Nat) :
    wp (depositFeeCredits i amount now) (fun _ _ _ => True) (Untouched s) s [] := by
  simp only [depositFeeCredits, vaultAfter, checkLiveSlot, checkLiveAccrualEnvelope, wp_bind, wp_read,
    wp_lift, wp_rejectIf, wp_orErr, wp_ite, wp_update, wp_writeAccount, wp_pure, Untouched.refl,
    implies_true, and_true]

theorem accrueMarketTo_untouched (s : RiskEngine) (now price : Nat) (rate : Int) :
    wp (accrueMarketTo now price rate) (fun _ _ _ => True) (fun p => Untouched s (.plain p)) s [] := by
  simp only [accrueMarketTo, wp_bind, wp_read, wp_rejectIf, wp_orErr, wp_ite, wp_update, wp_writeSide,
    wp_emit, Untouched.refl, implies_true, and_true]

/-- Give the slot that was counted back and fail with `e`, when `c` holds. -/
def takeBackIf (c : Prop) [Decidable c] (e : RiskError) : Act Unit :=
  if c then do
    update fun s => { s with materializedAccountCount := s.materializedAccountCount - 1 }
    fail (err e)
  else pure ()

/-- The slot before `idx` in the free list, or the head, leads to it. -/
def RiskEngine.LinkedBefore (s : RiskEngine) (idx : Nat) : Prop :=
  if s.prevFree idx = NIL then s.freeHead = idx
  else s.nextFree (s.prevFree idx) = idx ∧ s.isUsed (s.prevFree idx) = false

instance (s : RiskEngine) (idx : Nat) : Decidable (s.LinkedBefore idx) := by
  unfold RiskEngine.LinkedBefore; infer_instance

/-- The slot after `idx` in the free list, if there is one, leads back to it. -/
def RiskEngine.LinkedAfter (s : RiskEngine) (idx : Nat) : Prop :=
  s.nextFree idx ≠ NIL → s.prevFree (s.nextFree idx) = idx ∧ s.isUsed (s.nextFree idx) = false

instance (s : RiskEngine) (idx : Nat) : Decidable (s.LinkedAfter idx) := by
  unfold RiskEngine.LinkedAfter; infer_instance

/-- `materialize_at` with its checks and writes in the order of the source: the count
goes up before the last checks, and each neighbour is looked up when its turn comes. -/
def materializeAtInOrder (idx slotAnchor : Nat) : Act Unit := do
  let s ← read
  rejectIf (s.maxAccounts ≤ idx) .accountNotFound
  rejectIf (s.params.maxAccounts ≤ idx) .accountNotFound
  rejectIf (s.params.maxAccounts ≤ s.numUsedAccounts) .overflow
  let count ← orErr (checkedAddU64 s.materializedAccountCount 1) .overflow
  update fun s => { s with materializedAccountCount := count }
  takeBackIf (MAX_MATERIALIZED_ACCOUNTS < count) .overflow
  takeBackIf (s.isUsed idx = true) .corruptState
  failIf (s.prevFree idx ≠ NIL ∧ s.maxAccounts ≤ s.prevFree idx) .panic
  takeBackIf (¬ s.LinkedBefore idx) .corruptState
  failIf (s.nextFree idx ≠ NIL ∧ s.maxAccounts ≤ s.nextFree idx) .panic
  takeBackIf (¬ s.LinkedAfter idx) .corruptState
  failIf (U16_MAX < s.numUsedAccounts + 1) .panic
  update fun s => { s.unlink idx with
    used := put s.used idx true
    numUsedAccounts := s.numUsedAccounts + 1 }
  writeAccount idx fun _ => { emptyAccount with lastFeeSlot := slotAnchor }

/-! How the parts of a run evaluate, a check at a time. -/

section Evaluation

variable {α : Type} {c : Prop} [Decidable c] {s : RiskEngine} {m : Unit → Act α}

theorem seq_eq {β : Type} {m : Act β} {f : β → Act α} {b : β} {s' : RiskEngine} (h : m s = .ok b s' []) :
    (m >>= f) s = f b s' := by
  show Effect.seq m f s = f b s'
  simp only [Effect.seq, h]
  cases f b s' with
  | ok a s₂ l₂ => simp only [List.nil_append]
  | fault e s₂ => simp only

theorem orErr_bind {β : Type} {o : Option β} {e : RiskError} {f : β → Act α} :
    (orErr o e >>= f) s = match o with
      | some b => f b s
      | none => .fault (.err e) s := by
  cases o with
  | some b => exact seq_eq rfl
  | none => rfl

theorem read_bind {f : RiskEngine → Act α} : (Effect.read >>= f) s = f s s := seq_eq rfl

theorem update_bind {g : RiskEngine → RiskEngine} : (Effect.update g >>= m) s = m () (g s) := seq_eq rfl

theorem failIf_bind {p : Plain} : (failIf c p >>= m) s = if c then .fault p s else m () s := by
  by_cases h : c
  · rw [failIf, if_pos h, if_pos h]
    rfl
  · rw [failIf, if_neg h, if_neg h]
    exact seq_eq rfl

theorem takeBackIf_bind {e : RiskError} : (takeBackIf c e >>= m) s = if c then
    .fault (.err e) { s with materializedAccountCount := s.materializedAccountCount - 1 } else m () s := by
  by_cases h : c
  · rw [takeBackIf, if_pos h, if_pos h]
    rfl
  · rw [takeBackIf, if_neg h, if_neg h]
    exact seq_eq rfl

end Evaluation

/-- Two runs end alike, unless the first panics. -/
def Agrees (o o' : Outcome Plain Event RiskEngine Unit) : Prop := o' = o ∨ ∃ t, o = .fault .panic t

theorem Agrees.ite {c : Prop} [Decidable c] {x y x' y' : Outcome Plain Event RiskEngine Unit}
    (hx : Agrees x x') (hy : Agrees y y') : Agrees (if c then x else y) (if c then x' else y') := by
  split
  · exact hx
  · exact hy

/-- Every error takes the count back: the order of the writes shows in a panic only. -/
theorem materializeAt_agrees (s : RiskEngine) (idx slotAnchor : Nat) :
    Agrees (materializeAt idx slotAnchor s) (materializeAtInOrder idx slotAnchor s) := by
  cases counted : checkedAddU64 s.materializedAccountCount 1 with
  | none =>
      simp only [materializeAt, materializeAtInOrder, rejectIf, read_bind, failIf_bind, orErr_bind, counted]
      exact .inl rfl
  | some count =>
      have back : count - 1 = s.materializedAccountCount := by
        have := (checkedAddU64_eq counted).1
        omega
      simp only [materializeAt, materializeAtInOrder, rejectIf, read_bind, failIf_bind, orErr_bind, counted,
        takeBackIf_bind, update_bind, back]
      refine .ite (.inl rfl) (.ite (.inl rfl) (.ite (.inl rfl) (.ite (.inl rfl) (.ite (.inl rfl) ?_))))
      by_cases dangling : s.DanglingLink idx
      · rw [if_pos dangling]
        exact .inr ⟨s, rfl⟩
      obtain ⟨before, after⟩ := not_or.mp dangling
      rw [if_neg dangling, if_neg before, if_neg after]
      by_cases agree : s.LinksAgree idx
      · have leads : s.LinkedBefore idx := agree.1
        have returns : s.LinkedAfter idx := agree.2
        rw [if_neg (not_not.mpr agree), if_neg (not_not.mpr leads), if_neg (not_not.mpr returns)]
        exact .ite (.inr ⟨s, rfl⟩) (.inl rfl)
      · rw [if_pos agree]
        by_cases leads : s.LinkedBefore idx
        · have returns : ¬ s.LinkedAfter idx := fun returns => agree ⟨leads, returns⟩
          rw [if_neg (not_not.mpr leads), if_pos returns]
          exact .inl rfl
        · rw [if_pos leads]
          exact .inl rfl

theorem materializeAt_untouched (s : RiskEngine) (i now : Nat) :
    wp (materializeAt i now) (fun _ _ _ => True) (fun p => Untouched s (.plain p)) s l := by
  simp only [materializeAt, wp_bind, wp_read, wp_rejectIf, wp_failIf, wp_orErr, wp_update,
    wp_writeAccount, Untouched.refl, implies_true, and_true]

/-! ### A deposit after its checks -/

/-- What the PnL mutator needs to raise a negative PnL in a Live market. -/
structure Sunk (s : RiskEngine) (i : Nat) : Prop where
  mode : s.marketMode = .live
  loss : (s.accounts i).pnl < 0
  bare : (s.accounts i).reservedPnl = 0 ∧ (s.accounts i).schedPresent = false ∧
    (s.accounts i).pendingPresent = false
  matured : s.pnlMaturedPosTot ≤ s.pnlPosTot
  neg : 0 < s.negPnlAccountCount
  room : s.negPnlAccountCount < U64_MAX

theorem Good.sunk {ph : Phase} (h : Good ⟨s, ph⟩) (live : s.marketMode = .live) (used : s.isUsed i = true)
    (loss : (s.accounts i).pnl < 0) : Sunk s i := by
  have hb : Books s := h.books
  have hr : Reserves s := h.reserves live
  have mem := RiskEngine.mem_usedSlots.mpr used
  have shape := hr.shape i used
  have none : i128ClampPos (s.accounts i).pnl = 0 := by
    unfold i128ClampPos
    omega
  have held := shape.total.2
  have le := shape.reserved_le
  refine ⟨live, loss, ⟨by omega, ?_, ?_⟩, ?_, ?_, ?_⟩
  · by_contra present
    rw [Bool.not_eq_false] at present
    have := shape.schedPresent present
    rw [Account.schedHeld, if_pos present] at held
    omega
  · by_contra present
    rw [Bool.not_eq_false] at present
    have := shape.pendingPresent present
    rw [Account.pendingHeld, if_pos present] at held
    omega
  · rw [hr.matured, hb.pos]
    exact tally_mono fun j _ => Nat.sub_le _ _
  · have hle := le_tally (f := Account.negPnl) (t := s.accounts) mem
    rw [← hb.neg, Account.negPnl, if_pos loss] at hle
    exact hle
  · have hle : tally s.usedSlots s.accounts Account.negPnl ≤ tally s.usedSlots s.accounts fun _ => 1 :=
      tally_mono fun j _ => by unfold Account.negPnl; split_ifs <;> simp
    have hcard : (tally s.usedSlots s.accounts fun _ => 1) = s.usedSlots.card := by
      simp [tally]
    rw [hcard, ← hb.neg, ← hb.materialized] at hle
    exact (hle.trans hb.capacity).trans_lt (by decide)

theorem Sunk.clamped (h : Sunk s i) : i128ClampPos (s.accounts i).pnl = 0 := by
  have := h.loss
  unfold i128ClampPos
  omega

/-- No PnL is lost where there is none. -/
theorem takeLiveLoss_none : wp (takeLiveLoss i 0) (fun _ s' l' => s' = s ∧ l' = l) (fun _ _ => False) s l := by
  simp only [takeLiveLoss, wp_bind, wp_read, wp_whenever, Nat.zero_min, Nat.sub_self, lt_irrefl, false_implies,
    not_false_eq_true, true_implies, true_and, and_self]

theorem Sunk.decrease_safe {v : Int} (h : Sunk s i) (sunk : i128ClampPos v = 0) :
    wp (decreasePnl i v) (fun _ _ _ => True) (fun _ _ => False) s l := by
  obtain ⟨reserved, sched, pending⟩ := h.bare
  have matured := h.matured
  have whole : checkedSub s.pnlPosTot 0 = some s.pnlPosTot := if_pos (Nat.zero_le _)
  simp only [decreasePnl, checkPnlPair, wp_bind, wp_read, wp_orErr, wp_update, wp_writeAccount, wp_rejectIf,
    wp_ite, h.clamped, sunk, Nat.sub_self, whole]
  refine ⟨(by rintro ⟨⟩), ?_⟩
  rintro _ ⟨⟩
  refine ⟨fun _ => ?_, fun other => absurd h.mode other⟩
  refine wp_mono takeLiveLoss_none ?_ fun _ _ he => he
  rintro _ _ _ ⟨rfl, rfl⟩
  refine wp_mono (trackNegPnl_safe (fun _ => h.neg) h.room rfl) ?_ fun _ _ he => he
  rintro _ _ _ ⟨n, rfl⟩
  refine ⟨?_, fun _ => ⟨fun above => ?_, fun _ => ⟨fun above => ?_, fun _ => trivial⟩⟩⟩
  · rintro ⟨-, -, held⟩
    simp [reserved, sched, pending] at held
  · exact absurd matured (not_le.mpr above)
  · simp [reserved] at above

/-- A negative PnL is raised without fail. -/
theorem Sunk.setPnl_safe {v : Int} (h : Sunk s i) (sunk : v ≤ 0) (ne : v ≠ I128_MIN) :
    wp (setPnl i v) (fun _ _ _ => True) (fun _ _ => False) s l := by
  have new : i128ClampPos v = 0 := by
    unfold i128ClampPos
    omega
  simp only [setPnl, setPnlWithReserve, wp_bind, wp_read, wp_rejectIf, wp_ite, wp_pure, h.clamped, new]
  refine ⟨ne, fun _ => ⟨fun lt => absurd lt (by rw [h.bare.1]; exact lt_irrefl 0), fun _ => ⟨fun resolved => resolved.1 h.mode, fun _ =>
    ⟨fun lt => absurd lt (lt_irrefl _), fun _ => ⟨fun big => absurd big.2 (Nat.not_lt_zero _), fun _ =>
      ⟨fun lt => absurd lt (lt_irrefl _), fun _ => h.decrease_safe new⟩⟩⟩⟩⟩⟩

/-- Losses are settled without fail. -/
theorem Good.settleLosses_safe {ph : Phase} (h : Good ⟨s, ph⟩) (live : s.marketMode = .live)
    (used : s.isUsed i = true) : wp (settleLosses i) (fun _ _ _ => True) (fun _ _ => False) s l := by
  have hb : Books s := h.books
  have hmin : I128_MIN < (s.accounts i).pnl := hb.pnl i used
  have hcap := hb.capital_le used
  obtain ⟨hc, -, -⟩ := hb.bounds
  simp only [settleLosses, wp_bind, wp_read, wp_whenever, wp_rejectIf, wp_orErr]
  refine ⟨fun loss => ⟨fun h0 => absurd h0 hmin.ne', fun _ => ⟨fun hpay => ?_, fun _ => trivial⟩⟩, fun _ => trivial⟩
  have sunk := h.sunk live used loss
  set pay := min (s.accounts i).pnl.natAbs (s.accounts i).capital with hpayDef
  have hle : (pay : Int) ≤ -(s.accounts i).pnl := by omega
  have hmax : (pay : Int) ≤ I128_MAX := by unfold I128_MIN I128_MAX at *; omega
  have hsum : checkedAddI128 (s.accounts i).pnl (asI128 pay) = some ((s.accounts i).pnl + pay) := by
    rw [asI128_eq hmax]
    refine if_pos ⟨?_, ?_⟩ <;> unfold I128_MIN I128_MAX at * <;> omega
  refine wp_mono (setCapital_down hcap (by omega) hc) ?_ fun _ _ he => he
  rintro _ _ _ ⟨rfl, rfl⟩
  rw [hsum]
  refine ⟨(by rintro ⟨⟩), ?_⟩
  rintro _ ⟨⟩
  refine ⟨fun h0 => by omega, fun _ => ?_⟩
  refine Sunk.setPnl_safe ⟨sunk.mode, ?_, ?_, sunk.matured, sunk.neg, sunk.room⟩ (by omega) (by omega)
  · simpa using loss
  · simpa using sunk.bare

theorem Books.creditDeposit_safe (h : Books s) (used : s.isUsed i = true)
    (hcap : s.vault + amount ≤ MAX_VAULT_TVL) :
    wp (creditDeposit i amount (s.vault + amount)) (fun _ _ _ => True) (fun _ _ => False) s l := by
  have hle := h.capital_le used
  have hbacked := h.backed
  have hmax : MAX_VAULT_TVL ≤ U128_MAX := by decide
  simp only [creditDeposit, setCapital, wp_bind, wp_read, wp_orErr, wp_update, wp_writeAccount, wp_ite, checkedAddU128]
  refine ⟨fun none => ?_, fun capital some => ⟨fun up => ⟨fun none => ?_, fun _ _ => trivial⟩, fun down => ?_⟩⟩
  · rw [if_pos (by simp only [RiskEngine.withVault_accounts]; omega)] at none
    cases none
  · have := Option.some.inj ((if_pos (by simp only [RiskEngine.withVault_accounts]; omega)).symm.trans some)
    rw [if_pos (by simp only [RiskEngine.withVault_accounts, RiskEngine.withVault_cTot] at *; omega)] at none
    cases none
  · have := Option.some.inj ((if_pos (by simp only [RiskEngine.withVault_accounts]; omega)).symm.trans some)
    omega

/-- What a deposit does once it writes cannot fail. -/
theorem Course.credit_safe {sc : Scope} {c : Conf} {E : Fault → RiskEngine → Prop} (h : Course sc c l s .idle)
    (reach : sc.reach i) (live : s.marketMode = .live) (used : s.isUsed i = true)
    (hcap : s.vault + amount ≤ MAX_VAULT_TVL) :
    wp (creditDeposit i amount (s.vault + amount)) (fun _ s l =>
      wp (settleLosses i) (fun _ s l =>
        ((s.accounts i).positionBasisQ = 0 ∧ 0 ≤ (s.accounts i).pnl →
          wp (feeDebtSweep i) (fun _ s l => wp assertPublicPostconditions
            (fun _ _ _ => True) E s l) (fun p => E (.plain p)) s l) ∧
        (¬ ((s.accounts i).positionBasisQ = 0 ∧ 0 ≤ (s.accounts i).pnl) →
          wp assertPublicPostconditions (fun _ _ _ => True) E s l))
        (fun p => E (.plain p)) s l) (fun p => E (.plain p)) s l := by
  have credited := h.good.books.creditDeposit_safe (l := l) used hcap
  refine wp_split (wp_mono credited (fun _ _ _ _ => trivial) fun _ _ he => he.elim) fun _ s₁ l₁ hok => ?_
  have b₁ := creditDeposit_spec hcap hok
  have h₁ := h.booked used reach b₁
  have used₁ : s₁.isUsed i = true := by
    rw [(b₁.sameSeats fun _ _ e => e.exact.position).used]; exact used
  have live₁ : s₁.marketMode = .live := by
    rcases b₁ with ⟨rfl, -⟩ | ⟨a', t', rfl, -⟩ <;> exact live
  have settled := h₁.good.settleLosses_safe (l := l ++ l₁) live₁ used₁
  refine wp_split (wp_mono settled (fun _ _ _ _ => trivial) fun _ _ he => he.elim) fun _ s₂ l₂ hok' => ?_
  have b₂ := settleLosses_spec hok'
  have h₂ := h₁.booked used₁ reach b₂
  have used₂ : s₂.isUsed i = true := by
    rw [(b₂.sameSeats fun _ _ e => e.exact.position).used]; exact used₁
  have done : ∀ {t l₃}, Course sc c l₃ t .idle → wp assertPublicPostconditions (fun _ _ _ => True) E t l₃ := by
    intro t l₃ h₃
    have checked := assertPublicPostconditions_safe (l := l₃) h₃.good.books.backed h₃.good.books.vault_le
      h₃.good.balanced
    exact wp_mono checked (fun _ _ _ _ => trivial) fun _ _ he => he.elim
  refine ⟨fun _ => ?_, fun _ => done h₂⟩
  have swept := h₂.good.books.feeDebtSweep_safe (l := l ++ l₁ ++ l₂) used₂
  refine wp_split (wp_mono swept (fun _ _ _ _ => trivial) fun _ _ he => he.elim) fun _ s₃ l₃ hok => ?_
  exact done (h₂.booked used₂ reach (feeDebtSweep_spec (h₂.fee used₂) hok))

/-- Only the checks of a deposit fail. -/
theorem Good.deposit_untouched (h : Good ⟨s, .idle⟩) :
    wp (Percolator.deposit i amount now) (fun _ _ _ => True) (Untouched s) s [] := by
  simp only [Percolator.deposit, wp_bind, wp_read, wp_lift, wp_rejectIf, wp_ite, wp_update, wp_pure, wp_whenever,
    Untouched.refl, implies_true, true_and, not_not, not_lt, Bool.not_eq_false]
  intro live le _
  refine wp_split (by simp [checkLiveAccrualEnvelope]) fun _ s₁ l₁ hok => ?_
  obtain ⟨rfl, rfl, within⟩ := checkLiveAccrualEnvelope_spec hok
  refine wp_split (by simp [vaultAfter]) fun v s₁ l₁ hok => ?_
  obtain ⟨rfl, rfl, rfl, hcap⟩ := vaultAfter_spec hok
  set sc : Scope := .single i True False True
  have h₁ := (Course.start sc h).anchor live le within
  refine ⟨fun unused => ⟨fun _ => .refl, fun _ => ?_⟩, fun used => ⟨fun worst => ?_, fun _ => h₁.credit_safe rfl live used hcap⟩⟩
  · refine wp_split (materializeAt_untouched s₁ i now) fun _ s₂ l₂ hok => ?_
    obtain ⟨hm, rfl⟩ := materializeAt_spec hok
    have h₂ := h₁.quiet (.materialized trivial rfl live le_rfl hm.withCurrentSlot)
    have used : s₂.isUsed i = true := by rw [hm.toSameButSlots.isUsed hm.lt, if_pos rfl]
    have hvault : (s₂.withCurrentSlot now).vault = s₁.vault := by rw [hm.eq]; rfl
    have live₂ : (s₂.withCurrentSlot now).marketMode = .live := by rw [hm.eq]; exact live
    refine ⟨fun worst => absurd worst (h₂.good.books.pnl i used).ne', fun _ => ?_⟩
    rw [← hvault] at hcap ⊢
    exact h₂.credit_safe rfl live₂ used hcap
  · exact absurd worst (h.books.pnl i used).ne'

/-! ### The law -/

/-- In any state the operations documented as atomic are so, and in every reachable
state a deposit is. -/
theorem entry_points_atomic :
    (∀ (s : RiskEngine) (amount : Nat) (now : UInt64) (f : Fault) (s' : RiskEngine),
      (Instruction.topUpInsuranceFund amount now).run s = .fault f s' → f.riskError ≠ none → s' = s) ∧
    (∀ (s : RiskEngine) (i amount : Nat) (now : UInt64) (f : Fault) (s' : RiskEngine),
      (Instruction.depositFeeCredits i amount now).run s = .fault f s' → f.riskError ≠ none → s' = s) ∧
    (∀ (s : RiskEngine) (now : UInt64) (price : Nat) (rate : Int) (f : Fault) (s' : RiskEngine),
      (Instruction.accrueMarketTo now price rate).run s = .fault f s' → f.riskError ≠ none → s' = s) ∧
    ∀ (s : RiskEngine), Reachable s → ∀ (i amount : Nat) (now : UInt64) (f : Fault) (s' : RiskEngine),
      (Instruction.deposit i amount now).run s = .fault f s' → f.riskError ≠ none → s' = s := by
  refine ⟨fun s amount now f s' fault => ?_, fun s i amount now f s' fault => ?_,
    fun s now price rate f s' fault => ?_, fun s reached i amount now f s' fault => ?_⟩
  · have checks : wp (discard (topUpInsuranceFund amount now.toNat)) (fun _ _ _ => True) (Untouched s) s [] := by
      simpa only [discard, wp_bind, wp_pure] using topUpInsuranceFund_untouched s amount now.toNat
    exact wp_sound_fault fault checks
  · exact wp_sound_fault fault (depositFeeCredits_untouched s i amount now.toNat)
  · have checks : wp (liftM (accrueMarketTo now.toNat price rate) : Op Unit) (fun _ _ _ => True) (Untouched s) s [] :=
      (wp_lift).mpr (accrueMarketTo_untouched s now.toNat price rate)
    exact wp_sound_fault fault checks
  · exact wp_sound_fault fault reached.good.deposit_untouched

theorem tradedMarket_deposit_refused :
    ∀ f s', (Instruction.deposit 3 1 110).run tradedMarket = .fault f s' → f.riskError ≠ none →
      s' = tradedMarket :=
  entry_points_atomic.2.2.2 tradedMarket tradedMarket_reachable 3 1 110

end Percolator
