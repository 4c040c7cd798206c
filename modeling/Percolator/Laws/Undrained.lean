import Percolator.Engine.Fixtures
import Percolator.Laws.Backing

/-!
Without a liquidation no side is drained.

Only the resets at the end of an instruction begin a new epoch, and in a solvent market they find nothing to reset.
-/

namespace Percolator

open Effect

variable {s s' : RiskEngine} {sc : Scope} {c : Conf} {l l' : List Event} {i a b now price amount : Nat} {ph : Phase}
  {ctx ctx' : InstructionContext} {rate : Int} {hMin hMax : Nat}

/-- The epochs of the sides. -/
def RiskEngine.epochs (s : RiskEngine) : Side → Nat := fun d => (s.sides d).adlEpoch

/-! ### What leaves the sides alone -/

-- the search for an instance goes through the whole body of a function
set_option synthInstance.maxSize 1000000

section Sides

variable {n m k : Nat} {whole : Bool}

instance : Spares RiskEngine.sides fun s => s.withCurrentSlot n := ⟨fun _ => rfl⟩
instance : Spares RiskEngine.sides fun s => s.withInsuranceFund n := ⟨fun _ => rfl⟩
instance : Spares RiskEngine.sides fun s => s.withVault n := ⟨fun _ => rfl⟩
instance : Spares RiskEngine.sides fun s => s.withCTot n := ⟨fun _ => rfl⟩
instance : Spares RiskEngine.sides fun s => s.withPnlPosTot n := ⟨fun _ => rfl⟩
instance : Spares RiskEngine.sides fun s => s.withPnlMaturedPosTot n := ⟨fun _ => rfl⟩

instance : Spares RiskEngine.sides fun s => ((s.withCurrentSlot n).withVault m).withInsuranceFund k := ⟨fun _ => rfl⟩

instance {f : Account → Account} : Keeps RiskEngine.sides (writeAccount i f) := by
  have spares : Spares RiskEngine.sides fun s => s.setAccount i (f (s.accounts i)) := ⟨fun _ => rfl⟩
  exact inferInstanceAs (Keeps RiskEngine.sides (update fun s => s.setAccount i (f (s.accounts i))))

/-- What books an account leaves the sides alone. -/
theorem Booked.sides {P : RiskEngine → Nat → Account → Totals → List Event → Prop} (h : Booked P i s s' l) :
    s'.sides = s.sides := by
  rcases h with ⟨rfl, -⟩ | ⟨a', t', rfl, -⟩
  · rfl
  · rfl

instance : Keeps RiskEngine.sides (settleLosses i) := ⟨fun ok => (settleLosses_spec ok).sides⟩

instance : Keeps RiskEngine.sides (resolveFlatNegative i) := ⟨fun ok => (resolveFlatNegative_spec ok).sides⟩

instance : Keeps RiskEngine.sides (setCapital i n) := by
  dsimp only [setCapital]
  infer_instance

instance : Keeps RiskEngine.sides (feeDebtSweep i) := by
  dsimp only [feeDebtSweep]
  infer_instance

instance : Keeps RiskEngine.sides (chargeFeeToInsurance i n) := by
  dsimp only [chargeFeeToInsurance]
  infer_instance

instance : Keeps RiskEngine.sides (consumeReleasedPnl i n) := by
  dsimp only [consumeReleasedPnl]
  infer_instance

instance : Keeps RiskEngine.sides (convertInto i n m) := by
  dsimp only [convertInto]
  infer_instance

instance : Keeps RiskEngine.sides (finalizeTouched whole i) := by
  dsimp only [finalizeTouched]
  infer_instance

instance : Keeps RiskEngine.sides (finalizeTouchedAccountsPostLive ctx) := by
  dsimp only [finalizeTouchedAccountsPostLive]
  infer_instance

instance : Keeps RiskEngine.sides (chargeTradeFee a b n) := by
  dsimp only [chargeTradeFee]
  infer_instance

instance : Keeps RiskEngine.sides (checkLiveAccrualEnvelope now) := by
  dsimp only [checkLiveAccrualEnvelope]
  infer_instance

instance : Keeps RiskEngine.sides (checkLiveSlot now) := by
  dsimp only [checkLiveSlot]
  infer_instance

instance : Keeps RiskEngine.sides (vaultAfter s n) := by
  dsimp only [vaultAfter]
  infer_instance

instance : Keeps RiskEngine.sides assertPublicPostconditions := by
  dsimp only [assertPublicPostconditions]
  infer_instance

instance : Keeps RiskEngine.sides (materializeAt i n) := by
  constructor
  intro s x s' l ok
  rw [(materializeAt_spec ok).1.eq]

instance : Keeps RiskEngine.sides (creditDeposit i n m) := by
  dsimp only [creditDeposit]
  infer_instance

instance : Keeps RiskEngine.sides (syncAccountFeeToSlot i n m) := by
  dsimp only [syncAccountFeeToSlot]
  infer_instance

instance : Keeps RiskEngine.sides (deposit i n now) := by
  dsimp only [deposit]
  infer_instance

instance {owner : Bytes32} : Keeps RiskEngine.sides (setOwner i owner) := by
  dsimp only [setOwner]
  infer_instance

instance : Keeps RiskEngine.sides (topUpInsuranceFund n now) := by
  dsimp only [topUpInsuranceFund]
  infer_instance

instance : Keeps RiskEngine.sides (chargeAccountFee i n now) := by
  dsimp only [chargeAccountFee]
  infer_instance

instance : Keeps RiskEngine.sides (settleFlatNegativePnl i now) := by
  dsimp only [settleFlatNegativePnl]
  infer_instance

instance : Keeps RiskEngine.sides (syncAccountFee i now n) := by
  dsimp only [syncAccountFee]
  refine .bind inferInstance fun s => .bind inferInstance fun _ => .bind inferInstance fun _ => ?_
  cases s.marketMode <;> infer_instance

instance : Keeps RiskEngine.sides (depositFeeCredits i n now) := by
  dsimp only [depositFeeCredits]
  infer_instance

end Sides

/-! ### The resets find nothing -/

/-- Nothing is cleared where there is no dust and a side without positions has no open interest. -/
theorem clearDust_idle (dustless : ∀ d, (s.sides d).phantomDustBoundQ = 0)
    (vacant : ∀ d, (s.sides d).storedPosCount = 0 → (s.sides .long).oiEffQ = 0 ∧ (s.sides .short).oiEffQ = 0)
    (ok : clearDust ctx s = .ok ctx' s' l) : ctx' = ctx ∧ s' = s := by
  refine wp_sound (Q := fun ctx' s' _ => ctx' = ctx ∧ s' = s) ok ?_
  have idle {bound : Nat} {residual : Bool} (none : residual = false) :
      wp (clearResidual ctx residual bound) (fun ctx' s' _ => ctx' = ctx ∧ s' = s) (fun _ _ => True) s [] := by
    rw [none]
    simp only [clearResidual, wp_bind, wp_read, wp_ite, wp_pure, Bool.false_eq_true, false_implies, true_and,
      not_false_eq_true, implies_true]
  simp only [clearDust, wp_bind, wp_read, wp_ite, wp_corruptIf, wp_pure, implies_true, true_and, and_true]
  refine ⟨fun none _ => idle ?_, fun _ => ⟨fun none => idle ?_, fun _ none => idle ?_⟩⟩
  · simp [vacant .long none.1, dustless]
  · simp [vacant .long none, dustless]
  · simp [vacant .short none, dustless]

/-- The resets leave every side of a solvent market in its epoch. -/
theorem Solvent.resets (h : Solvent ⟨s, ph⟩) (course : Course sc c l s ph) (live : s.marketMode = .live)
    (unscheduled : ctx.pendingReset = fun _ => false) (ok : endOfInstructionResets ctx s = .ok () s' l') :
    s'.epochs = s.epochs := by
  have balanced : (s.sides .long).oiEffQ = (s.sides .short).oiEffQ := course.good.balanced
  have vacant : ∀ d, (s.sides d).storedPosCount = 0 → (s.sides .long).oiEffQ = 0 ∧ (s.sides .short).oiEffQ = 0 := by
    intro d none
    have le := course.residual_le live h.closing none
    rw [h.dustless d] at le
    cases d <;> omega
  refine wp_sound (Q := fun _ s' _ => s'.epochs = s.epochs) ok ?_
  simp only [endOfInstructionResets, scheduleEndOfInstructionResets, wp_bind, wp_read, wp_pure, wp_lift]
  refine wp_ok fun ctx₁ s₁ l₁ cleared => ?_
  obtain ⟨rfl, rfl⟩ := clearDust_idle h.dustless vacant cleared
  have calm (d : Side) (ctx : InstructionContext) : scheduleDrained d s₁ ctx = ctx := by
    unfold scheduleDrained
    refine if_neg fun draining => ?_
    exact absurd ((h.normal d).symm.trans draining.1) (by rintro ⟨⟩)
  rw [calm, calm]
  refine wp_ok fun _ s₂ l₂ finalized => ?_
  obtain ⟨rfl, -⟩ := finalizeEndOfInstructionResets_spec finalized
  funext d
  show ((s₁.sides d).finalized (ctx₁.pendingReset d)).adlEpoch = (s₁.sides d).adlEpoch
  unfold SideState.finalized
  rw [unscheduled, if_neg fun drains => Bool.noConfusion drains.1, SideState.reopened_eq]

/-! ### The parts of an instruction -/

/-- An instruction that begins in a solvent market and may neither liquidate nor give up a slot. -/
structure Restrained (sc : Scope) (c : Conf) : Prop where
  good : Good c
  solvent : Solvent c
  calm : ¬ sc.liquidates
  fixed : ∀ i, sc.charges i → ¬ sc.slots

theorem Solvent.rest (h : Solvent ⟨s, ph⟩) (rest : ph.AtRest) : Solvent ⟨s, .idle⟩ := by
  refine ⟨h.normal, h.dustless, h.unscaled, fun i used flat _ => ?_, fun _ => rfl, rfl, ?_⟩
  · exact h.lossless i used flat (by rw [rest.trading]; exact List.not_mem_nil)
  · have backed := h.backed
    dsimp only at backed
    rw [rest.owed] at backed
    exact backed

/-- An instruction between two of its parts, with every side in the epoch that it began in. -/
structure Steady (sc : Scope) (c : Conf) (ctx : InstructionContext) (l : List Event) (s : RiskEngine) (ph : Phase) : Prop
    extends Between sc c ctx l s ph where
  epochs : s.epochs = c.engine.epochs

theorem Restrained.course (h : Restrained sc c) (course : Course sc c l s ph) (live : s.marketMode = .live)
    (epochs : s.epochs = c.engine.epochs) : Solvent ⟨s, ph⟩ :=
  course.solvent h.good h.solvent h.calm h.fixed live (congrFun epochs)

theorem Restrained.steady (h : Restrained sc c) (st : Steady sc c ctx l s ph) : Solvent ⟨s, ph⟩ :=
  h.course st.toCourse st.live st.epochs

theorem accrueMarketTo_epochs (ok : accrueMarketTo now price rate s = .ok () s' l) : s'.epochs = s.epochs := by
  obtain ⟨-, ⟨-, -, -, rfl⟩ | ⟨-, accrued⟩⟩ := accrueMarketTo_spec ok
  · rfl
  · funext d
    unfold RiskEngine.epochs
    rw [accrued.side d]

theorem accrueAndAnchor_epochs (ok : accrueAndAnchor now price rate s = .ok () s' l) : s'.epochs = s.epochs := by
  obtain ⟨-, ⟨-, -, -, rfl⟩ | ⟨-, accrued⟩⟩ := accrueAndAnchor_spec ok
  · rfl
  · funext d
    unfold RiskEngine.epochs
    rw [accrued.side d]

/-- An instruction begins by accruing. -/
theorem Restrained.begins (h : Restrained sc ⟨s, .idle⟩) (pair : AdmissionPair s.params hMin hMax)
    (instant : hMin = 0 → sc.instant) (fits : now ≤ U64_MAX) (ok : accrueAndAnchor now price rate s = .ok () s' l) :
    Steady sc ⟨s, .idle⟩ (.newWithAdmission hMin hMax) l s' .idle :=
  ⟨(wp_at (h.good.accrue sc pair instant fits) ok).2, accrueAndAnchor_epochs ok⟩

/-- A touch leaves every side in its epoch. -/
theorem Steady.touch (h : Steady sc c ctx l s ph) (reach : sc.reach i) (ok : touchAccountLiveLocal i ctx s = .ok ctx' s' l') :
    ∃ ph', Steady sc c ctx' (l ++ l') s' ph' ∧ i ∈ ctx'.touchedAccounts := by
  obtain ⟨ph', between, -, mem, -, touched⟩ := wp_at (h.toBetween.touch reach) ok
  exact ⟨ph', ⟨between, (funext touched.epoch).trans h.epochs⟩, mem⟩

/-- What leaves the sides alone leaves them in their epochs. -/
theorem Steady.next (h : Steady sc c ctx l s ph) (between : Between sc c ctx' l' s' ph) (sides : s'.sides = s.sides) :
    Steady sc c ctx' l' s' ph := by
  refine ⟨between, ?_⟩
  unfold RiskEngine.epochs
  rw [sides]
  exact h.epochs

theorem Steady.booked (h : Steady sc c ctx l s ph) (mem : i ∈ ctx.touchedAccounts) (booked : Booked Entry i s s' l') :
    Steady sc c ctx (l ++ l') s' ph := by
  obtain ⟨used, reach, -⟩ := h.members i mem
  exact h.next (h.toBetween.booked used reach booked) booked.sides

theorem Steady.charged (h : Steady sc c ctx l s ph) (mem : i ∈ ctx.touchedAccounts) (allowed : sc.charges i)
    (charged : Booked Charged i s s' l') : Steady sc c ctx (l ++ l') s' ph := by
  obtain ⟨used, reach, -⟩ := h.members i mem
  exact h.next (h.toBetween.charged used reach allowed charged) charged.sides

theorem Steady.finalize (h : Steady sc c ctx l s ph) (ok : finalizeTouchedAccountsPostLive ctx s = .ok () s' l') :
    Steady sc c ctx (l ++ l') s' ph :=
  h.next (wp_at h.toBetween.finalize ok) (Keeps.kept ok)

/-- The resets keep the market solvent. -/
theorem Restrained.finishes (h : Restrained sc c) (st : Steady sc c ctx l s ph) (ok : endOfInstructionResets ctx s = .ok () s' l') :
    Course sc c (l ++ l') s' ph.settledDown ∧ s'.marketMode = .live ∧ Solvent ⟨s', .idle⟩ := by
  have solvent := h.steady st
  obtain ⟨course, reset⟩ := wp_at st.toBetween.finish ok
  have unscheduled : ctx.pendingReset = fun _ => false := by
    rw [← st.pending]
    exact funext solvent.pending
  have epochs := solvent.resets st.toCourse st.live unscheduled ok
  have live : s'.marketMode = .live := by
    rw [reset.eq]
    exact st.live
  exact ⟨course, live, (h.course course live (epochs.trans st.epochs)).rest st.toBetween.settledDown_atRest⟩

/-- The end of an instruction. -/
theorem Restrained.concludes (h : Restrained sc c) (st : Steady sc c ctx l s ph) {l₀ : List Event} :
    wp (finalizeTouchedAccountsPostLive ctx) (fun _ s l => wp (endOfInstructionResets ctx)
      (fun _ s l => wp assertPublicPostconditions (fun _ s' _ => Solvent ⟨s', .idle⟩) (fun _ _ => True) s l)
      (fun _ _ => True) s l) (fun _ _ => True) s l₀ := by
  refine wp_ok fun _ s₁ l₁ finalized => wp_ok fun _ s₂ l₂ reset => wp_ok fun _ s₃ l₃ post => ?_
  obtain rfl := assertPublicPostconditions_same post
  exact (h.finishes (st.finalize finalized) reset).2.2

/-! ### The instructions -/

theorem Restrained.settleAccount (h : Restrained sc ⟨s, .idle⟩) (fits : now ≤ U64_MAX) (reach : sc.reach i)
    (instant : hMin = 0 → sc.instant) (ok : Percolator.settleAccount i price now rate hMin hMax s = .ok () s' l) :
    Solvent ⟨s', .idle⟩ := by
  refine wp_sound (Q := fun _ s' _ => Solvent ⟨s', .idle⟩) ok ?_
  simp only [Percolator.settleAccount, validateAdmissionPair, wp_bind, wp_read, wp_lift, wp_rejectIf, implies_true,
    true_and, not_not]
  intro pair _ _ _
  refine wp_ok fun _ s₁ l₁ accrued => wp_ok fun ctx s₂ l₂ touched => ?_
  obtain ⟨ph, st, -⟩ := (h.begins pair instant fits accrued).touch reach touched
  exact h.concludes st

theorem Restrained.withdraw (h : Restrained sc ⟨s, .idle⟩) (fits : now ≤ U64_MAX) (reach : sc.reach i) (charges : sc.charges i)
    (instant : hMin = 0 → sc.instant) (ok : Percolator.withdraw i amount price now rate hMin hMax s = .ok () s' l) :
    Solvent ⟨s', .idle⟩ := by
  refine wp_sound (Q := fun _ s' _ => Solvent ⟨s', .idle⟩) ok ?_
  simp only [Percolator.withdraw, validateAdmissionPair, wp_bind, wp_read, wp_lift, wp_rejectIf, implies_true, true_and,
    not_not, not_lt]
  intro pair _ _ _
  refine wp_ok fun _ s₁ l₁ accrued => wp_ok fun ctx s₂ l₂ touched => wp_ok fun _ s₃ l₃ finalized => ?_
  obtain ⟨ph, st, mem⟩ := (h.begins pair instant fits accrued).touch reach touched
  have st₃ := st.finalize finalized
  intro enough _
  refine wp_ok fun _ s₄ l₄ margin => wp_ok fun _ s₅ l₅ paid => wp_ok fun _ s₆ l₆ reset => wp_ok fun _ s₇ l₇ post => ?_
  obtain ⟨rfl, -⟩ := checkWithdrawMargin_spec margin
  have st₅ := st₃.charged mem charges (payOut_spec paid enough)
  obtain rfl := assertPublicPostconditions_same post
  exact (h.finishes st₅ reset).2.2

theorem Restrained.convertReleasedPnl {x : Nat} (h : Restrained sc ⟨s, .idle⟩) (fits : now ≤ U64_MAX) (reach : sc.reach i)
    (instant : hMin = 0 → sc.instant)
    (ok : Percolator.convertReleasedPnl i x price now rate hMin hMax s = .ok () s' l) : Solvent ⟨s', .idle⟩ := by
  refine wp_sound (Q := fun _ s' _ => Solvent ⟨s', .idle⟩) ok ?_
  simp only [Percolator.convertReleasedPnl, validateAdmissionPair, wp_bind, wp_read, wp_lift, wp_rejectIf, implies_true,
    true_and, not_not]
  intro pair _ _ _
  refine wp_ok fun _ s₁ l₁ accrued => wp_ok fun ctx s₂ l₂ touched => wp_ok fun _ s₃ l₃ converted => ?_
  refine wp_ok fun _ s₄ l₄ swept => wp_ok fun _ s₅ l₅ healthy => ?_
  obtain ⟨ph, st, mem⟩ := (h.begins pair instant fits accrued).touch reach touched
  have used := (st.members i mem).1
  have st₃ := st.booked mem
    (convertAtHaircut_spec converted st.live st.toCourse.backing (st.toBetween.released_le used))
  have used₃ := (st₃.members i mem).1
  have st₄ := st₃.booked mem (feeDebtSweep_spec (st₃.toCourse.fee used₃) swept)
  obtain ⟨rfl, -⟩ := checkConverted_spec healthy
  exact h.concludes st₄

/-- A candidate without a hint is touched. -/
theorem Steady.crankCandidate {r : Bool × InstructionContext} (h : Steady sc c ctx l s ph) (reach : sc.reach i)
    (ok : Percolator.crankCandidate i none price ctx s = .ok r s' l') : ∃ ph', Steady sc c r.2 (l ++ l') s' ph' := by
  set P : Bool × InstructionContext → RiskEngine → List Event → Prop :=
    fun r s' l' => ∃ ph', Steady sc c r.2 (l ++ l') s' ph' with hP
  refine wp_sound (Q := P) ok ?_
  simp only [Percolator.crankCandidate, wp_bind, wp_read, wp_ite, wp_lift, wp_expect, wp_pure, implies_true, true_and]
  refine wp_ok fun ctx₁ s₁ l₁ touched eff _ => ?_
  obtain ⟨ph₁, st, -⟩ := h.touch reach touched
  refine ⟨fun _ => ⟨ph₁, st⟩, fun _ healthy _ => ⟨fun _ => ⟨ph₁, st⟩, fun _ policy hint => ?_⟩⟩
  obtain rfl : policy = none := (Option.some.inj (validateKeeperHint_none.symm.trans hint)).symm
  exact wp_pure.mpr ⟨ph₁, st⟩

/-- A crank without hints touches its candidates. -/
theorem Steady.crankLoop {candidates : List (Nat × Option LiquidationPolicy)} {budget count : Nat}
    {r : Nat × InstructionContext} (h : Steady sc c ctx l s ph) (reach : ∀ p ∈ candidates, sc.reach p.1)
    (unhinted : ∀ p ∈ candidates, p.2 = none)
    (ok : Percolator.crankLoop price candidates budget count ctx s = .ok r s' l') :
    ∃ l₁ ph', Steady sc c r.2 l₁ s' ph' := by
  induction candidates generalizing budget count ctx l s s' ph l' r with
  | nil =>
      obtain ⟨rfl, rfl, -⟩ := Outcome.ok.inj ok
      exact ⟨l, ph, h⟩
  | cons p rest ih =>
      obtain ⟨i, hint⟩ := p
      rw [List.forall_mem_cons] at reach unhinted
      obtain ⟨reach_i, reach⟩ := reach
      obtain ⟨rfl, unhinted⟩ := unhinted
      set P : Nat × InstructionContext → RiskEngine → List Event → Prop :=
        fun r s' _ => ∃ l₁ ph', Steady sc c r.2 l₁ s' ph' with hP
      refine wp_sound (Q := P) ok ?_
      simp only [Percolator.crankLoop, wp_bind, wp_read, wp_ite, wp_pure]
      refine ⟨fun _ => ⟨l, ph, h⟩, fun _ => ⟨fun _ => ?_, fun _ => ?_⟩⟩
      · exact wp_ok fun r s₁ l₁ rest => ih h reach unhinted rest
      · refine wp_ok fun r s₁ l₁ touched => wp_ok fun r' s₂ l₂ rest => ?_
        obtain ⟨ph₁, st⟩ := h.crankCandidate reach_i touched
        exact ih st reach unhinted rest

theorem Restrained.keeperCrank {candidates : List (Nat × Option LiquidationPolicy)} {budget : Nat} {o : CrankOutcome}
    (h : Restrained sc ⟨s, .idle⟩) (fits : now ≤ U64_MAX) (reach : ∀ p ∈ candidates, sc.reach p.1)
    (unhinted : ∀ p ∈ candidates, p.2 = none) (instant : hMin = 0 → sc.instant)
    (ok : Percolator.keeperCrank now price candidates budget rate hMin hMax s = .ok o s' l) : Solvent ⟨s', .idle⟩ := by
  refine wp_sound (Q := fun _ s' _ => Solvent ⟨s', .idle⟩) ok ?_
  simp only [Percolator.keeperCrank, validateAdmissionPair, wp_bind, wp_read, wp_lift, wp_rejectIf, wp_pure, wp_whenever,
    wp_update, implies_true, true_and, not_not]
  intro pair _ _ _ _ _
  refine wp_ok fun _ s₁ l₁ accrued => ?_
  have st₁ := h.begins pair instant fits accrued
  have timely : Timely s₁ := st₁.good.timely
  have clock : Clocked s₁ s₁.currentSlot s₁.lastMarketSlot :=
    .live st₁.live le_rfl (timely.market_le st₁.live) (timely.within st₁.live)
  have between := st₁.toBetween.carry (st₁.toCourse.quiet (.clocked _ now _ clock)) rfl rfl rfl rfl rfl rfl rfl
    fun _ hi => hi
  have st₂ := st₁.next between rfl
  refine ⟨fun _ => wp_ok fun r s₂ l₂ cranked => ?_, fun _ => wp_ok fun r s₂ l₂ cranked => ?_⟩
  · obtain ⟨l₃, ph, st₃⟩ := st₂.crankLoop reach unhinted cranked
    exact h.concludes st₃
  · obtain ⟨l₃, ph, st₃⟩ := st₁.crankLoop reach unhinted cranked
    exact h.concludes st₃

/-! ### Slots given up -/

/-- The vault is swept into insurance only when there are no accounts. -/
theorem sweepEmptyMarketSurplusToInsurance_cases (ok : sweepEmptyMarketSurplusToInsurance s = .ok () s' l) :
    s' = s ∨ s.numUsedAccounts = 0 ∧ s.cTot = 0 ∧ s' = s.withInsuranceFund s.vault := by
  set P : RiskEngine → Prop := fun s' => s' = s ∨ s.numUsedAccounts = 0 ∧ s.cTot = 0 ∧ s' = s.withInsuranceFund s.vault
    with hP
  refine wp_sound (Q := fun _ s' _ => P s') ok ?_
  simp only [sweepEmptyMarketSurplusToInsurance, wp_bind, wp_read, wp_whenever, wp_rejectIf, wp_orErr, wp_update,
    implies_true, true_and, not_lt]
  refine ⟨fun empty le fund sum => .inr ⟨empty.1, empty.2.1, ?_⟩, fun _ => .inl rfl⟩
  obtain ⟨rfl, -⟩ := checkedAddU128_eq sum
  rw [Nat.add_sub_cancel' le]

/-- Giving up a slot at rest keeps a market solvent. -/
theorem Solvent.released (h : Solvent ⟨s, .idle⟩) (books : Books s) {l₀ : List Event} :
    wp (freeSlot i) (fun _ s l => wp sweepEmptyMarketSurplusToInsurance
      (fun _ s l => wp assertPublicPostconditions (fun _ s' _ => Solvent ⟨s', .idle⟩) (fun _ _ => True) s l)
      (fun _ _ => True) s l) (fun _ _ => True) s l₀ := by
  refine wp_ok fun _ s₁ l₁ released => wp_ok fun _ s₂ l₂ sweep => wp_ok fun _ s₃ l₃ post => ?_
  obtain ⟨freed, -⟩ := freeSlot_spec released
  obtain rfl := assertPublicPostconditions_same post
  have kept := h.freed freed
  rcases sweepEmptyMarketSurplusToInsurance_cases sweep with rfl | ⟨none, cTot, rfl⟩
  · exact kept
  · refine kept.swept rfl ?_ cTot
    have one := Finset.card_erase_of_mem (RiskEngine.mem_usedSlots.mpr freed.used)
    have count := books.numUsed
    have last := freed.numUsed
    rw [← Finset.card_eq_zero, freed.usedSlots, one]
    omega

theorem Restrained.closeAccount {r : Nat} (h : Restrained sc ⟨s, .idle⟩) (fits : now ≤ U64_MAX) (reach : sc.reach i)
    (charges : sc.charges i) (instant : hMin = 0 → sc.instant)
    (ok : Percolator.closeAccount i now price rate hMin hMax s = .ok r s' l) : Solvent ⟨s', .idle⟩ := by
  refine wp_sound (Q := fun _ s' _ => Solvent ⟨s', .idle⟩) ok ?_
  simp only [Percolator.closeAccount, validateAdmissionPair, wp_bind, wp_read, wp_lift, wp_rejectIf, wp_expect, wp_pure,
    implies_true, true_and, not_not]
  intro pair _ _
  refine wp_ok fun _ s₁ l₁ accrued => wp_ok fun ctx s₂ l₂ touched => wp_ok fun _ s₃ l₃ finalized => ?_
  obtain ⟨ph, st, mem⟩ := (h.begins pair instant fits accrued).touch reach touched
  have st₃ := st.finalize finalized
  intro _ _ _ _ _ _ _
  refine wp_ok fun capital s₄ l₄ paid => wp_ok fun _ s₅ l₅ reset => ?_
  have st₄ := st₃.charged mem charges (payOutAll_spec paid).2.2
  obtain ⟨course, -, solvent⟩ := h.finishes st₄ reset
  exact solvent.released course.good.books

theorem Restrained.reclaimEmptyAccount (h : Restrained sc ⟨s, .idle⟩) (reach : sc.reach i) (charges : sc.charges i)
    (ok : Percolator.reclaimEmptyAccount i now s = .ok () s' l) : Solvent ⟨s', .idle⟩ := by
  refine wp_sound (Q := fun _ s' _ => Solvent ⟨s', .idle⟩) ok ?_
  simp only [Percolator.reclaimEmptyAccount, wp_bind, wp_read, wp_lift, wp_rejectIf, wp_update, implies_true, true_and,
    not_not, Bool.not_eq_false]
  intro live used
  refine wp_ok fun _ s₁ l₁ slot => ?_
  obtain ⟨rfl, rfl, le, within⟩ := checkLiveSlot_spec slot
  intro _ _ _ _ _ _
  refine wp_ok fun _ s₂ l₂ reclaimed => ?_
  obtain ⟨s₃, b₁, b₂, -, -⟩ := reclaimDust_spec reclaimed
  have course := (((Course.start sc h.good).anchor live le within).charged used reach (.inl charges) b₁)
  have used₃ : s₃.isUsed i = true := by
    rw [(b₁.sameSeats fun _ _ e => e.1.exact.position).used]
    exact used
  have course₂ := course.charged used₃ reach (.inl charges) b₂
  have sides : s₂.sides = s₁.sides := b₂.sides.trans b₁.sides
  have live₂ : s₂.marketMode = .live := by
    rw [(b₂.sameSeats fun _ _ e => e.1.exact.position).mode, (b₁.sameSeats fun _ _ e => e.1.exact.position).mode]
    exact live
  have solvent := h.course course₂ live₂ (by unfold RiskEngine.epochs; rw [sides])
  exact solvent.released course₂.good.books

/-! ### Trades -/

variable {q : Int} {t : TradeTerms}

theorem settleTradePnl_sides (live : s.marketMode = .live)
    (pair : AdmissionPair s.params ctx.admitHMinShared ctx.admitHMaxShared)
    (ok : settleTradePnl a b q ctx s = .ok ctx' s' l) : s'.sides = s.sides := by
  refine wp_sound (Q := fun _ s' _ => s'.sides = s.sides) ok ?_
  simp only [settleTradePnl, wp_bind, wp_read, wp_orErr, wp_rejectIf, implies_true, true_and]
  intro _ _ _ _ _
  refine wp_ok fun ctx₁ s₁ l₁ first _ _ _ => wp_ok fun ctx₂ s₂ l₂ second => ?_
  obtain ⟨a₁, t₁, rfl, -, same, -, -⟩ := setPnlAdmitted_spec first live pair
  have pair₁ : AdmissionPair s.params ctx₁.admitHMinShared ctx₁.admitHMaxShared := by
    rw [same]
    exact pair
  obtain ⟨a₂, t₂, rfl, -, -, -, -⟩ := setPnlAdmitted_spec second live pair₁
  rfl

theorem attachLegs_epochs {plan : TradePlan} (ok : attachLegs a b plan s = .ok () s' l) : s'.epochs = s.epochs := by
  refine wp_sound (Q := fun _ s' _ => s'.epochs = s.epochs) ok ?_
  simp only [attachLegs, wp_bind, wp_writeSide]
  refine wp_ok fun _ s₁ l₁ first => wp_ok fun _ s₂ l₂ second => ?_
  obtain ⟨f, hA, -⟩ := attachEffectivePosition_spec first
  obtain ⟨g, hB, -⟩ := attachEffectivePosition_spec second
  rw [RiskEngine.setSide_long_short, hB.eq, hA.eq]
  funext d
  cases d <;> rfl

/-- A trade leaves every side in its epoch when the resets that it begins with do. -/
theorem LegsTouched.bookTrade_epochs {p : RiskParams} {exec : Nat} (h : LegsTouched sc c a b ctx l s ph) (ne : a ≠ b)
    (resets : ∀ s₁ l₁, endOfInstructionResets .new s = .ok () s₁ l₁ → s₁.epochs = s.epochs)
    (ok : Percolator.bookTrade p a b price q exec ctx s = .ok t s' l') : s'.epochs = s.epochs := by
  refine wp_sound (Q := fun _ s' _ => s'.epochs = s.epochs) ok ?_
  simp only [Percolator.bookTrade, wp_bind, wp_lift, wp_expect, wp_orErr, wp_pure, implies_true, true_and]
  refine wp_ok fun _ s₁ l₁ reset => wp_ok fun plan s₂ l₂ planned _ _ => wp_ok fun ctx' s₃ l₃ settled => ?_
  refine wp_ok fun _ s₄ l₄ attached => wp_ok fun _ s₅ l₅ lossA => wp_ok fun _ s₆ l₆ lossB _ _ => ?_
  refine wp_ok fun _ s₇ l₇ charged => ?_
  obtain ⟨h₁, -, -⟩ := wp_at h.resets reset
  have live₁ := h₁.live
  have pair₁ := h₁.pair
  obtain ⟨-, opened, -, -⟩ := wp_at
    (h₁.toCourse.planTrade live₁ (fun d => congrFun h₁.calm d) h₁.usedA h₁.usedB ne) planned
  have epochs₂ : s₂.epochs = s₁.epochs := by
    rw [opened]
    funext d
    show ((s₁.sides d).reopened).adlEpoch = _
    rw [SideState.reopened_eq]
    rfl
  have live₂ : s₂.marketMode = .live := by
    rw [opened]
    exact live₁
  have pair₂ : AdmissionPair s₂.params ctx.admitHMinShared ctx.admitHMaxShared := by
    rw [opened]
    exact pair₁
  have epochs₃ : s₃.epochs = s₂.epochs := by
    unfold RiskEngine.epochs
    rw [settleTradePnl_sides live₂ pair₂ settled]
  have epochs₄ := attachLegs_epochs attached
  have sides₅ : s₅.sides = s₄.sides := Keeps.kept lossA
  have sides₆ : s₆.sides = s₅.sides := Keeps.kept lossB
  have sides₇ : s₇.sides = s₆.sides := Keeps.kept charged
  have epochs₇ : s₇.epochs = s₄.epochs := by
    unfold RiskEngine.epochs
    rw [sides₇, sides₆, sides₅]
  exact epochs₇.trans (epochs₄.trans (epochs₃.trans (epochs₂.trans (resets s₁ l₁ reset))))

/-- A trade opens with every side in its epoch. -/
theorem Restrained.openTrade (h : Restrained sc ⟨s, .idle⟩) (pair : AdmissionPair s.params hMin hMax)
    (instant : hMin = 0 → sc.instant) (fits : now ≤ U64_MAX) (reachA : sc.reach a) (reachB : sc.reach b)
    (ok : Percolator.openTrade a b price now rate hMin hMax s = .ok ctx s' l) : s'.epochs = s.epochs := by
  refine wp_sound (Q := fun _ s' _ => s'.epochs = s.epochs) ok ?_
  simp only [Percolator.openTrade, wp_bind, wp_lift]
  refine wp_ok fun _ s₁ l₁ accrued => wp_ok fun ctx₁ s₂ l₂ touchedA => wp_ok fun ctx₂ s₃ l₃ touchedB => ?_
  obtain ⟨ph₁, st₁, -⟩ := (h.begins pair instant fits accrued).touch reachA touchedA
  obtain ⟨ph₂, st₂, -⟩ := st₁.touch reachB touchedB
  exact st₂.epochs

theorem Restrained.executeTrade {exec : Nat} (h : Restrained sc ⟨s, .idle⟩) (fits : now ≤ U64_MAX) (reachA : sc.reach a)
    (reachB : sc.reach b) (allowedA : sc.charges a) (allowedB : sc.charges b) (instant : hMin = 0 → sc.instant)
    (ok : Percolator.executeTrade a b price now q exec rate hMin hMax s = .ok () s' l) : Solvent ⟨s', .idle⟩ := by
  obtain ⟨ctx, s₁, t, s₂, s₃, parts⟩ := executeTrade_parts ok
  obtain ⟨l₁, opened⟩ := parts.opened
  obtain ⟨l₂, booked⟩ := parts.booked
  obtain ⟨l₃, checked⟩ := parts.checked
  obtain ⟨l₄, finalized⟩ := parts.finalized
  obtain ⟨l₅, reset⟩ := parts.reset
  obtain ⟨ph₁, legs⟩ := wp_at (h.good.openTrade parts.pair instant fits reachA reachB parts.ne) opened
  have epochs₁ := h.openTrade parts.pair instant fits reachA reachB opened
  have solvent₁ := h.course legs.toCourse legs.live epochs₁
  obtain ⟨-, -, -, ph₂, trade⟩ := wp_at (legs.bookTrade reachA reachB allowedA allowedB parts.ne parts.pos) booked
  obtain ⟨-, -, flatA, flatB⟩ := checkLegs_spec checked
  have epochs₂ : s₂.epochs = s₁.epochs :=
    legs.bookTrade_epochs parts.ne (fun r k done => solvent₁.resets legs.toCourse legs.live rfl done) booked
  have st : Steady sc ⟨s, .idle⟩ t.ctx _ s₂ _ := ⟨trade.checked flatA flatB, epochs₂.trans epochs₁⟩
  exact (h.finishes (st.finalize finalized) reset).2.2

/-! ### All of them -/

section Modes

/-- The market mode changes only when the market is resolved. -/
instance {d : Side} {f : SideState → SideState} : Keeps RiskEngine.marketMode (writeSide d f) := by
  have spares : Spares RiskEngine.marketMode fun s => s.setSide d (f (s.sides d)) := ⟨fun _ => rfl⟩
  exact inferInstanceAs (Keeps RiskEngine.marketMode (update fun s => s.setSide d (f (s.sides d))))

instance {d : Side} : Keeps RiskEngine.marketMode (beginFullDrainReset d) := by
  dsimp only [beginFullDrainReset]
  infer_instance

instance {d : Side} : Keeps RiskEngine.marketMode (finalizeSideReset d) := by
  dsimp only [finalizeSideReset]
  infer_instance

instance {d : Side} : Keeps RiskEngine.marketMode (drainSide d) := by
  dsimp only [drainSide]
  infer_instance

instance {d : Side} : Keeps RiskEngine.marketMode (reopenSide d) := by
  dsimp only [reopenSide]
  infer_instance

end Modes

theorem resolveMarket_resolves {mode : ResolveMode} {resolvedPrice livePrice : Nat}
    (ok : Percolator.resolveMarket mode resolvedPrice livePrice now rate s = .ok () s' l) : s'.marketMode = .resolved := by
  refine wp_sound (Q := fun _ s' _ => s'.marketMode = .resolved) ok ?_
  simp only [Percolator.resolveMarket, wp_bind, wp_read, wp_lift, wp_rejectIf, wp_orErr, wp_update, implies_true, true_and]
  intro _ _ _ _ _
  refine wp_ok fun _ s₁ l₁ _ _ _ _ _ => ?_
  refine Keeps.wp (v := RiskEngine.marketMode) fun _ s₂ _ same₂ => ?_
  refine Keeps.wp (v := RiskEngine.marketMode) fun _ s₃ _ same₃ => ?_
  refine Keeps.wp (v := RiskEngine.marketMode) fun _ s₄ _ same₄ => ?_
  refine Keeps.wp (v := RiskEngine.marketMode) fun _ s₅ _ same₅ _ => ?_
  refine wp_ok fun _ s₆ l₆ post => ?_
  obtain rfl := assertPublicPostconditions_same post
  exact same₅.trans (same₄.trans (same₃.trans same₂))

theorem discard_runs {α : Type} {m : Op α} (ok : (discard m : Op Unit) s = .ok () s' l) : ∃ x l', m s = .ok x s' l' := by
  refine wp_sound (Q := fun _ s' _ => ∃ x l', m s = .ok x s' l') ok ?_
  simp only [discard, wp_bind, wp_pure]
  exact wp_ok fun x s₁ l₁ done => ⟨x, l₁, done⟩

/-- What begins by asking for a resolved market runs in one. -/
theorem resolved_of_ok {α : Type} {f : RiskEngine → Op α} {x : α}
    (ok : (do let s ← read; rejectIf (s.marketMode ≠ .resolved) .unauthorized; f s : Op α) s = .ok x s' l) :
    s.marketMode = .resolved := by
  refine wp_sound (Q := fun _ _ _ => s.marketMode = .resolved) ok ?_
  simp only [wp_bind, wp_read, wp_lift, wp_rejectIf, implies_true, true_and, not_not]
  intro mode
  exact wp_ok fun _ _ _ _ => mode

/-- An operation that leaves every side in its epoch keeps a market solvent. -/
theorem Restrained.still {ins : Instruction} (h : Restrained ins.scope ⟨s, .idle⟩) (live : s'.marketMode = .live)
    (ok : ins.run s = .ok () s' l) (epochs : s'.epochs = s.epochs) : Solvent ⟨s', .idle⟩ := by
  obtain ⟨ph, course, rest⟩ := h.good.committed ok
  exact (h.course course live epochs).rest rest

theorem RiskEngine.epochs_congr (sides : s'.sides = s.sides) : s'.epochs = s.epochs := by
  unfold epochs
  rw [sides]

/-- An operation without a liquidation keeps a market solvent as long as it is Live. -/
theorem Solvent.committed {ins : Instruction} (h : Solvent ⟨s, .idle⟩) (good : Good ⟨s, .idle⟩) (ok : ins.run s = .ok () s' l)
    (calm : ¬ ins.scope.liquidates) (live : s'.marketMode = .live) : Solvent ⟨s', .idle⟩ := by
  have before : s.marketMode = .live := good.live_before ok live
  have restrained : (∀ i, ins.scope.charges i → ¬ ins.scope.slots) → Restrained ins.scope ⟨s, .idle⟩ :=
    fun fixed => ⟨good, h, calm, fixed⟩
  have resolved {P : Prop} (mode : s.marketMode = .resolved) : P := absurd (before.symm.trans mode) (by rintro ⟨⟩)
  cases ins with
  | setOwner idx owner => exact (restrained fun _ charges => absurd charges.2 id).still live ok (RiskEngine.epochs_congr (Keeps.kept (m := Percolator.setOwner idx owner) ok))
  | deposit idx amount now => exact (restrained fun _ charges => absurd charges.2 id).still live ok (RiskEngine.epochs_congr (Keeps.kept (m := Percolator.deposit idx amount now.toNat) ok))
  | withdraw idx amount price now rate hMin hMax =>
      exact (restrained fun _ _ => id).withdraw (slot_le now) rfl ⟨rfl, trivial⟩ id ok
  | settleAccount idx price now rate hMin hMax => exact (restrained fun _ _ => id).settleAccount (slot_le now) rfl id ok
  | executeTrade a b price now sizeQ exec rate hMin hMax =>
      exact (restrained fun _ _ => id).executeTrade (slot_le now) (.inl rfl) (.inr rfl) (.inl rfl) (.inr rfl) id ok
  | liquidateAtOracle idx now price policy rate hMin hMax => exact absurd trivial calm
  | keeperCrank now price candidates budget rate hMin hMax =>
      obtain ⟨o, l', done⟩ := discard_runs ok
      refine (restrained fun _ _ => id).keeperCrank (slot_le now) (fun p hp => ⟨p, hp, rfl⟩) (fun p hp => ?_) id done
      by_contra hinted
      exact calm ⟨p, hp, hinted⟩
  | convertReleasedPnl idx x price now rate hMin hMax =>
      exact (restrained fun _ _ => id).convertReleasedPnl (slot_le now) rfl id ok
  | closeAccount idx now price rate hMin hMax =>
      obtain ⟨capital, l', done⟩ := discard_runs ok
      have restrained : Restrained (.single idx True (hMin = 0) False) ⟨s, .idle⟩ := ⟨good, h, id, fun _ _ => id⟩
      exact restrained.closeAccount (slot_le now) rfl ⟨rfl, trivial⟩ id done
  | resolveMarket mode resolved live' now rate =>
      exact absurd (live.symm.trans (resolveMarket_resolves ok)) (by rintro ⟨⟩)
  | forceCloseResolved idx =>
      obtain ⟨x, l', done⟩ := discard_runs ok
      obtain ⟨_, _, _, _, first, -, -⟩ := bind_eq_ok.mp done
      exact resolved (resolved_of_ok first)
  | reconcileResolved idx => exact resolved (resolved_of_ok ok)
  | closeResolvedTerminal idx =>
      obtain ⟨x, l', done⟩ := discard_runs ok
      exact resolved (resolved_of_ok done)
  | reclaimEmptyAccount idx now =>
      have restrained : Restrained (.single idx True False False) ⟨s, .idle⟩ := ⟨good, h, id, fun _ _ => id⟩
      exact restrained.reclaimEmptyAccount rfl ⟨rfl, trivial⟩ ok
  | topUpInsuranceFund amount now =>
      obtain ⟨x, l', done⟩ := discard_runs ok
      exact (restrained fun _ _ => id).still live ok (RiskEngine.epochs_congr (Keeps.kept done))
  | chargeAccountFee idx fee now => exact (restrained fun _ _ => id).still live ok (RiskEngine.epochs_congr (Keeps.kept (m := Percolator.chargeAccountFee idx fee now.toNat) ok))
  | settleFlatNegativePnl idx now => exact (restrained fun _ _ => id).still live ok (RiskEngine.epochs_congr (Keeps.kept (m := Percolator.settleFlatNegativePnl idx now.toNat) ok))
  | syncAccountFee idx now rate => exact (restrained fun _ _ => id).still live ok (RiskEngine.epochs_congr (Keeps.kept (m := Percolator.syncAccountFee idx now.toNat rate) ok))
  | depositFeeCredits idx amount now => exact (restrained fun _ _ => id).still live ok (RiskEngine.epochs_congr (Keeps.kept (m := Percolator.depositFeeCredits idx amount now.toNat) ok))
  | accrueMarketTo now price rate =>
      have accrue : Percolator.accrueMarketTo now.toNat price rate s = .ok () s' l := mapFault_eq_ok.mp ok
      exact (restrained fun _ _ => id).still live ok (accrueMarketTo_epochs accrue)

end Percolator
