import Percolator.Laws.Time

/-!
Sides: the open interest of a reachable market covers the exact shares of its
positions up to dust, and its epochs and resets stay in step.
-/

namespace Percolator

open Effect Finset

variable {s s' : RiskEngine} {i : Nat} {d : Side}

/-! ### Dust -/

/-- The accounts whose position on side `d` is of its current epoch. -/
def RiskEngine.currentOn (s : RiskEngine) (d : Side) : Finset Nat :=
  {i ∈ s.usedSlots | sideOfI128 (s.accounts i).positionBasisQ = some d ∧
    (s.accounts i).adlEpochSnap = (s.sides d).adlEpoch}

/-- `S_s`: the exact sum of the current positions on side `d`. -/
def RiskEngine.exactOi (s : RiskEngine) (d : Side) : ℚ :=
  ∑ i ∈ s.currentOn d,
    ((s.accounts i).positionBasisQ.natAbs * (s.sides d).adlMult / (s.accounts i).adlABasis : ℚ)

/-- The sum of the effective positions over the same accounts. -/
def RiskEngine.effectiveOi (s : RiskEngine) (d : Side) : Nat :=
  ∑ i ∈ s.currentOn d, ((effectivePosQ s i).getD 0).natAbs

theorem RiskEngine.exactOi_eq_shares : s.exactOi d = s.shares d := by
  unfold exactOi currentOn shares tally Account.share
  rw [sum_filter]

/-- The effective position of an account in use is defined. -/
theorem Seated.effective_isSome (h : Seated s) (used : s.isUsed i = true) :
    ∃ e, effectivePosQ s i = some e := by
  unfold effectivePosQ
  cases hs : sideOfI128 (s.accounts i).positionBasisQ with
  | none => exact ⟨0, by simp only [hs]⟩
  | some d =>
      have hp := h.position i d used hs
      have hprod : (s.accounts i).positionBasisQ.natAbs * (s.sides d).adlMult ≤ U128_MAX :=
        (Nat.mul_le_mul hp.bound (h.side d).mult_le).trans (by decide)
      have hdiv : mulDivFloorU128 (s.accounts i).positionBasisQ.natAbs (s.sides d).adlMult
          (s.accounts i).adlABasis =
          some ((s.accounts i).positionBasisQ.natAbs * (s.sides d).adlMult / (s.accounts i).adlABasis) := by
        unfold mulDivFloorU128
        rw [if_neg]
        have := hp.basis_pos
        omega
      simp only [hs]
      split_ifs
      · exact ⟨0, rfl⟩
      · rw [hdiv]
        simp only [Option.bind_eq_bind, Option.bind_some]
        split_ifs
        · exact ⟨0, rfl⟩
        · exact ⟨_, rfl⟩

/-- The effective positions are the floors of the exact ones. -/
theorem Seated.effectiveOi_le (h : Seated s) : (s.effectiveOi d : ℚ) ≤ s.exactOi d := by
  unfold RiskEngine.effectiveOi RiskEngine.exactOi
  rw [Nat.cast_sum]
  refine sum_le_sum fun i hi => ?_
  unfold RiskEngine.currentOn at hi
  rw [mem_filter, RiskEngine.mem_usedSlots] at hi
  obtain ⟨used, side, epoch⟩ := hi
  obtain ⟨e, he⟩ := h.effective_isSome used
  have heff := h.effective used he
  rw [side] at heff
  have hfloor := Account.floorShare_le (d := d) (v := s.sides d) (a := s.accounts i)
  unfold Account.share at hfloor
  rw [if_pos ⟨side, epoch⟩] at hfloor
  rw [he, Option.getD_some, heff]
  have habs : (d.sign * ((s.accounts i).floorShare d (s.sides d) : Int)).natAbs =
      (s.accounts i).floorShare d (s.sides d) := by cases d <;> simp [Side.sign]
  dsimp only
  rw [habs]
  exact hfloor

/-- In every reachable Live state the open interest of a side covers the exact sum of its
current positions, up to its dust bound, and the effective positions fit below that sum.
So no operation fails in the decrements of ADL and of a trade, and the scheduling of
resets fails only where the dust bounds overflow. -/
theorem Reachable.dust_covered (h : Reachable s) :
    (s.marketMode = .live → ∀ d,
      (∀ i ∈ s.currentOn d, ∃ e, effectivePosQ s i = some e) ∧
      (s.effectiveOi d : ℚ) ≤ s.exactOi d ∧ s.exactOi d ≤ (s.sides d).oiEffQ ∧
      (s.sides d).oiEffQ - s.exactOi d ≤ (s.sides d).phantomDustBoundQ) ∧
    ∀ (ins : Instruction) f s', ins.run s = .fault f s' →
      f ≠ .corrupt .enqueueAdl ∧ f ≠ .corrupt .bilateralOiAfter ∧
      ((s'.sides .long).phantomDustBoundQ + (s'.sides .short).phantomDustBoundQ < 2 ^ 128 →
        f ≠ .corrupt .scheduleEndOfInstructionResets) := by
  refine ⟨fun live d => ?_, fun ins f s' fault => ?_⟩
  · have hp := h.good.positions live
    have hcover := hp.cover d rfl
    have hclosed : (Phase.idle.closedOn d : ℚ) = 0 := rfl
    have hle := hcover.le
    have hge := hcover.ge
    rw [hclosed, add_zero] at hle hge
    rw [RiskEngine.exactOi_eq_shares]
    refine ⟨fun i hi => ?_, ?_, hle, ?_⟩
    · exact hp.seated.effective_isSome (RiskEngine.mem_usedSlots.mp (mem_filter.mp hi).1)
    · rw [← RiskEngine.exactOi_eq_shares]
      exact hp.seated.effectiveOi_le
    · exact sub_le_iff_le_add'.mpr hge
  · have hsound := h.good.faulted fault
    refine ⟨?_, ?_, fun hdust hf => ?_⟩
    · rintro rfl
      exact hsound
    · rintro rfl
      exact hsound
    · subst hf
      have hover : U128_MAX < (s'.sides .long).phantomDustBoundQ + (s'.sides .short).phantomDustBoundQ := hsound
      unfold U128_MAX at hover
      omega

theorem tradedMarket_dust_covered :
    (tradedMarket.effectiveOi .long : ℚ) ≤ tradedMarket.exactOi .long ∧
      tradedMarket.exactOi .long ≤ (tradedMarket.sides .long).oiEffQ := by
  have h := tradedMarket_reachable.dust_covered.1 (by decide +kernel) .long
  exact ⟨h.2.1, h.2.2.1⟩

/-! ### Epochs -/

/-- The accounts whose position on side `d` is of the epoch before, while `d` waits for its reset. -/
def RiskEngine.staleOn (s : RiskEngine) (d : Side) : Finset Nat :=
  {i ∈ s.usedSlots | sideOfI128 (s.accounts i).positionBasisQ = some d ∧
    (s.sides d).sideMode = .resetPending ∧ (s.accounts i).adlEpochSnap + 1 = (s.sides d).adlEpoch}

/-- The positions stored on a side that waits for its reset are the stale ones. -/
theorem Positions.stale_eq {ph : Phase} (h : Positions s ph) (books : Books s) :
    (s.sides d).staleAccountCount = #(s.staleOn d) := by
  have hstale := (h.side d).stale
  unfold RiskEngine.staleOn
  by_cases hmode : (s.sides d).sideMode = .resetPending
  · rw [hstale, if_pos hmode, books.stored d, tally, card_filter]
    refine sum_congr rfl fun i hi => ?_
    unfold Account.on
    by_cases hside : sideOfI128 (s.accounts i).positionBasisQ = some d
    · have hpos := (h.position i d (RiskEngine.mem_usedSlots.mp hi) hside).epoch
      have hepoch : (s.accounts i).adlEpochSnap + 1 = (s.sides d).adlEpoch := by
        rcases hpos with ⟨hn, -⟩ | ⟨-, he⟩
        · exact absurd hmode hn
        · exact he
      rw [if_pos hside, if_pos ⟨hside, hmode, hepoch⟩]
    · rw [if_neg hside, if_neg fun hc => hside hc.1]
  · rw [hstale, if_neg hmode, eq_comm, card_eq_zero]
    exact filter_false_of_mem fun i _ hc => hmode hc.2.1

/-- Settling an account that is in use never fails a check of epochs, modes or counters. -/
theorem Good.settleSideEffects_sound {ph : Phase} (h : Good ⟨s, ph⟩) (live : s.marketMode = .live)
    (used : s.isUsed i = true) (ctx : InstructionContext) :
    wp (settleSideEffectsLive i ctx) (fun _ _ _ => True) Fault.Sound s [] := by
  have hpositions : Positions s ph := h.positions live
  simp only [settleSideEffectsLive, wp_bind, wp_read]
  cases hs : sideOfI128 (s.accounts i).positionBasisQ with
  | none => simp only [wp_pure]
  | some d =>
      have hpos := hpositions.position i d used hs
      simp only [wp_bind, wp_corruptIf, wp_ite, wp_lift]
      refine ⟨fun h0 => absurd h0 hpos.basis_pos.ne', fun _ => ⟨fun _ => ?_, fun hepoch => ?_⟩⟩
      · exact wp_plain fun _ _ _ _ => trivial
      · exact wp_mono (hpositions.settleStale_sound h.books used hs hepoch) (fun _ _ _ ht => ht)
          fun _ _ he => he

/-- The epochs of positions and sides, the stale counters and the reset modes stay in step,
in every reachable Live state and so after every operation, and no settlement ever fails a
check of them. -/
theorem Reachable.epochs_in_step (h : Reachable s) (live : s.marketMode = .live) :
    (∀ d,
      (∀ i, s.isUsed i = true → sideOfI128 (s.accounts i).positionBasisQ = some d →
        (s.accounts i).adlEpochSnap = (s.sides d).adlEpoch ∨
          (s.sides d).sideMode = .resetPending ∧ (s.accounts i).adlEpochSnap + 1 = (s.sides d).adlEpoch) ∧
      (s.sides d).staleAccountCount = #(s.staleOn d) ∧
      ((s.sides d).sideMode = .resetPending →
        (s.sides d).oiEffQ = 0 ∧ (s.sides d).storedPosCount = (s.sides d).staleAccountCount) ∧
      ((s.sides d).sideMode ≠ .resetPending → (s.sides d).staleAccountCount = 0)) ∧
    (∀ (ins : Instruction) s' l, ins.run s = .ok () s' l → s'.marketMode = .live → ∀ d,
      ((s'.sides d).sideMode = .resetPending → 0 < (s'.sides d).staleAccountCount) ∧
      ((s'.sides d).sideMode = .drainOnly → 0 < (s'.sides d).oiEffQ)) ∧
    (∀ i, s.isUsed i = true → ∀ ctx f s', settleSideEffectsLive i ctx s = .fault f s' →
      f ≠ .corrupt .settleSideEffectsLive) ∧
    ∀ (ins : Instruction) f s', ins.run s = .fault f s' → f ≠ .corrupt .settleSideEffectsLive := by
  have hp : Positions s .idle := h.good.positions live
  refine ⟨fun d => ⟨fun i used side => ?_, hp.stale_eq h.good.books, fun mode => ?_, fun mode => ?_⟩,
    fun ins s' l ok live' d => ?_, fun i used ctx f s' fault => ?_, fun ins f s' fault => ?_⟩
  · rcases (hp.position i d used side).epoch with ⟨-, he⟩ | hs
    · exact .inl he
    · exact .inr hs
  · have hstale := (hp.side d).stale
    rw [if_pos mode] at hstale
    exact ⟨(hp.side d).drained mode, hstale.symm⟩
  · rw [(hp.side d).stale, if_neg mode]
  · have hq := ((h.good.committed ok).good.positions live').quiet rfl d
    exact ⟨hq.waiting, hq.draining⟩
  · have hsound := wp_sound_fault fault (h.good.settleSideEffects_sound live used ctx)
    rintro rfl
    exact hsound
  · have hsound := h.good.faulted fault
    rintro rfl
    exact hsound

theorem tradedMarket_epochs_in_step :
    (tradedMarket.sides .long).staleAccountCount = (tradedMarket.staleOn .long).card :=
  ((tradedMarket_reachable.epochs_in_step (by decide +kernel)).1 .long).2.1

end Percolator
