import Percolator.Engine.Adl
import Percolator.Spec.Position

/-!
What ADL and the resets do to the sides.
-/

namespace Percolator

open Effect

/-- A side with another open interest. -/
@[simps] def SideState.withOi (v : SideState) (oi : Nat) : SideState := { v with oiEffQ := oi }

/-- A side after a full-drain reset began. -/
def SideState.drained (v : SideState) : SideState :=
  { v with
    adlEpochStartK := v.adlCoeff, fEpochStartNum := v.fNum, adlCoeff := 0, fNum := 0
    adlEpoch := v.adlEpoch + 1, adlMult := ADL_ONE, staleAccountCount := v.storedPosCount
    phantomDustBoundQ := 0, sideMode := .resetPending }

/-- A side that opens again when nothing holds its reset up. -/
def SideState.reopened (v : SideState) : SideState :=
  if v.Ready then { v with sideMode := .normal } else v

/-- Whether a reset of a side in state `v` begins when it is scheduled or not. -/
def SideState.Drains (pending : Bool) (v : SideState) : Prop :=
  pending = true ∧ v.sideMode ≠ .resetPending

instance (pending : Bool) (v : SideState) : Decidable (v.Drains pending) := by
  unfold SideState.Drains; infer_instance

/-- A side at the end of an instruction. -/
def SideState.finalized (v : SideState) (pending : Bool) : SideState :=
  (if v.Drains pending then v.drained else v).reopened

/-- The resets that begin at the end of an instruction. -/
def drainEvents (sides : Side → SideState) (pending : Side → Bool) : List Event :=
  (if (sides .long).Drains (pending .long) then [.drained .long] else []) ++
    if (sides .short).Drains (pending .short) then [.drained .short] else []

/-- Replace both sides. -/
@[simps] def RiskEngine.withSides (s : RiskEngine) (f : Side → SideState) : RiskEngine :=
  { s with sides := f }

section Specs

variable {s s' : RiskEngine} {l : List Event} {d : Side} {ctx ctx' : InstructionContext}

theorem RiskEngine.setSide_eq (v : SideState) :
    s.setSide d v = s.withSides fun e => if e = d then v else s.sides e := rfl

theorem beginFullDrainReset_spec (hok : beginFullDrainReset d s = .ok () s' l) :
    s' = s.setSide d (s.sides d).drained ∧ l = [.drained d] ∧ (s.sides d).oiEffQ = 0 ∧
      (s.sides d).adlEpoch < U64_MAX := by
  refine wp_sound (Q := fun _ s' l => s' = s.setSide d (s.sides d).drained ∧ l = [.drained d] ∧
    (s.sides d).oiEffQ = 0 ∧ (s.sides d).adlEpoch < U64_MAX) hok ?_
  simp only [beginFullDrainReset, wp_bind, wp_read, wp_rejectIf, wp_writeSide, wp_orErr, wp_emit,
    implies_true, true_and, not_not]
  intro hoi epoch he
  obtain ⟨rfl, hle⟩ := checkedAddU64_eq he
  refine ⟨?_, rfl, hoi, hle⟩
  simp only [RiskEngine.setSide_setSide, RiskEngine.setSide_same]
  rfl

theorem beginPendingReset_spec (hok : beginPendingReset ctx d s = .ok () s' l) :
    s' = s.setSide d (if (s.sides d).Drains (ctx.pendingReset d) then (s.sides d).drained else s.sides d) ∧
      l = (if (s.sides d).Drains (ctx.pendingReset d) then [.drained d] else []) ∧
      ((s.sides d).Drains (ctx.pendingReset d) → (s.sides d).oiEffQ = 0 ∧ (s.sides d).adlEpoch < U64_MAX) := by
  set P : RiskEngine → List Event → Prop := fun s' l =>
    s' = s.setSide d (if (s.sides d).Drains (ctx.pendingReset d) then (s.sides d).drained else s.sides d) ∧
      l = (if (s.sides d).Drains (ctx.pendingReset d) then [.drained d] else []) ∧
      ((s.sides d).Drains (ctx.pendingReset d) → (s.sides d).oiEffQ = 0 ∧ (s.sides d).adlEpoch < U64_MAX) with hP
  refine wp_sound (Q := fun _ => P) hok ?_
  simp only [beginPendingReset, wp_bind, wp_read, wp_whenever]
  refine ⟨fun h => wp_ok fun _ s₁ l₁ h₁ => ?_, fun h => ?_⟩
  · have h : (s.sides d).Drains (ctx.pendingReset d) := h
    obtain ⟨rfl, rfl, hoi⟩ := beginFullDrainReset_spec h₁
    exact ⟨by rw [if_pos h], by rw [if_pos h]; rfl, fun _ => hoi⟩
  · have h : ¬ (s.sides d).Drains (ctx.pendingReset d) := h
    refine ⟨?_, by rw [if_neg h], fun h' => absurd h' h⟩
    rw [if_neg h, RiskEngine.setSide_eq]
    refine congrArg (fun f => s.withSides f) (funext fun e => ?_)
    by_cases he : e = d
    · subst he; simp
    · simp [he]

theorem finalizeReadySide_spec (hok : finalizeReadySide d s = .ok () s' l) :
    s' = s.setSide d (s.sides d).reopened ∧ l = [] := by
  refine wp_sound (Q := fun _ s' l => s' = s.setSide d (s.sides d).reopened ∧ l = []) hok ?_
  simp only [finalizeReadySide, wp_bind, wp_read, wp_whenever, wp_writeSide]
  refine ⟨fun h => ⟨by rw [SideState.reopened, if_pos h], trivial⟩, fun h => ⟨?_, trivial⟩⟩
  rw [SideState.reopened, if_neg h, RiskEngine.setSide_eta]

/-- Two sides, one after the other. -/
theorem RiskEngine.setSide_long_short (v w : SideState) :
    (s.setSide .long v).setSide .short w = s.withSides fun | .long => v | .short => w := by
  simp only [setSide, withSides]
  congr 1
  funext e
  cases e <;> rfl

theorem maybeFinalizeReadyResetSides_spec (hok : maybeFinalizeReadyResetSides s = .ok () s' l) :
    s' = s.withSides (fun d => (s.sides d).reopened) ∧ l = [] := by
  refine wp_sound (Q := fun _ s' l => s' = s.withSides (fun d => (s.sides d).reopened) ∧ l = []) hok ?_
  simp only [maybeFinalizeReadyResetSides, wp_bind]
  refine wp_ok fun _ s₁ l₁ h₁ => wp_ok fun _ s₂ l₂ h₂ => ?_
  obtain ⟨rfl, rfl⟩ := finalizeReadySide_spec h₁
  obtain ⟨rfl, rfl⟩ := finalizeReadySide_spec h₂
  refine ⟨?_, rfl⟩
  rw [RiskEngine.setSide_long_short]
  refine congrArg (fun f => s.withSides f) (funext fun e => ?_)
  cases e <;> rfl

/-- Both sides are finalized, each by its own mark. -/
theorem finalizeEndOfInstructionResets_spec
    (hok : finalizeEndOfInstructionResets ctx s = .ok () s' l) :
    s' = s.withSides (fun d => (s.sides d).finalized (ctx.pendingReset d)) ∧
      l = drainEvents s.sides ctx.pendingReset ∧
      ∀ d, (s.sides d).Drains (ctx.pendingReset d) → (s.sides d).oiEffQ = 0 ∧ (s.sides d).adlEpoch < U64_MAX := by
  set P : RiskEngine → List Event → Prop := fun s' l =>
    s' = s.withSides (fun d => (s.sides d).finalized (ctx.pendingReset d)) ∧
      l = drainEvents s.sides ctx.pendingReset ∧
      ∀ d, (s.sides d).Drains (ctx.pendingReset d) → (s.sides d).oiEffQ = 0 ∧ (s.sides d).adlEpoch < U64_MAX with hP
  refine wp_sound (Q := fun _ => P) hok ?_
  simp only [finalizeEndOfInstructionResets, wp_bind]
  refine wp_ok fun _ s₁ l₁ h₁ => wp_ok fun _ s₂ l₂ h₂ => wp_ok fun _ s₃ l₃ h₃ => ?_
  obtain ⟨rfl, rfl, ho₁⟩ := beginPendingReset_spec h₁
  obtain ⟨rfl, rfl, ho₂⟩ := beginPendingReset_spec h₂
  obtain ⟨rfl, rfl⟩ := maybeFinalizeReadyResetSides_spec h₃
  have hshort : (s.setSide .long (if (s.sides .long).Drains (ctx.pendingReset .long) then
      (s.sides .long).drained else s.sides .long)).sides .short = s.sides .short := rfl
  rw [hshort] at ho₂ ⊢
  refine ⟨?_, by simp [drainEvents], fun d => ?_⟩
  · rw [RiskEngine.setSide_long_short]
    refine congrArg (fun f => s.withSides f) (funext fun e => ?_)
    cases e <;> rfl
  · cases d
    · exact ho₁
    · exact ho₂

/-- What the scheduling of resets decides: the open interest it leaves and the marks. -/
structure Scheduled (s : RiskEngine) (pending : Side → Bool) (oi : Side → Nat) (marks : Side → Bool) :
    Prop where
  kept_or_cleared : (∀ d, oi d = (s.sides d).oiEffQ) ∨ ∀ d, oi d = 0 ∧ marks d = true
  mono : ∀ d, pending d = true → marks d = true
  new : ∀ d, marks d = true → pending d = true ∨ oi d = 0
  draining : ∀ d, (s.sides d).sideMode = .drainOnly → oi d = 0 → marks d = true
  vacant : ∀ d, (s.sides d).storedPosCount = 0 →
    oi d = 0 ∧ ((s.sides d).phantomDustBoundQ = 0 ∨ marks d = true)

theorem InstructionContext.setPendingReset_apply (e : Side) :
    (ctx.setPendingReset d).pendingReset e = (decide (e = d) || ctx.pendingReset e) := by
  unfold setPendingReset
  by_cases h : e = d <;> simp [h]

/-- The contexts differ at most in their marks. -/
def InstructionContext.SameButPending (ctx ctx' : InstructionContext) : Prop :=
  ctx' = { ctx with pendingReset := ctx'.pendingReset }

/-- The dust clearance: nothing when there is nothing to clear, or both sides cleared and marked. -/
def Cleared (s s' : RiskEngine) (ctx ctx' : InstructionContext) (nothing : Prop) : Prop :=
  s' = s ∧ ctx' = ctx ∧ nothing ∨ s' = s.withSides (fun d => (s.sides d).withOi 0) ∧
    ctx.SameButPending ctx' ∧ ∀ d, ctx'.pendingReset d = true

/-- A side without positions has no open interest and no dust. -/
def RiskEngine.Swept (s : RiskEngine) : Prop :=
  ∀ d, (s.sides d).storedPosCount = 0 →
    (∀ e, (s.sides e).oiEffQ = 0) ∧ (s.sides d).phantomDustBoundQ = 0

theorem Cleared.imp {p q : Prop} (h : Cleared s s' ctx ctx' p) (hpq : p → q) :
    Cleared s s' ctx ctx' q := by
  rcases h with ⟨h1, h2, h3⟩ | h
  · exact .inl ⟨h1, h2, hpq h3⟩
  · exact .inr h

theorem clearResidual_spec {residual : Bool} {bound : Nat}
    (hok : clearResidual ctx residual bound s = .ok ctx' s' l) :
    Cleared s s' ctx ctx' (residual = false) ∧ l = [] := by
  refine wp_sound (Q := fun ctx' s' l => Cleared s s' ctx ctx' (residual = false) ∧ l = []) hok ?_
  simp only [clearResidual, wp_bind, wp_read, wp_ite, wp_corruptIf, wp_lift, wp_writeSide, wp_pure,
    implies_true, true_and, and_true]
  refine ⟨fun _ _ _ => .inr ⟨?_, rfl, fun d => by cases d <;> rfl⟩,
    fun h => .inl ⟨rfl, rfl, by simpa using h⟩⟩
  rw [RiskEngine.setSide_long_short]
  refine congrArg (fun f => s.withSides f) (funext fun e => ?_)
  cases e <;> rfl

theorem clearDust_spec (hok : clearDust ctx s = .ok ctx' s' l) :
    Cleared s s' ctx ctx' s.Swept ∧ l = [] := by
  refine wp_sound (Q := fun ctx' s' l => Cleared s s' ctx ctx' s.Swept ∧ l = []) hok ?_
  simp only [clearDust, wp_bind, wp_read, wp_ite, wp_corruptIf, wp_pure, implies_true, true_and]
  have hnext : ∀ {residual : Bool} {bound ctx' s' l'}, (residual = false → s.Swept) →
      clearResidual ctx residual bound s = .ok ctx' s' l' → Cleared s s' ctx ctx' s.Swept ∧ [] ++ l' = [] :=
    fun hr h => ⟨(clearResidual_spec h).1.imp hr, (clearResidual_spec h).2⟩
  refine ⟨fun h0 _ => wp_ok fun _ _ _ h => hnext (fun hr => ?_) h,
    fun h1 => ⟨fun h0 => wp_ok fun _ _ _ h => hnext (fun hr => ?_) h,
      fun h2 => ⟨fun h0 => wp_ok fun _ _ _ h => hnext (fun hr => ?_) h,
        fun h3 => ⟨.inl ⟨rfl, rfl, fun d hd => ?_⟩, trivial⟩⟩⟩⟩
  · simp only [Bool.or_eq_false_iff, decide_eq_false_iff_not, not_or, not_not] at hr
    exact fun d _ => ⟨fun e => by cases e <;> omega, by cases d <;> omega⟩
  · simp only [Bool.or_eq_false_iff, decide_eq_false_iff_not, not_or, not_not] at hr
    refine fun d hd => ⟨fun e => by cases e <;> omega, ?_⟩
    cases d
    · exact hr.2
    · exact absurd ⟨h0, hd⟩ h1
  · simp only [Bool.or_eq_false_iff, decide_eq_false_iff_not, not_or, not_not] at hr
    refine fun d hd => ⟨fun e => by cases e <;> omega, ?_⟩
    cases d
    · exact absurd hd h2
    · exact hr.2
  · cases d
    · exact absurd hd h2
    · exact absurd hd h3

theorem scheduleDrained_pending (e : Side) : (scheduleDrained d s ctx).pendingReset e =
    (decide (e = d ∧ (s.sides d).sideMode = .drainOnly ∧ (s.sides d).oiEffQ = 0) || ctx.pendingReset e) := by
  unfold scheduleDrained
  split_ifs with h
  · rw [InstructionContext.setPendingReset_apply]; simp [h]
  · simp [h]

theorem scheduleDrained_same : ctx.SameButPending (scheduleDrained d s ctx) := by
  unfold scheduleDrained
  split_ifs <;> rfl

theorem scheduleEndOfInstructionResets_spec
    (hok : scheduleEndOfInstructionResets ctx s = .ok ctx' s' l) :
    ∃ oi, s' = s.withSides (fun d => (s.sides d).withOi (oi d)) ∧ l = [] ∧
      Scheduled s ctx.pendingReset oi ctx'.pendingReset := by
  set P : InstructionContext → RiskEngine → List Event → Prop := fun ctx' s' l =>
    ∃ oi, s' = s.withSides (fun d => (s.sides d).withOi (oi d)) ∧ l = [] ∧
      Scheduled s ctx.pendingReset oi ctx'.pendingReset with hP
  refine wp_sound (Q := P) hok ?_
  simp only [scheduleEndOfInstructionResets, wp_bind, wp_read, wp_pure]
  refine wp_ok fun c s₁ l₁ h₁ => ?_
  obtain ⟨⟨rfl, rfl, hswept⟩ | ⟨rfl, -, hall⟩, rfl⟩ := clearDust_spec h₁
  · refine ⟨fun d => (s₁.sides d).oiEffQ, rfl, rfl, .inl fun _ => rfl, fun d hd => ?_, fun d hd => ?_,
      fun d hd h0 => ?_, fun d hd => ⟨(hswept d hd).1 d, .inl (hswept d hd).2⟩⟩
    · simp [scheduleDrained_pending, hd]
    · simp only [scheduleDrained_pending, Bool.or_eq_true, decide_eq_true_eq] at hd
      rcases hd with ⟨rfl, -, h0⟩ | ⟨rfl, -, h0⟩ | h
      · exact .inr h0
      · exact .inr h0
      · exact .inl h
    · cases d <;> simp [scheduleDrained_pending, hd, h0]
  · refine ⟨fun _ => 0, rfl, rfl, .inr fun d => ⟨rfl, ?_⟩, fun d _ => ?_, fun _ _ => .inr rfl, fun d _ _ => ?_,
      fun d _ => ⟨rfl, .inr ?_⟩⟩
    all_goals simp [scheduleDrained_pending, hall]

/-- What ADL leaves of the opposing side `v` when `q` is closed against it, in a
state whose insurance pays first; `k` is what it takes off the K index. -/
inductive Absorbed (d : Side) (v : SideState) (q : Nat) : SideState → List Event → Prop
  /-- No position is stored: only the open interest falls. -/
  | vacant (h : v.storedPosCount = 0) : Absorbed d v q (v.withOi (v.oiEffQ - q)) []
  /-- The side is drained, exactly or for want of precision. -/
  | drained (k : Nat) (range : -I128_MAX ≤ v.adlCoeff - k ∨ k = 0) :
      Absorbed d v q { v with adlCoeff := v.adlCoeff - k, oiEffQ := 0 }
        [.deleveraged d k v.adlMult v.adlMult]
  /-- A is scaled down. -/
  | shrunk (k aNew bound : Nat) (mode : SideMode) (range : -I128_MAX ≤ v.adlCoeff - k ∨ k = 0)
      (lt : q < v.oiEffQ) (scaled : aNew = v.adlMult * (v.oiEffQ - q) / v.oiEffQ) (pos : 0 < aNew)
      (dust : bound = globalADustBound v.storedPosCount v.oiEffQ v.adlMult)
      (mode_eq : mode = if aNew < MIN_A_SIDE then .drainOnly else v.sideMode) :
      Absorbed d v q
        { v with
          adlCoeff := v.adlCoeff - k, adlMult := aNew, oiEffQ := v.oiEffQ - q
          phantomDustBoundQ := v.phantomDustBoundQ + bound, sideMode := mode }
        [.deleveraged d k v.adlMult aNew]

theorem adlHeadroom_spec {k newK : Int} {aOld delta : Nat} (h : adlHeadroom k aOld delta = some newK) :
    newK = k - delta ∧ -I128_MAX ≤ newK := by
  simp only [adlHeadroom, Option.bind_eq_bind, Option.bind_eq_some_iff] at h
  obtain ⟨x, hx, mark, -, budget, hb, h⟩ := h
  split_ifs at h
  obtain rfl := Option.some.inj h
  obtain ⟨rfl, -⟩ := toI128_eq hx
  have := checkedSub_eq hb
  simp only [I128_MAX] at *
  exact ⟨rfl, by omega⟩

theorem socializeDeficit_spec {oi dRem k : Nat} (hok : socializeDeficit d oi dRem s = .ok k s' l) :
    s' = s.setSide d { s.sides d with adlCoeff := (s.sides d).adlCoeff - k } ∧ l = [] ∧
      (-I128_MAX ≤ (s.sides d).adlCoeff - k ∨ k = 0) := by
  set P : Nat → RiskEngine → List Event → Prop := fun k s' l =>
    s' = s.setSide d { s.sides d with adlCoeff := (s.sides d).adlCoeff - k } ∧ l = [] ∧
      (-I128_MAX ≤ (s.sides d).adlCoeff - k ∨ k = 0) with hP
  refine wp_sound (Q := P) hok ?_
  have hzero : P 0 s [] := by
    refine ⟨?_, rfl, .inr rfl⟩
    simp only [Nat.cast_zero, Int.sub_zero, RiskEngine.setSide_eq]
    refine (congrArg (fun f => s.withSides f) (funext fun e => ?_)).symm
    by_cases he : e = d
    · subst he; simp
    · simp [he]
  simp only [socializeDeficit, wp_bind, wp_read, wp_ite, wp_pure, wp_orErr, wp_expect, implies_true,
    true_and]
  refine ⟨fun _ => hzero, fun _ aPs _ delta _ => ?_⟩
  cases delta with
  | overI128Magnitude => simpa using hzero
  | fits k =>
      dsimp only
      cases h : adlHeadroom (s.sides d).adlCoeff (s.sides d).adlMult k with
      | none => simpa using hzero
      | some newK =>
          obtain ⟨rfl, hr⟩ := adlHeadroom_spec h
          simp only [wp_bind, wp_writeSide, wp_pure]
          exact ⟨rfl, rfl, .inl hr⟩

theorem Side.opposite_ne (d : Side) : d.opposite ≠ d := by cases d <;> decide

/-- The sides when the opposing one of `liq` is `v` and the other has its open interest. -/
def RiskEngine.absorb (s : RiskEngine) (liq : Side) (v : SideState) : RiskEngine :=
  s.withSides fun e => if e = liq.opposite then v else (s.sides e).withOi v.oiEffQ

/-- The marks after ADL left the open interest `oi`. -/
def Marked (oi : Nat) (ctx ctx' : InstructionContext) : Prop :=
  ctx.SameButPending ctx' ∧ ∀ d, ctx'.pendingReset d = (decide (oi = 0) || ctx.pendingReset d)

theorem marked_both {liq : Side} :
    Marked 0 ctx ((ctx.setPendingReset liq.opposite).setPendingReset liq) := by
  refine ⟨rfl, fun d => ?_⟩
  simp only [InstructionContext.setPendingReset_apply]
  cases d <;> cases liq <;> simp [Side.opposite]

theorem marked_both' {liq : Side} :
    Marked 0 ctx ((ctx.setPendingReset liq).setPendingReset liq.opposite) := by
  refine ⟨rfl, fun d => ?_⟩
  simp only [InstructionContext.setPendingReset_apply]
  cases d <;> cases liq <;> simp [Side.opposite]

theorem marked_none {oi : Nat} (h : oi ≠ 0) : Marked oi ctx ctx := ⟨rfl, fun d => by simp [h]⟩

theorem mulDivFloorU256WithRem_eq {a b d q r : Nat} (h : mulDivFloorU256WithRem a b d = some (q, r)) :
    q = a * b / d := by
  unfold mulDivFloorU256WithRem at h
  split_ifs at h
  simp only [Option.some.injEq, Prod.mk.injEq] at h
  exact h.1.symm

theorem Side.eq_or_opposite (d e : Side) : e = d ∨ e = d.opposite := by cases d <;> cases e <;> decide

theorem RiskEngine.setSide_absorb {liq : Side} {w : SideState} (h : (s.sides liq).oiEffQ = w.oiEffQ) :
    s.setSide liq.opposite w = s.absorb liq w := by
  rw [setSide_eq, absorb]
  refine congrArg (fun f => s.withSides f) (funext fun e => ?_)
  rcases liq.eq_or_opposite e with rfl | rfl
  · rw [if_neg fun he => e.opposite_ne he.symm, if_neg fun he => e.opposite_ne he.symm, ← h]
    rfl
  · rw [if_pos rfl, if_pos rfl]

theorem RiskEngine.setSide_setSide_absorb {liq : Side} {w : SideState} (h : w.oiEffQ = 0) :
    (s.setSide liq.opposite w).setSide liq ((s.sides liq).withOi 0) = s.absorb liq w := by
  simp only [setSide_eq, absorb, withSides]
  congr 1
  funext e
  rcases liq.eq_or_opposite e with rfl | rfl
  · rw [if_pos rfl, if_neg fun he => e.opposite_ne he.symm, h]
  · rw [if_neg liq.opposite_ne, if_pos rfl]
    simp

theorem incPhantomDustBoundBy_spec {n : Nat} (hok : incPhantomDustBoundBy d n s = .ok () s' l) :
    s' = s.setSide d { s.sides d with phantomDustBoundQ := (s.sides d).phantomDustBoundQ + n } ∧
      l = [] := by
  refine wp_sound (Q := fun _ s' l => s' = s.setSide d
    { s.sides d with phantomDustBoundQ := (s.sides d).phantomDustBoundQ + n } ∧ l = []) hok ?_
  simp only [incPhantomDustBoundBy, wp_bind, wp_read, wp_orErr, wp_writeSide, implies_true, true_and]
  intro m hm
  rw [(checkedAddU128_eq hm).1]
  exact ⟨rfl, trivial⟩

/-- Steps 8 to 11 of ADL on sides whose open interest is balanced. -/
theorem shrinkOpposing_spec {liq : Side} {q k : Nat} {v : SideState}
    (hok : shrinkOpposing ctx liq v.oiEffQ q k s = .ok ctx' s' l)
    (hv : s.sides liq.opposite = { v with adlCoeff := v.adlCoeff - k })
    (hw : (s.sides liq).oiEffQ = v.oiEffQ - q) (hq : 0 < q)
    (hrange : -I128_MAX ≤ v.adlCoeff - k ∨ k = 0) :
    ∃ v', Absorbed liq.opposite v q v' l ∧ s' = s.absorb liq v' ∧ Marked v'.oiEffQ ctx ctx' := by
  set P : InstructionContext → RiskEngine → List Event → Prop := fun ctx' s' l =>
    ∃ v', Absorbed liq.opposite v q v' l ∧ s' = s.absorb liq v' ∧ Marked v'.oiEffQ ctx ctx' with hP
  refine wp_sound (Q := P) hok ?_
  have hne : ¬ liq = liq.opposite := fun h => liq.opposite_ne h.symm
  simp only [shrinkOpposing, wp_bind, wp_read, wp_ite, wp_writeSide, wp_emit, wp_pure, wp_expect,
    wp_orErr, wp_whenever, implies_true, true_and, hv]
  refine ⟨fun h0 => ?_, fun h0 => ?_⟩
  · -- exactly drained
    have hw0 : (s.sides liq).oiEffQ = 0 := hw.trans h0
    refine ⟨_, .drained k hrange, RiskEngine.setSide_absorb hw0, ?_⟩
    rw [if_pos (by simpa [hne] using hw0)]
    exact marked_both
  rintro ⟨aNew, _⟩ ha
  refine ⟨fun hpos c hc => ?_, fun hzero => ?_⟩
  · -- scaled
    have hlt : v.oiEffQ - q < v.oiEffQ := by omega
    obtain rfl : c = aNew := by
      unfold U256.tryIntoU128 at hc; split_ifs at hc; exact (Option.some.inj hc).symm
    have hscale := mulDivFloorU256WithRem_eq ha
    refine ⟨fun _ => wp_ok fun _ s₁ l₁ h₁ => ?_, fun h => absurd hlt h⟩
    obtain ⟨rfl, rfl⟩ := incPhantomDustBoundBy_spec h₁
    refine ⟨fun hmode => ?_, fun hmode => ?_⟩
    · refine ⟨_, .shrunk k c _ .drainOnly hrange (by omega) hscale (Nat.pos_of_ne_zero hpos) rfl
        (by rw [if_pos hmode]), ?_, marked_none h0⟩
      rw [← RiskEngine.setSide_absorb hw]
      simp only [RiskEngine.setSide_setSide, RiskEngine.setSide_same]
    · refine ⟨_, .shrunk k c _ v.sideMode hrange (by omega) hscale (Nat.pos_of_ne_zero hpos) rfl
        (by rw [if_neg hmode]), ?_, marked_none h0⟩
      rw [← RiskEngine.setSide_absorb hw]
      simp only [RiskEngine.setSide_setSide, RiskEngine.setSide_same]
  · -- drained for want of precision
    refine ⟨_, .drained k hrange, ?_, marked_both⟩
    rw [← RiskEngine.setSide_setSide_absorb rfl]
    simp only [RiskEngine.setSide_sides, hne, if_false]
    rfl

/-- ADL on balanced sides. -/
structure Deleveraged (s s' : RiskEngine) (liq : Side) (q : Nat) (v : SideState) (l : List Event)
    (ctx ctx' : InstructionContext) : Prop where
  absorbed : Absorbed liq.opposite (s.sides liq.opposite) q v l
  eq : ∃ f, f ≤ s.insuranceFund ∧ s' = (s.withInsuranceFund f).absorb liq v
  marked : Marked v.oiEffQ ctx ctx'

/-- Whatever else was written to the sides, `absorb` only keeps the rest of the liquidated one. -/
theorem RiskEngine.withSides_absorb {liq : Side} {v : SideState} {g : Side → SideState}
    (h : (g liq).withOi v.oiEffQ = (s.sides liq).withOi v.oiEffQ) :
    (s.withSides g).absorb liq v = s.absorb liq v := by
  simp only [absorb, withSides]
  congr 1
  funext e
  rcases liq.eq_or_opposite e with rfl | rfl
  · rw [if_neg (Ne.symm e.opposite_ne), if_neg (Ne.symm e.opposite_ne), h]
  · rw [if_pos rfl, if_pos rfl]

theorem enqueueAdl_spec {liq : Side} {q deficit : Nat}
    (hok : enqueueAdl ctx liq q deficit s = .ok ctx' s' l) (hq : 0 < q)
    (hbal : (s.sides liq).oiEffQ = (s.sides liq.opposite).oiEffQ) :
    ∃ v, Deleveraged s s' liq q v l ctx ctx' := by
  set P : InstructionContext → RiskEngine → List Event → Prop := fun ctx' s' l =>
    ∃ v, Deleveraged s s' liq q v l ctx ctx' with hP
  refine wp_sound (Q := P) hok ?_
  have hne : ¬ liq.opposite = liq := liq.opposite_ne
  simp only [enqueueAdl, useInsuranceBuffer, wp_bind, wp_read, wp_ite, wp_writeSide, wp_corruptIf,
    wp_lift, wp_pure, wp_update, implies_true, true_and, not_lt]
  simp only [RiskEngine.withInsuranceFund_sides, RiskEngine.setSide_sides, hne, if_true, if_false,
    RiskEngine.setSide_insuranceFund, RiskEngine.setSide_params]
  set f := s.insuranceFund - min deficit (s.insuranceFund - s.params.insuranceFloor) with hf
  have hfund : f ≤ s.insuranceFund := Nat.sub_le _ _
  refine fun hle => ⟨fun h0 => by omega, fun _ _ => ⟨fun hstored => ?_, fun _ =>
    wp_ok fun k s₁ l₁ h₁ => wp_ok fun c s₂ l₂ h₂ => ?_⟩⟩
  · refine ⟨_, .vacant hstored, ⟨f, hfund, ?_⟩, ?_⟩
    · exact (RiskEngine.setSide_absorb (by simp [hbal])).trans
        (RiskEngine.withSides_absorb (s := s.withInsuranceFund f)
          (g := fun e => if e = liq then _ else s.sides e) (by simp only [if_true]; rfl))
    · rw [hbal]
      split_ifs with h0
      · simpa [h0] using marked_both
      · exact marked_none (by simpa using h0)
  · obtain ⟨rfl, rfl, hrange⟩ := socializeDeficit_spec h₁
    obtain ⟨v', habs, rfl, hmark⟩ := shrinkOpposing_spec h₂ (v := s.sides liq.opposite) (k := k)
      (by simp [hne]) (by simp [Ne.symm hne, hbal]) hq (by simpa [hne] using hrange)
    refine ⟨v', habs, ⟨f, hfund, ?_⟩, hmark⟩
    exact RiskEngine.withSides_absorb (s := s.withInsuranceFund f)
      (g := fun e => if e = liq.opposite then _ else if e = liq then _ else s.sides e)
      (by simp only [Ne.symm hne, if_true, if_false]; rfl)

end Specs

end Percolator
