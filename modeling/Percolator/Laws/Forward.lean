import Mathlib.Data.Prod.Lex
import Percolator.Laws.Eager

/-!
Sides go forward.

A side counts its full drains as epochs. In an epoch it waits for its reset, opens and drains, in this order,
and its multiplier only shrinks; so nothing that an account has snapshotted can come back.
-/

namespace Percolator

variable {s s' : RiskEngine} {sc : Scope} {c c' : Conf} {l : List Event} {v w : SideState} {d : Side} {q : Nat}

/-- How far a side is in its epoch. -/
def SideMode.rank : SideMode → Nat
  | .resetPending => 0
  | .normal => 1
  | .drainOnly => 2

/-- Where a side is: its epoch first, and in the epoch its mode and how small its multiplier is. -/
def SideState.stage (v : SideState) : Nat ×ₗ (Nat × Natᵒᵈ) :=
  toLex (v.adlEpoch, v.sideMode.rank, OrderDual.toDual v.adlMult)

theorem SideState.stage_le_iff : v.stage ≤ w.stage ↔ v.adlEpoch < w.adlEpoch ∨
    v.adlEpoch = w.adlEpoch ∧ v.sideMode.rank ≤ w.sideMode.rank ∧ w.adlMult ≤ v.adlMult :=
  Prod.Lex.toLex_le_toLex

/-- The drains of side `d` in a log. -/
def drains (d : Side) (l : List Event) : Nat :=
  l.countP fun e => match e with
    | .drained e => decide (e = d)
    | _ => false

/-- A side has gone forward, by as many epochs as there were drains. -/
structure SideState.Forward (d : Side) (v : SideState) (l : List Event) (w : SideState) : Prop where
  stage : v.stage ≤ w.stage
  epoch : w.adlEpoch = v.adlEpoch + drains d l

/-- A side whose gear was not changed. -/
theorem SideState.Forward.still (same : (w.adlEpoch, w.sideMode, w.adlMult) = (v.adlEpoch, v.sideMode, v.adlMult))
    (none : drains d l = 0) : v.Forward d l w := by
  simp only [Prod.mk.injEq] at same
  obtain ⟨epoch, mode, mult⟩ := same
  refine ⟨SideState.stage_le_iff.mpr (.inr ⟨epoch.symm, ?_, mult.le⟩), ?_⟩
  · rw [mode]
  · rw [none]
    exact epoch

theorem SideState.Forward.trans {u : SideState} {l' : List Event} (h : u.Forward d l v) (h' : v.Forward d l' w) :
    u.Forward d (l ++ l') w := by
  refine ⟨h.stage.trans h'.stage, ?_⟩
  unfold drains
  rw [List.countP_append, h'.epoch, h.epoch, Nat.add_assoc]
  rfl

/-! ### A step -/

theorem drains_drainEvents (sides : Side → SideState) (marks : Side → Bool) :
    drains d (drainEvents sides marks) = if (sides d).Drains (marks d) then 1 else 0 := by
  unfold drains drainEvents
  cases d <;> split_ifs <;> rfl

theorem SideState.reopened_forward (v : SideState) : v.Forward d [] v.reopened := by
  unfold reopened
  split_ifs with ready
  · refine ⟨SideState.stage_le_iff.mpr (.inr ⟨rfl, ?_, le_rfl⟩), rfl⟩
    rw [ready.1]
    exact Nat.zero_le _
  · exact .still rfl rfl

theorem SideState.drained_forward (v : SideState) : v.stage ≤ v.drained.stage := SideState.stage_le_iff.mpr (.inl (Nat.lt_succ_self _))

/-- A side at the end of an instruction has gone forward. -/
theorem SideState.finalized_forward {mark : Bool} (same : (w.adlEpoch, w.sideMode, w.adlMult) = (v.adlEpoch, v.sideMode, v.adlMult))
    (logged : drains d l = if v.Drains mark then 1 else 0) : v.Forward d l (w.finalized mark) := by
  have first : v.Forward d [] w := .still same rfl
  have drains_iff : w.Drains mark ↔ v.Drains mark := by
    simp only [Prod.mk.injEq] at same
    unfold Drains
    rw [same.2.1]
  unfold finalized
  by_cases h : v.Drains mark
  · rw [if_pos (drains_iff.mpr h)]
    rw [if_pos h] at logged
    have reopened := (w.drained).reopened_forward (d := d)
    refine ⟨(first.stage.trans w.drained_forward).trans reopened.stage, ?_⟩
    rw [reopened.epoch, logged]
    show w.adlEpoch + 1 + 0 = _
    rw [first.epoch]
    rfl
  · rw [if_neg (drains_iff.not.mpr h)]
    rw [if_neg h] at logged
    have reopened := first.trans (w.reopened_forward (d := d))
    refine ⟨reopened.stage, ?_⟩
    rw [reopened.epoch, logged]
    rfl

theorem Absorbed.forward {e : Side} (h : Absorbed e v q w l) : v.Forward d l w := by
  cases h with
  | vacant => exact .still rfl rfl
  | drained => exact .still rfl rfl
  | shrunk k aNew bound mode range lt scaled pos dust mode_eq =>
      refine ⟨SideState.stage_le_iff.mpr (.inr ⟨rfl, ?_, ?_⟩), rfl⟩
      · show v.sideMode.rank ≤ mode.rank
        rw [mode_eq]
        split_ifs
        · cases v.sideMode <;> decide
        · exact le_rfl
      · show aNew ≤ v.adlMult
        rw [scaled]
        exact Nat.div_le_of_le_mul (by rw [Nat.mul_comm]; exact Nat.mul_le_mul_right _ (Nat.sub_le _ _))

theorem Absorbed.forward_log {e : Side} (h : Absorbed e v q w l) : drains d l = 0 := by
  cases h <;> rfl

/-- What one step of an instruction does to a side. -/
theorem Step.forward (step : Step sc c l c') (d : Side) : (c.engine.sides d).Forward d l (c'.engine.sides d) := by
  cases step with
  | noted | funded | clocked | checked | relabeled | charged | slipped | wiped | captured => exact .still rfl rfl
  | booked used reach entry =>
      refine .still rfl ?_
      cases entry with
      | deposited | debtPaid | lossPaid | feeSwept | converted | accelerated => rfl
      | warmed r a' l live events warm =>
          rcases events with ⟨rfl, -⟩ | rfl
          · rfl
          · rfl
  | forgave used reach calm forgiven =>
      cases forgiven
      exact .still rfl rfl
  | accrued rest fresh live fits accrued =>
      refine .still ?_ rfl
      rw [accrued.side]
  | settled used reach touched live closing calm scope settled =>
      refine .still ?_ rfl
      rw [settled.eq]
      rfl
  | traded usedA usedB reachA reachB allowedA allowedB touchedA touchedB live pending closing trading
      syncedA syncedB traded =>
      obtain ⟨s₁, s₂, f, g, hA, hB, rfl⟩ := traded.legs
      refine .still ?_ rfl
      rw [hB.eq, hA.eq]
      rfl
  | closed allowed used reach touched live pending closing calm closed =>
      obtain ⟨f, hf⟩ := closed.attached
      refine .still ?_ rfl
      rw [hf.eq]
      rfl
  | @deleveraged s ph j e q v l f marks used live pending closing pos fund absorbed marked =>
      by_cases he : d = e.opposite
      · have after : ((s.withInsuranceFund f).absorb e v).sides d = v := if_pos he
        dsimp only
        rw [after, he]
        exact absorbed.forward
      · have after : ((s.withInsuranceFund f).absorb e v).sides d = (s.sides d).withOi v.oiEffQ := if_neg he
        dsimp only
        rw [after]
        exact .still rfl absorbed.forward_log
  | reset live closing scheduled drained => exact SideState.finalized_forward rfl (drains_drainEvents _ _)
  | reopened => exact SideState.reopened_forward _
  | materialized allowed reach live le materialized =>
      refine .still ?_ rfl
      rw [materialized.eq]
  | freed allowed reach charges clean freed =>
      refine .still ?_ rfl
      rw [RiskEngine.swept_eq, freed.eq]
      rfl
  | resolved price live now kDelta allowed rest mode => exact SideState.finalized_forward rfl (drains_drainEvents _ _)
  | reconciled used reach mode reconciled =>
      refine .still ?_ rfl
      rw [reconciled.eq]
      rfl
  | paid used reach allowed mode paid =>
      refine .still ?_ rfl
      rw [paid.eq]
      rfl

/-! ### Histories -/

theorem Run.forward (run : Run (Step sc) c l c') (d : Side) : (c.engine.sides d).Forward d l (c'.engine.sides d) := by
  induction run with
  | refl => exact .still rfl rfl
  | tail _ last ih => exact ih.trans (last.forward d)

theorem Good.history_forward {ls : List (Instruction × List Event)} (h : Good ⟨s, .idle⟩) (hist : History s ls s')
    (d : Side) : (s.sides d).Forward d (ls.flatMap Prod.snd) (s'.sides d) := by
  induction hist with
  | refl => exact .still rfl rfl
  | tail past last ih =>
      rw [List.flatMap_append]
      refine ih.trans ?_
      cases last with
      | rolledBack fault => exact .still rfl rfl
      | committed ok =>
          obtain ⟨ph, course, -⟩ := (h.history past).committed ok
          have moved := Run.forward course.run d
          simpa using moved

/-- A position reads as less on a side that has gone forward. -/
theorem Account.floorShare_forward {a : Account} (stage : v.stage ≤ w.stage) (snap : a.adlEpochSnap ≤ v.adlEpoch) :
    a.floorShare d w ≤ a.floorShare d v := by
  unfold floorShare
  rcases SideState.stage_le_iff.mp stage with later | ⟨epoch, -, mult⟩
  · rw [if_neg fun now => absurd (snap.trans_lt later) (not_lt.mpr now.2.ge)]
    exact Nat.zero_le _
  · rw [epoch]
    split_ifs
    · exact Nat.div_le_div_right (Nat.mul_le_mul_left _ mult)
    · exact le_rfl

/-- An account that no operation of a history names is as it was. -/
theorem Good.history_frame {ls : List (Instruction × List Event)} {i : Nat} (h : Good ⟨s, .idle⟩) (hist : History s ls s')
    (unnamed : ∀ p ∈ ls, ¬ p.1.scope.reach i) : s'.accounts i = s.accounts i ∧ s'.isUsed i = s.isUsed i := by
  induction hist with
  | refl => exact ⟨rfl, rfl⟩
  | tail past last ih =>
      rw [List.forall_mem_append] at unnamed
      obtain ⟨account, used⟩ := ih unnamed.1
      cases last with
      | rolledBack fault => exact ⟨account, used⟩
      | committed ok =>
          obtain ⟨ph, course, -⟩ := (h.history past).committed ok
          obtain ⟨account', used'⟩ := course.run.frame (unnamed.2 _ List.mem_cons_self)
          exact ⟨account'.trans account, used'.trans used⟩

/-- Over every history of a reachable market each side goes forward: its epoch counts its full drains, and while
one lasts, it goes from waiting to open to draining and its multiplier falls. So the position of an account that no
operation names stays on its side and only gets smaller. -/
theorem Reachable.sides_go_forward {ls : List (Instruction × List Event)} (h : Reachable s) (hist : History s ls s') :
    (∀ d, (s.sides d).Forward d (ls.flatMap Prod.snd) (s'.sides d)) ∧
      ∀ i, (∀ p ∈ ls, ¬ p.1.scope.reach i) → s.isUsed i = true → s.marketMode = .live → s'.marketMode = .live →
        ∀ d e, sideOfI128 (s.accounts i).positionBasisQ = some d → effectivePosQ s i = some e →
          ∃ n ≤ e.natAbs, effectivePosQ s' i = some (d.sign * n) := by
  have forward := h.good.history_forward hist
  refine ⟨forward, ?_⟩
  intro i unnamed used live live' d e side eff
  obtain ⟨account, used'⟩ := h.good.history_frame hist unnamed
  have seated := (h.good.positions live).seated
  have seated' := ((h.good.history hist).positions live').seated
  obtain ⟨e', eff'⟩ := seated'.effective_isSome (used'.trans used)
  have value := seated.effective used eff
  have value' := seated'.effective (used'.trans used) eff'
  rw [account] at value'
  simp only [side] at value value'
  have snap : (s.accounts i).adlEpochSnap ≤ (s.sides d).adlEpoch := by
    have position : PositionOk (s.sides d) (s.accounts i) := seated.position i d used side
    rcases position.epoch with ⟨-, current⟩ | ⟨-, before⟩
    · exact current.le
    · omega
  have less : (s.accounts i).floorShare d (s'.sides d) ≤ (s.accounts i).floorShare d (s.sides d) :=
    Account.floorShare_forward (forward d).stage snap
  refine ⟨_, ?_, value' ▸ eff'⟩
  rw [value]
  cases d <;> simpa [Side.sign] using less

/-- The long, whom no one names, is drained. -/
theorem upsetMarket_sides_go_forward :
    (∀ d, (tradedMarket.sides d).Forward d ((logAll tradedMarket upset).flatMap Prod.snd) (upsetMarket.sides d)) ∧
      ∃ n ≤ 50000000, effectivePosQ upsetMarket 1 = some (Side.long.sign * n) := by
  have hist : History tradedMarket (logAll tradedMarket upset) upsetMarket := performAll_history tradedMarket upset
  obtain ⟨forward, smaller⟩ := tradedMarket_reachable.sides_go_forward hist
  have eff : effectivePosQ tradedMarket 1 = some 50000000 := by decide +kernel
  obtain ⟨n, le, eff'⟩ := smaller 1 upset_unnamed (by decide +kernel) (by decide +kernel) (by decide +kernel) .long 50000000
    (by decide +kernel) eff
  exact ⟨forward, n, by simpa using le, eff'⟩

end Percolator
