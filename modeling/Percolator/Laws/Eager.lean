import Mathlib.Data.Rat.Floor
import Percolator.Base.Pool
import Percolator.Laws.Settling
import Percolator.Laws.Sides
import Percolator.Machine.Frame

/-!
The lazy A/K/F accounting refines an eager one.

The engine moves the indices of a side and leaves the positions on it alone. An eager engine would
move every position at every accrual, deleveraging and reset. An account that nobody touches keeps,
in the pool of its side, exactly the position that the eager engine would have given it.
-/

namespace Percolator

variable {s s' : RiskEngine} {sc : Scope} {c c' : Conf} {l : List Event} {i : Nat} {d : Side}

/-! ### The sides as pools -/

/-- The two indices of a side as one, per unit of position. -/
def joined (k f : Int) : ℚ := ((k * FUNDING_DEN + f : Int) : ℚ) / (POS_SCALE * FUNDING_DEN : Nat)

def SideState.pool (v : SideState) : Pool ℚ where
  mult := v.adlMult
  index := joined v.adlCoeff v.fNum
  closing := joined v.adlEpochStartK v.fEpochStartNum
  epoch := v.adlEpoch

/-- The position of an account as a stake in the pool of its side. -/
def Account.stake (a : Account) : Pool.Stake ℚ where
  base := a.positionBasisQ.natAbs / a.adlABasis
  since := joined a.adlKSnap a.fSnap
  epoch := a.adlEpochSnap

/-- The exact position of `a` on a side in state `v`. -/
def Account.exposure (a : Account) (v : SideState) : Exposure ℚ := v.pool.read a.stake

/-- What an event does to the positions on side `d`. -/
def Event.move (d : Side) : Event → Option (Pool.Move ℚ)
  | .accrued deltaP fundPx rate dt =>
      some (.mark (d.sign * (deltaP - fundPx * rate * dt / FUNDING_DEN) / POS_SCALE))
  | .deleveraged e deltaKAbs aOld aNew =>
      if e = d then some (.shrink (aNew / aOld) (deltaKAbs / (aOld * POS_SCALE))) else none
  | .drained e => if e = d then some (.reset ADL_ONE) else none
  | .touched _ | .released _ _ | .accelerated _ _ => none

/-- The eager engine: every event moves the position at once. -/
def eagerly (d : Side) (e : Exposure ℚ) (l : List Event) : Exposure ℚ := e.follow (Event.move d) l

/-! ### What a step does to a pool -/

/-- What a step can do to the pool of side `d`. -/
inductive PoolMove (c : Conf) (l : List Event) (c' : Conf) (d : Side) : Prop
  | kept (same : (c'.engine.sides d).pool = (c.engine.sides d).pool) (none : l.filterMap (Event.move d) = [])
  | accrued {now price : Nat} {rate : Int} (rest : c.phase.AtRest) (live : c.engine.marketMode = .live)
      (accrued : Accrued c.engine c'.engine now price rate)
      (event : l = [.accrued (price - c.engine.lastOraclePrice) c.engine.fundPxLast rate
        (now - c.engine.lastMarketSlot)])
  | absorbed {q : Nat} (absorbed : Absorbed d (c.engine.sides d) q (c'.engine.sides d) l)
  | finalized {oi : Nat} {mark : Bool} (eq : c'.engine.sides d = ((c.engine.sides d).withOi oi).finalized mark)
      (event : l.filterMap (Event.move d) = if (c.engine.sides d).Drains mark then [.reset ADL_ONE] else [])

theorem Entry.immobile {a' : Account} {t' : Totals} (h : Entry s i a' t' l) : l.filterMap (Event.move d) = [] := by
  cases h with
  | deposited | debtPaid | lossPaid | feeSwept | converted | accelerated => rfl
  | warmed r a' l live events warm =>
      rcases events with ⟨rfl, -⟩ | rfl
      · rfl
      · rfl

theorem Absorbed.immobile {v w : SideState} {q : Nat} {e : Side} (h : Absorbed e v q w l) (hne : e ≠ d) :
    l.filterMap (Event.move d) = [] := by
  cases h with
  | vacant => rfl
  | drained | shrunk => simp [Event.move, hne]

theorem drainEvents_moves (sides : Side → SideState) (marks : Side → Bool) :
    (drainEvents sides marks).filterMap (Event.move d) =
      if (sides d).Drains (marks d) then [.reset ADL_ONE] else [] := by
  unfold drainEvents
  cases d <;> split_ifs <;> simp [Event.move]

theorem Step.poolMove (step : Step sc c l c') (live : c'.engine.marketMode = .live) (d : Side) :
    PoolMove c l c' d := by
  cases step with
  | noted | funded | clocked | checked | relabeled | charged | slipped => exact .kept rfl rfl
  | booked used reach entry => exact .kept rfl entry.immobile
  | forgave used reach calm forgiven =>
      cases forgiven
      exact .kept rfl rfl
  | accrued rest fresh live' fits accrued => exact .accrued rest live' accrued rfl
  | settled used reach touched live' closing calm scope settled => exact .kept (by rw [settled.eq]; rfl) rfl
  | traded usedA usedB reachA reachB allowedA allowedB touchedA touchedB live' pending closing trading
      syncedA syncedB traded =>
      obtain ⟨s₁, s₂, f, g, hA, hB, rfl⟩ := traded.legs
      exact .kept (by show (s₂.sides d).pool = _; rw [hB.eq, hA.eq]; rfl) rfl
  | closed allowed used reach touched live' pending closing calm closed =>
      obtain ⟨f, hf⟩ := closed.attached
      exact .kept (by rw [hf.eq]; rfl) rfl
  | @deleveraged s ph j e q v l f marks used live' pending closing pos fund absorbed marked =>
      by_cases he : e.opposite = d
      · subst he
        have after : ((s.withInsuranceFund f).absorb e v).sides e.opposite = v := if_pos rfl
        exact .absorbed (by dsimp only; rw [after]; exact absorbed)
      · refine .kept ?_ (absorbed.immobile he)
        show (if d = e.opposite then v else (s.sides d).withOi v.oiEffQ).pool = _
        rw [if_neg (Ne.symm he)]
        rfl
  | reset live' closing scheduled drained => exact .finalized rfl (drainEvents_moves _ _)
  | reopened =>
      refine .kept ?_ rfl
      show (SideState.reopened _).pool = _
      unfold SideState.reopened
      split_ifs <;> rfl
  | materialized allowed reach live' le materialized => exact .kept (by rw [materialized.eq]) rfl
  | freed allowed reach charges clean freed =>
      refine .kept ?_ rfl
      rw [RiskEngine.swept_eq, freed.eq]
      rfl
  | resolved price live' now kDelta allowed rest mode => cases live
  | wiped used reach mode => exact absurd (live.symm.trans mode) (by rintro ⟨⟩)
  | reconciled used reach mode reconciled =>
      rw [reconciled.eq] at live
      exact absurd (live.symm.trans mode) (by rintro ⟨⟩)
  | captured mode => exact absurd (live.symm.trans mode) (by rintro ⟨⟩)
  | paid used reach allowed mode paid =>
      rw [paid.eq] at live
      exact absurd (live.symm.trans mode) (by rintro ⟨⟩)

/-! ### A position that is not touched -/

theorem joined_sub (k f k₀ f₀ : Int) : joined k f - joined k₀ f₀ = joined (k - k₀) (f - f₀) := by
  unfold joined
  push_cast
  ring

theorem Account.exposure_current {a : Account} {v : SideState} (h : a.adlEpochSnap = v.adlEpoch) :
    a.exposure v = ⟨a.positionBasisQ.natAbs / a.adlABasis * v.adlMult,
      a.positionBasisQ.natAbs / a.adlABasis * joined (v.adlCoeff - a.adlKSnap) (v.fNum - a.fSnap)⟩ := by
  unfold exposure
  rw [Pool.read_current (p := v.pool) h, ← joined_sub]
  rfl

theorem Account.exposure_closed {a : Account} {v : SideState} (h : a.adlEpochSnap ≠ v.adlEpoch) :
    (a.exposure v).size = 0 := by
  unfold exposure
  rw [Pool.read_closed (p := v.pool) h]

/-- Reading depends on the pool and the stake alone. -/
theorem Account.exposure_congr {a : Account} {v w : SideState} (h : w.pool = v.pool) : a.exposure w = a.exposure v := by
  unfold exposure
  rw [h]

theorem pos_scale_ne : (POS_SCALE : ℚ) ≠ 0 := by norm_num [POS_SCALE]

theorem funding_den_ne : (FUNDING_DEN : ℚ) ≠ 0 := by norm_num [FUNDING_DEN]

/-- An accrual of an open market marks the pool of each side. -/
theorem Accrued.pool {now price : Nat} {rate : Int} (h : Accrued s s' now price rate)
    (both : (s.sides .long).oiEffQ ≠ 0 ∧ (s.sides .short).oiEffQ ≠ 0) :
    (s'.sides d).pool = (s.sides d).pool.after (.mark (d.sign * (((price - s.lastOraclePrice : Int) : ℚ) -
      s.fundPxLast * rate * (now - s.lastMarketSlot : Nat) / FUNDING_DEN) / POS_SCALE)) := by
  have own : (s.sides d).oiEffQ ≠ 0 := by
    cases d
    · exact both.1
    · exact both.2
  have side := h.side d
  rw [SideState.marked, if_pos own, RiskEngine.funded, if_pos both] at side
  rw [side]
  have pos := pos_scale_ne
  have den := funding_den_ne
  simp only [SideState.pool, Pool.after, Pool.mk.injEq, true_and, and_true]
  unfold joined
  push_cast
  field_simp
  ring

theorem Absorbed.pool {v w : SideState} {q : Nat} (h : Absorbed d v q w l) (pos : 0 < v.adlMult)
    (stored : v.storedPosCount ≠ 0) :
    ∃ m, l.filterMap (Event.move d) = [m] ∧ w.pool = v.pool.after m := by
  have unit := pos_scale_ne
  have den := funding_den_ne
  have mult : (v.adlMult : ℚ) ≠ 0 := by exact_mod_cast pos.ne'
  cases h with
  | vacant none => exact absurd none stored
  | drained k range =>
      refine ⟨.shrink (v.adlMult / v.adlMult) (k / (v.adlMult * POS_SCALE)), by simp [Event.move], ?_⟩
      simp only [SideState.pool, Pool.after, Pool.mk.injEq, and_true]
      unfold joined
      push_cast
      constructor
      · field_simp
      · field_simp
        ring
  | shrunk k aNew bound mode range lt scaled pos dust mode_eq =>
      refine ⟨.shrink (aNew / v.adlMult) (k / (v.adlMult * POS_SCALE)), by simp [Event.move], ?_⟩
      simp only [SideState.pool, Pool.after, Pool.mk.injEq, and_true]
      unfold joined
      push_cast
      constructor
      · field_simp
      · field_simp
        ring

/-- A full-drain reset ends the epoch of the pool. -/
theorem SideState.finalized_pool (v : SideState) (oi : Nat) (mark : Bool) :
    ((v.withOi oi).finalized mark).pool = if v.Drains mark then v.pool.after (.reset ADL_ONE) else v.pool := by
  unfold finalized
  rw [reopened_eq]
  by_cases drains : v.Drains mark
  · rw [if_pos (show (v.withOi oi).Drains mark from drains), if_pos drains]
    simp only [pool, drained, Pool.after, joined]
    simp
  · rw [if_neg (show ¬ (v.withOi oi).Drains mark from drains), if_neg drains]
    rfl

theorem eagerly_nil {e : Exposure ℚ} (none : l.filterMap (Event.move d) = []) : eagerly d e l = e := by
  unfold eagerly Exposure.follow
  rw [none]
  rfl

theorem eagerly_one {e : Exposure ℚ} {m : Pool.Move ℚ} (one : l.filterMap (Event.move d) = [m]) :
    eagerly d e l = e.after m := by
  unfold eagerly Exposure.follow
  rw [one]
  rfl

theorem Absorbed.closed {v w : SideState} {q : Nat} {a : Account} (h : Absorbed d v q w l)
    (ended : a.adlEpochSnap ≠ v.adlEpoch) : a.exposure w = a.exposure v := by
  unfold Account.exposure
  have ended' : a.adlEpochSnap ≠ w.adlEpoch := by rw [h.adlEpoch]; exact ended
  rw [Pool.read_closed (p := v.pool) ended, Pool.read_closed (p := w.pool) ended']
  cases h <;> rfl

/-- A running position keeps the market open. -/
theorem Good.open_of_position {ph : Phase} (h : Good ⟨s, ph⟩) (live : s.marketMode = .live) (rest : ph.AtRest)
    (used : s.isUsed i = true) (side : sideOfI128 (s.accounts i).positionBasisQ = some d)
    (epoch : (s.accounts i).adlEpochSnap = (s.sides d).adlEpoch) :
    (s.sides .long).oiEffQ ≠ 0 ∧ (s.sides .short).oiEffQ ≠ 0 := by
  have positions : Positions s .idle := (h.rest rest).positions live
  have running : (s.sides d).sideMode ≠ .resetPending := by
    rcases (positions.position i d used side).epoch with ⟨running, -⟩ | ⟨-, ended⟩
    · exact running
    · omega
  obtain ⟨-, one⟩ := positions.oi_pos used side running
  have balanced : (s.sides .long).oiEffQ = (s.sides .short).oiEffQ := h.balanced
  cases d
  · exact ⟨one, balanced ▸ one⟩
  · exact ⟨balanced.symm ▸ one, one⟩

/-- A step moves the position of an account that it leaves alone as the eager engine does. -/
theorem Good.eager_step (h : Good c) (step : Step sc c l c') (live : c'.engine.marketMode = .live)
    (used : c.engine.isUsed i = true) (side : sideOfI128 (c.engine.accounts i).positionBasisQ = some d) :
    (c.engine.accounts i).exposure (c'.engine.sides d) =
      eagerly d ((c.engine.accounts i).exposure (c.engine.sides d)) l := by
  set a := c.engine.accounts i with ha
  have position : PositionOk (c.engine.sides d) a := (h.positions (step.live_before live)).position i d used side
  cases step.poolMove live d with
  | kept same none => rw [Account.exposure_congr same, eagerly_nil none]
  | @accrued now price rate rest live accrued event =>
      by_cases epoch : a.adlEpochSnap = (c.engine.sides d).adlEpoch
      · have both := h.open_of_position live rest used side epoch
        have pool := accrued.pool (d := d) both
        rw [eagerly_one (m := _) (by rw [event]; rfl), Account.exposure, pool]
        exact Pool.read_after (p := (c.engine.sides d).pool) epoch _
      · have pool : (a.exposure (c'.engine.sides d)) = a.exposure (c.engine.sides d) := by
          unfold Account.exposure
          rw [Pool.read_closed (p := (c.engine.sides d).pool) epoch, Pool.read_closed (p := (c'.engine.sides d).pool)
            (by rw [SideState.pool, accrued.side d]; exact epoch), accrued.side d]
          rfl
        rw [pool, eagerly, Exposure.follow_closed (Account.exposure_closed epoch)]
  | absorbed absorbed =>
      by_cases epoch : a.adlEpochSnap = (c.engine.sides d).adlEpoch
      · have stored : (c.engine.sides d).storedPosCount ≠ 0 := by
          exact ((h.aligned (step.live_before live)).stored_pos used side).ne'
        have pos : 0 < (c.engine.sides d).adlMult := ((h.positions (step.live_before live)).side d).mult_pos
        obtain ⟨m, one, pool⟩ := absorbed.pool pos stored
        rw [eagerly_one one, Account.exposure, pool]
        exact Pool.read_after (p := (c.engine.sides d).pool) epoch m
      · rw [absorbed.closed epoch, eagerly, Exposure.follow_closed (Account.exposure_closed epoch)]
  | finalized eq event =>
      unfold Account.exposure
      rw [eq, SideState.finalized_pool]
      split_ifs at event ⊢ with drains
      · have epoch : a.adlEpochSnap = (c.engine.sides d).adlEpoch := by
          rcases position.epoch with ⟨-, epoch⟩ | ⟨waiting, -⟩
          · exact epoch
          · exact absurd waiting drains.2
        rw [eagerly_one event]
        exact Pool.read_after (p := (c.engine.sides d).pool) epoch _
      · exact (eagerly_nil event).symm

/-! ### Runs -/

/-- The exact position of account `i`, read off the side it is on. -/
def RiskEngine.exposure (s : RiskEngine) (i : Nat) : Exposure ℚ :=
  match sideOfI128 (s.accounts i).positionBasisQ with
  | none => ⟨0, 0⟩
  | some d => (s.accounts i).exposure (s.sides d)

theorem RiskEngine.exposure_some (side : sideOfI128 (s.accounts i).positionBasisQ = some d) :
    s.exposure i = (s.accounts i).exposure (s.sides d) := by
  unfold exposure
  rw [side]

/-- An account out of reach of a run is moved by it as the eager engine moves it. -/
theorem Good.eager_run (h : Good c) (run : Run (Step sc) c l c') (out : ¬ sc.reach i)
    (live : c'.engine.marketMode = .live) (used : c.engine.isUsed i = true) (side : sideOfI128 (c.engine.accounts i).positionBasisQ = some d) :
    c'.engine.exposure i = eagerly d (c.engine.exposure i) l := by
  refine run.simulates (f := fun c => c.engine.exposure i) (g := eagerly d)
    (I := fun c' => Good c' ∧ c'.engine.accounts i = c.engine.accounts i ∧ c'.engine.isUsed i = true)
    (P := fun c => c.engine.marketMode = .live) (fun _ => rfl) (fun _ _ _ => Exposure.follow_append) ?_
    (fun _ _ _ _ step live => step.live_before live) ?_ ⟨h, rfl, used⟩ live
  · rintro c₁ l c₂ ⟨good, account, used⟩ step
    obtain ⟨kept, slot⟩ := (Run.single step).frame out
    exact ⟨good.step step, kept.trans account, slot.trans used⟩
  · rintro c₁ l c₂ ⟨good, account, used⟩ live step
    obtain ⟨kept, -⟩ := (Run.single step).frame out
    have side₁ : sideOfI128 (c₁.engine.accounts i).positionBasisQ = some d := by rw [account]; exact side
    have side₂ : sideOfI128 (c₂.engine.accounts i).positionBasisQ = some d := by rw [kept]; exact side₁
    rw [RiskEngine.exposure_some side₁, RiskEngine.exposure_some side₂, kept]
    exact good.eager_step step live used side₁

theorem Good.live_before {ins : Instruction} (h : Good ⟨s, .idle⟩) (ok : ins.run s = .ok () s' l)
    (live : s'.marketMode = .live) : s.marketMode = .live := by
  obtain ⟨ph, course, -⟩ := h.committed ok
  exact course.run.before (P := fun c => c.engine.marketMode = .live) (fun _ _ _ step => step.live_before) live

/-- An account that no operation of a history names is moved as the eager engine moves it. -/
theorem Good.eager_history {ls : List (Instruction × List Event)} (h : Good ⟨s, .idle⟩) (hist : History s ls s')
    (unnamed : ∀ p ∈ ls, ¬ p.1.scope.reach i) (live : s'.marketMode = .live) (used : s.isUsed i = true)
    (side : sideOfI128 (s.accounts i).positionBasisQ = some d) :
    Good ⟨s', .idle⟩ ∧ s'.accounts i = s.accounts i ∧ s'.isUsed i = true ∧
      s'.exposure i = eagerly d (s.exposure i) (ls.flatMap Prod.snd) := by
  set I : RiskEngine → Prop := fun s' => Good ⟨s', .idle⟩ ∧ s'.accounts i = s.accounts i ∧ s'.isUsed i = true with hI
  have run := hist.restrict unnamed
  have keep : ∀ s₁ ls s₂, I s₁ → (Performed s₁ ls s₂ ∧ ∀ p ∈ ls, ¬ p.1.scope.reach i) → I s₂ := by
    rintro s₁ ls s₂ ⟨good, account, used⟩ ⟨performed, unnamed⟩
    refine ⟨good.performed performed, ?_⟩
    cases performed with
    | committed ok =>
        obtain ⟨ph, course, -⟩ := good.committed ok
        obtain ⟨kept, slot⟩ := course.run.frame (unnamed _ List.mem_cons_self)
        exact ⟨kept.trans account, slot.trans used⟩
    | rolledBack fault => exact ⟨account, used⟩
  obtain ⟨good, account, slot⟩ := run.invariant keep ⟨h, rfl, used⟩
  refine ⟨good, account, slot, ?_⟩
  refine run.simulates (f := fun s => s.exposure i) (g := fun e ls => eagerly d e (ls.flatMap Prod.snd))
    (P := fun s => s.marketMode = .live) (fun _ => rfl) ?_ keep ?_ ?_ ⟨h, rfl, used⟩ live
  · intro e ls ls'
    rw [List.flatMap_append]
    exact Exposure.follow_append
  · rintro s₁ ls s₂ ⟨good, -, -⟩ ⟨performed, -⟩ live
    cases performed with
    | committed ok => exact good.live_before ok live
    | rolledBack fault => exact live
  · rintro s₁ ls s₂ ⟨good, account, slot⟩ live ⟨performed, unnamed⟩
    cases performed with
    | committed ok =>
        obtain ⟨ph, course, -⟩ := good.committed ok
        have side₁ : sideOfI128 (s₁.accounts i).positionBasisQ = some d := by rw [account]; exact side
        have moved := good.eager_run course.run (unnamed _ List.mem_cons_self) live slot side₁
        simpa using moved
    | rolledBack fault => rfl

/-! ### What a position is worth -/

theorem Account.exposure_profit {a : Account} {v : SideState} : (a.exposure v).profit =
    ((a.positionBasisQ.natAbs * (((v.indices a.adlEpochSnap).1 - a.adlKSnap) * FUNDING_DEN +
      ((v.indices a.adlEpochSnap).2 - a.fSnap)) : Int) : ℚ) / (a.adlABasis * POS_SCALE * FUNDING_DEN : Nat) := by
  have value (k f : Int) : (a.positionBasisQ.natAbs / a.adlABasis * joined (k - a.adlKSnap) (f - a.fSnap) : ℚ) =
      ((a.positionBasisQ.natAbs * ((k - a.adlKSnap) * FUNDING_DEN + (f - a.fSnap)) : Int) : ℚ) /
        (a.adlABasis * POS_SCALE * FUNDING_DEN : Nat) := by
    unfold joined
    generalize a.positionBasisQ.natAbs = basis
    push_cast
    rw [div_mul_div_comm, mul_assoc]
  unfold SideState.indices
  by_cases h : a.adlEpochSnap = v.adlEpoch
  · rw [exposure_current h, if_pos h]
    exact value _ _
  · unfold exposure
    rw [Pool.read_closed (p := v.pool) h, if_neg h]
    simp only [stake, SideState.pool]
    rw [joined_sub]
    exact value _ _

/-- What settling realizes is the floor of the exact profit. -/
theorem Account.exposure_profit_floor {a : Account} {v : SideState} : ⌊(a.exposure v).profit⌋ = a.due v := by
  rw [exposure_profit, Rat.floor_intCast_div_natCast]
  rfl

/-- The effective size is the floor of the exact one. -/
theorem Account.exposure_size_floor {a : Account} {v : SideState} (side : sideOfI128 a.positionBasisQ = some d) :
    ⌊(a.exposure v).size⌋ = a.floorShare d v := by
  unfold floorShare
  by_cases h : a.adlEpochSnap = v.adlEpoch
  · rw [exposure_current h, if_pos ⟨side, h⟩]
    simp only
    rw [div_mul_eq_mul_div]
    exact_mod_cast Rat.floor_natCast_div_natCast (a.positionBasisQ.natAbs * v.adlMult) a.adlABasis
  · rw [exposure_closed h, if_neg fun both => h both.2]
    simp

/-! ### The refinement -/

/-- The position of account `i` is settled up to now. -/
structure RiskEngine.Fresh (s : RiskEngine) (i : Nat) (d : Side) : Prop where
  used : s.isUsed i = true
  side : sideOfI128 (s.accounts i).positionBasisQ = some d
  epoch : (s.accounts i).adlEpochSnap = (s.sides d).adlEpoch
  k : (s.accounts i).adlKSnap = (s.sides d).adlCoeff
  f : (s.accounts i).fSnap = (s.sides d).fNum

/-- The exact position that a fresh one begins as. -/
def RiskEngine.opening (s : RiskEngine) (i : Nat) (d : Side) : Exposure ℚ :=
  ⟨(s.accounts i).positionBasisQ.natAbs / (s.accounts i).adlABasis * (s.sides d).adlMult, 0⟩

theorem RiskEngine.Fresh.exposure (h : s.Fresh i d) : s.exposure i = s.opening i d := by
  rw [RiskEngine.exposure_some h.side, Account.exposure_current h.epoch, h.k, h.f, sub_self, sub_self]
  simp [opening, joined]

/-- The lazy engine refines the eager one. From a fresh position on, whatever operations that do not
name the account come after it, its effective position is the floor of the exact one, and touching
it realizes the floor of the exact profit. -/
theorem Reachable.lazy_refines_eager {ls : List (Instruction × List Event)} (h : Reachable s) (fresh : s.Fresh i d)
    (hist : History s ls s') (unnamed : ∀ p ∈ ls, ¬ p.1.scope.reach i) (live : s'.marketMode = .live) :
    effectivePosQ s' i = some (d.sign * ⌊(eagerly d (s.opening i d) (ls.flatMap Prod.snd)).size⌋) ∧
      ∀ ctx ctx' t l, AdmissionPair s'.params ctx.admitHMinShared ctx.admitHMaxShared →
        settleSideEffectsLive i ctx s' = .ok ctx' t l →
          (t.accounts i).pnl = (s'.accounts i).pnl + ⌊(eagerly d (s.opening i d) (ls.flatMap Prod.snd)).profit⌋ := by
  obtain ⟨good, account, used, moved⟩ := h.good.eager_history hist unnamed live fresh.used fresh.side
  have side : sideOfI128 (s'.accounts i).positionBasisQ = some d := by rw [account]; exact fresh.side
  rw [fresh.exposure, RiskEngine.exposure_some side] at moved
  rw [← moved]
  refine ⟨?_, fun ctx ctx' t l pair ok => ?_⟩
  · obtain ⟨e, eff⟩ := (good.positions live).seated.effective_isSome used
    have value := (good.positions live).seated.effective used eff
    rw [side] at value
    rw [eff, value, Account.exposure_size_floor side]
  · have settled := (good.aligned live).settled used pair ok
    have due := settled.realized
    rw [RiskEngine.due_some side, ← Account.exposure_profit_floor] at due
    omega

/-- The price more than triples and the short is liquidated with a deficit, which drains the long. -/
def upset : List Instruction := [.accrueMarketTo 150 3100 0, .liquidateAtOracle 2 150 3100 .fullClose 0 10 100]

def upsetMarket : RiskEngine := performAll tradedMarket upset

theorem upset_unnamed : ∀ p ∈ logAll tradedMarket upset, ¬ p.1.scope.reach 1 := by
  intro p hp
  rcases List.mem_cons.mp hp with rfl | hp
  · exact id
  · rcases List.mem_cons.mp hp with rfl | hp
    · intro named
      have same : (1 : Nat) = 2 := named
      cases same
    · cases hp

theorem upsetMarket_lazy_refines_eager : effectivePosQ upsetMarket 1 = some 0 ∧
    ((settleSideEffectsLive 1 (.newWithAdmission 10 100) upsetMarket).final.accounts 1).pnl = 100050 := by
  have fresh : tradedMarket.Fresh 1 .long := by
    constructor <;> decide +kernel
  obtain ⟨eff, realizes⟩ := tradedMarket_reachable.lazy_refines_eager fresh (performAll_history tradedMarket upset)
    upset_unnamed (by decide +kernel)
  have size : (eagerly .long (tradedMarket.opening 1 .long) ((logAll tradedMarket upset).flatMap Prod.snd)).size = 0 := by
    decide +kernel
  have profit : (eagerly .long (tradedMarket.opening 1 .long) ((logAll tradedMarket upset).flatMap Prod.snd)).profit =
      (100050 : Int) := by
    decide +kernel
  obtain ⟨ctx', l, ok⟩ := Outcome.eq_ok
    (o := settleSideEffectsLive 1 (.newWithAdmission 10 100) upsetMarket) (by decide +kernel)
  refine ⟨?_, ?_⟩
  · rw [size] at eff
    exact eff.trans (by decide +kernel)
  · have pnl := realizes _ _ _ _ (by decide +kernel) ok
    rw [profit, Int.floor_intCast] at pnl
    exact pnl.trans (by decide +kernel)

end Percolator
