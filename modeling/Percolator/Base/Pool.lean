import Mathlib.Tactic.Ring

/-!
Pools: shared indices that stand for many positions at once.

A pool keeps one multiplier and one index for all positions of an epoch. A position is a stake in
the pool: what it held at the multiplier, and the index it began at. Marking the pool, shrinking it
and ending its epoch move the pool alone; reading a stake off the pool gives the exact position that
would have been moved by itself.
-/

namespace Percolator

variable {𝕜 ω : Type} [CommRing 𝕜]

/-- An exact position: its size, and the profit it has made. -/
structure Exposure (𝕜 : Type) where
  size : 𝕜
  profit : 𝕜

/-- What happens to all positions of a pool. -/
inductive Pool.Move (𝕜 : Type) where
  /-- Every unit gains `x`. -/
  | mark (x : 𝕜)
  /-- Every unit loses `x`, and is then scaled by `r`. -/
  | shrink (r x : 𝕜)
  /-- The epoch ends, and the next one begins at multiplier `mult`. -/
  | reset (mult : 𝕜)

/-- A position moved by itself. -/
def Exposure.after (e : Exposure 𝕜) : Pool.Move 𝕜 → Exposure 𝕜
  | .mark x => ⟨e.size, e.profit + e.size * x⟩
  | .shrink r x => ⟨e.size * r, e.profit - e.size * x⟩
  | .reset _ => ⟨0, e.profit⟩

/-- A pool: the multiplier and the index of its epoch, and the index at which the last one ended. -/
structure Pool (𝕜 : Type) where
  mult : 𝕜
  index : 𝕜
  closing : 𝕜
  epoch : Nat

def Pool.after (p : Pool 𝕜) : Pool.Move 𝕜 → Pool 𝕜
  | .mark x => { p with index := p.index + p.mult * x }
  | .shrink r x => { p with mult := p.mult * r, index := p.index - p.mult * x }
  | .reset mult => ⟨mult, 0, p.index, p.epoch + 1⟩

/-- A position as a stake in a pool. -/
structure Pool.Stake (𝕜 : Type) where
  base : 𝕜
  since : 𝕜
  epoch : Nat

/-- The exact position that a stake stands for: a position of an epoch that ended is closed. -/
def Pool.read (p : Pool 𝕜) (st : Pool.Stake 𝕜) : Exposure 𝕜 :=
  if st.epoch = p.epoch then ⟨st.base * p.mult, st.base * (p.index - st.since)⟩
  else ⟨0, st.base * (p.closing - st.since)⟩

theorem Pool.read_current {p : Pool 𝕜} {st : Pool.Stake 𝕜} (h : st.epoch = p.epoch) :
    p.read st = ⟨st.base * p.mult, st.base * (p.index - st.since)⟩ := if_pos h

theorem Pool.read_closed {p : Pool 𝕜} {st : Pool.Stake 𝕜} (h : st.epoch ≠ p.epoch) :
    p.read st = ⟨0, st.base * (p.closing - st.since)⟩ := if_neg h

/-- Reading a stake of the running epoch commutes with every move of its pool. -/
theorem Pool.read_after {p : Pool 𝕜} {st : Pool.Stake 𝕜} (h : st.epoch = p.epoch) (m : Pool.Move 𝕜) :
    (p.after m).read st = (p.read st).after m := by
  rw [read_current h]
  cases m with
  | mark x =>
      rw [read_current (p := p.after (.mark x)) h]
      simp only [Pool.after, Exposure.after, Exposure.mk.injEq, true_and]
      ring
  | shrink r x =>
      rw [read_current (p := p.after (.shrink r x)) h]
      simp only [Pool.after, Exposure.after, Exposure.mk.injEq]
      constructor <;> ring
  | reset mult =>
      have ended : st.epoch ≠ (p.after (.reset mult)).epoch := by
        simp only [Pool.after]
        omega
      rw [read_closed ended]
      rfl

/-- A closed position stays as it is. -/
theorem Exposure.after_closed {e : Exposure 𝕜} (h : e.size = 0) (m : Pool.Move 𝕜) : e.after m = e := by
  obtain ⟨size, profit⟩ := e
  obtain rfl : size = 0 := h
  cases m <;> simp [Exposure.after]

/-- The exact position after a list of events, those of which move it. -/
def Exposure.follow (move : ω → Option (Pool.Move 𝕜)) (e : Exposure 𝕜) (l : List ω) : Exposure 𝕜 :=
  (l.filterMap move).foldl Exposure.after e

theorem Exposure.follow_append {move : ω → Option (Pool.Move 𝕜)} {e : Exposure 𝕜} {l l' : List ω} :
    e.follow move (l ++ l') = (e.follow move l).follow move l' := by
  simp only [Exposure.follow, List.filterMap_append, List.foldl_append]

theorem Exposure.follow_closed {move : ω → Option (Pool.Move 𝕜)} {e : Exposure 𝕜} (h : e.size = 0) (l : List ω) :
    e.follow move l = e := by
  unfold Exposure.follow
  induction l.filterMap move with
  | nil => rfl
  | cons m rest ih => rw [List.foldl_cons, e.after_closed h, ih]

end Percolator
