import Percolator.Laws.Warmup

/-!
The schedule of a bucket: what its touches release together depends on the slot of the last
one alone, and a pending bucket starts its own schedule when the scheduled one is emptied.
-/

namespace Percolator

open Effect

variable {s s' s₁ : RiskEngine} {p p' : RiskParams} {a b o : Account} {l : List Event}
  {i now r x anchor start horizon : Nat}

/-! ### One touch -/

/-- The scheduled bucket of `anchor` runs from `start` over `horizon`, and has released `r`. -/
structure Account.Line (anchor start horizon r : Nat) (a : Account) : Prop where
  present : a.schedPresent = true
  anchor_eq : a.schedAnchorQ = anchor
  start_eq : a.schedStartSlot = start
  horizon_eq : a.schedHorizon = horizon
  released : a.schedReleaseQ = r
  remaining : a.schedRemainingQ + r = anchor

/-- The pending bucket is the same. -/
structure Account.SamePending (a b : Account) : Prop where
  present : b.pendingPresent = a.pendingPresent
  remaining : b.pendingRemainingQ = a.pendingRemainingQ
  horizon : b.pendingHorizon = a.pendingHorizon

theorem Account.SamePending.refl (a : Account) : a.SamePending a := ⟨rfl, rfl, rfl⟩

theorem Account.SamePending.trans (h : o.SamePending a) (h' : a.SamePending b) : o.SamePending b :=
  ⟨h'.present.trans h.present, h'.remaining.trans h.remaining, h'.horizon.trans h.horizon⟩

theorem Account.afterRelease_kept {total : Nat} (held : a.schedRemainingQ - x ≠ 0) :
    a.afterRelease now x total = ((a.withSchedRemainingQ (a.schedRemainingQ - x)).withReservedPnl
      (a.reservedPnl - x)).withSchedReleaseQ total :=
  if_neg held

theorem Account.afterRelease_promoted {total : Nat} (emptied : a.schedRemainingQ - x = 0)
    (waits : a.pendingPresent = true) : a.afterRelease now x total =
      (a.withReservedPnl (a.reservedPnl - x)).promotePending now :=
  (if_pos emptied).trans (if_pos waits)

theorem Account.afterRelease_cleared {total : Nat} (emptied : a.schedRemainingQ - x = 0)
    (free : a.pendingPresent = false) : a.afterRelease now x total =
      (a.withReservedPnl (a.reservedPnl - x)).clearSched :=
  (if_pos emptied).trans (if_neg (ne_true_of_eq_false free))

/-- A touch of a scheduled bucket follows its line. -/
theorem Account.Line.warm (line : a.Line anchor start horizon r) (warm : Warm p now a x b) :
    ∃ total, total = vestedUnits anchor (now - start) horizon ∧ r + x = total ∧ start ≤ now ∧
      b = a.afterRelease now x total := by
  cases warm with
  | idle buckets none =>
      have empty := (buckets.empty none).1
      exact absurd (empty.symm.trans line.present) (by decide)
  | @line c eq buckets present started total x vested ahead released =>
      have still : c = a := by rw [eq, Account.promoted, if_neg (by simp [line.present])]
      subst still
      rw [line.anchor_eq, line.start_eq, line.horizon_eq] at vested
      have le : total ≤ anchor := by rw [vested]; exact vestedUnits_le
      have remaining := line.remaining
      rw [line.released] at ahead released
      exact ⟨total, vested, by omega, line.start_eq ▸ started, rfl⟩

/-- Before its time is over the bucket stays, and keeps its line. -/
theorem Account.Line.stays (line : a.Line anchor start horizon r) (pos : 0 < anchor)
    (early : now - start < horizon) (warm : Warm p now a x b) :
    r + x = vestedUnits anchor (now - start) horizon ∧
      b.Line anchor start horizon (vestedUnits anchor (now - start) horizon) ∧ a.SamePending b := by
  obtain ⟨total, vested, sum, -, rfl⟩ := line.warm warm
  have less : total ≠ anchor := by
    intro all
    have full := (vestedUnits_eq_iff pos).mp (vested.symm.trans all)
    omega
  have le : total ≤ anchor := by rw [vested]; exact vestedUnits_le
  have remaining := line.remaining
  have held : a.schedRemainingQ - x ≠ 0 := by omega
  rw [Account.afterRelease_kept held, ← vested]
  refine ⟨sum, ⟨line.present, line.anchor_eq, line.start_eq, line.horizon_eq, rfl, ?_⟩, rfl, rfl, rfl⟩
  show a.schedRemainingQ - x + total = anchor
  omega

/-- When its time is over the rest comes out, and the pending bucket starts its own line in that slot. -/
theorem Account.Line.ends (line : a.Line anchor start horizon r) (late : horizon ≤ now - start)
    (warm : Warm p now a x b) : r + x = anchor ∧ b.pendingPresent = false ∧
      (a.pendingPresent = true → b.Line a.pendingRemainingQ now a.pendingHorizon 0) ∧
      (a.pendingPresent = false → b.schedPresent = false) := by
  obtain ⟨total, vested, sum, -, rfl⟩ := line.warm warm
  have all : total = anchor := by rw [vested, vestedUnits, if_pos late]
  have remaining := line.remaining
  have emptied : a.schedRemainingQ - x = 0 := by omega
  refine ⟨by omega, ?_⟩
  cases waits : a.pendingPresent with
  | true =>
      rw [Account.afterRelease_promoted emptied waits]
      exact ⟨rfl, fun _ => ⟨rfl, rfl, rfl, rfl, rfl, rfl⟩, by rintro ⟨⟩⟩
  | false =>
      rw [Account.afterRelease_cleared emptied waits]
      exact ⟨waits, by rintro ⟨⟩, fun _ => rfl⟩

/-! ### Many touches -/

/-- A touch: its slot, the start of the scheduled bucket it found, and what it released. -/
structure WarmupTouch where
  slot : Nat
  start : Nat
  amount : Nat

/-- One touch of account `i`, or rest until a later slot, in which anything but its reserve may change. -/
inductive WarmupTurn (i : Nat) : RiskEngine → List WarmupTouch → RiskEngine → Prop
  | rest {s s' : RiskEngine} (slot : s.currentSlot ≤ s'.currentSlot)
      (same : (s.accounts i).SameReserve (s'.accounts i)) : WarmupTurn i s [] s'
  | touch {x : Nat} {s s' : RiskEngine} {l : List Event} (ok : advanceProfitWarmup i s = .ok () s' l)
      (gain : s'.pnlMaturedPosTot = s.pnlMaturedPosTot + x) :
      WarmupTurn i s [⟨s.currentSlot, (s.accounts i).schedStartSlot, x⟩] s'

theorem WarmupTurn.clock (le : s.currentSlot ≤ now) : WarmupTurn i s [] (s.withCurrentSlot now) :=
  .rest le (.refl _)

variable {es : List WarmupTouch} {e : WarmupTouch} {u due : Nat}

theorem WarmupTurn.touched (ok : advanceProfitWarmup i s = .ok () s' l) (slot : e.slot = s.currentSlot)
    (found : e.start = (s.accounts i).schedStartSlot) (gain : s'.pnlMaturedPosTot = s.pnlMaturedPosTot + e.amount) :
    WarmupTurn i s [e] s' := by
  have turn := WarmupTurn.touch ok gain
  rwa [← slot, ← found] at turn

/-- What the touches released from the bucket that started in slot `start`. -/
def releasedFrom (start : Nat) (es : List WarmupTouch) : Nat :=
  (es.map fun e => if e.start = start then e.amount else 0).sum

/-- The slot of the last touch, or else `start`. -/
def lastSlot (start : Nat) (es : List WarmupTouch) : Nat := (es.getLast?.map (·.slot)).getD start

/-- The slot of the first touch from slot `due` on. -/
def removalSlot (due : Nat) (es : List WarmupTouch) : Option Nat := (es.map (·.slot)).find? (due ≤ ·)

theorem releasedFrom_snoc : releasedFrom start (es ++ [e]) =
    releasedFrom start es + if e.start = start then e.amount else 0 := by
  simp [releasedFrom]

theorem releasedFrom_other (other : ∀ e ∈ es, e.start ≠ start) : releasedFrom start es = 0 := by
  refine List.sum_eq_zero ?_
  intro n mem
  obtain ⟨e, he, rfl⟩ := List.mem_map.mp mem
  exact if_neg (other e he)

@[simp] theorem lastSlot_snoc : lastSlot start (es ++ [e]) = e.slot := by
  simp [lastSlot]

theorem lastSlot_le (le : start ≤ now) (slots : ∀ e ∈ es, e.slot ≤ now) : lastSlot start es ≤ now := by
  unfold lastSlot
  cases last : es.getLast? with
  | none => exact le
  | some e => exact slots e (List.mem_of_getLast? last)

theorem removalSlot_snoc : removalSlot due (es ++ [e]) =
    (removalSlot due es).or (if due ≤ e.slot then some e.slot else none) := by
  simp only [removalSlot, List.map_append, List.map_cons, List.map_nil, List.find?_append, List.find?_singleton,
    decide_eq_true_eq]

theorem removalSlot_some (h : removalSlot due es = some u) : due ≤ u ∧ ∃ e ∈ es, e.slot = u := by
  constructor
  · simpa using List.find?_some h
  · exact List.mem_map.mp (List.mem_of_find?_eq_some h)

/-- Where the touches `es` of an account that held the reserve of `o` have led. -/
inductive Followed (o : Account) (es : List WarmupTouch) (a : Account) : Prop
  /-- The bucket is still there. -/
  | running (early : removalSlot (o.schedStartSlot + o.schedHorizon) es = none)
      (before : lastSlot o.schedStartSlot es - o.schedStartSlot < o.schedHorizon)
      (found : ∀ e ∈ es, e.start = o.schedStartSlot)
      (released : releasedFrom o.schedStartSlot es =
        vestedUnits o.schedAnchorQ (lastSlot o.schedStartSlot es - o.schedStartSlot) o.schedHorizon)
      (line : a.Line o.schedAnchorQ o.schedStartSlot o.schedHorizon (releasedFrom o.schedStartSlot es))
      (pending : o.SamePending a)
  /-- The pending bucket was promoted in slot `u`. -/
  | promoted (u : Nat) (late : removalSlot (o.schedStartSlot + o.schedHorizon) es = some u)
      (reached : u ≤ lastSlot o.schedStartSlot es)
      (whole : releasedFrom o.schedStartSlot es = o.schedAnchorQ)
      (waits : o.pendingPresent = true)
      (before : lastSlot o.schedStartSlot es - u < o.pendingHorizon)
      (released : releasedFrom u es =
        vestedUnits o.pendingRemainingQ (lastSlot o.schedStartSlot es - u) o.pendingHorizon)
      (line : a.Line o.pendingRemainingQ u o.pendingHorizon (releasedFrom u es))
      (free : a.pendingPresent = false)
  /-- Every bucket is gone. -/
  | cleared (u : Nat) (late : removalSlot (o.schedStartSlot + o.schedHorizon) es = some u)
      (reached : u ≤ lastSlot o.schedStartSlot es)
      (whole : releasedFrom o.schedStartSlot es = o.schedAnchorQ)
      (after : o.pendingHorizon ≤ lastSlot o.schedStartSlot es - u)
      (released : releasedFrom u es = o.pendingRemainingQ)
      (none : a.Unreserved)

theorem Followed.rest (h : Followed o es a) (same : a.SameReserve b) : Followed o es b := by
  rw [same]
  cases h with
  | running early before found released line pending =>
      exact .running early before found released
        ⟨line.present, line.anchor_eq, line.start_eq, line.horizon_eq, line.released, line.remaining⟩
        ⟨pending.present, pending.remaining, pending.horizon⟩
  | promoted u late reached whole waits before released line free =>
      exact .promoted u late reached whole waits before released
        ⟨line.present, line.anchor_eq, line.start_eq, line.horizon_eq, line.released, line.remaining⟩ free
  | cleared u late reached whole after released none =>
      exact .cleared u late reached whole after released ⟨none.sched, none.pending⟩

theorem vestedUnits_zero (pos : 0 < horizon) : vestedUnits x 0 horizon = 0 := by
  rw [vestedUnits, if_neg (by omega), Nat.mul_zero, Nat.zero_div]

/-- A touch while the bucket is there. -/
theorem Followed.touch_running (buckets : Buckets p o) (present : o.schedPresent = true)
    (early : removalSlot (o.schedStartSlot + o.schedHorizon) es = none)
    (found : ∀ e ∈ es, e.start = o.schedStartSlot)
    (line : a.Line o.schedAnchorQ o.schedStartSlot o.schedHorizon (releasedFrom o.schedStartSlot es))
    (pending : o.SamePending a) (warm : Warm p' now a x b) :
    Followed o (es ++ [⟨now, a.schedStartSlot, x⟩]) b := by
  obtain ⟨pos, -, -, -, held, left⟩ := buckets.schedPresent present
  obtain ⟨-, -, -, started, -⟩ := line.warm warm
  have mine : releasedFrom o.schedStartSlot (es ++ [⟨now, a.schedStartSlot, x⟩]) =
      releasedFrom o.schedStartSlot es + x := by
    rw [releasedFrom_snoc, if_pos line.start_eq]
  have found' : ∀ e ∈ es ++ [⟨now, a.schedStartSlot, x⟩], e.start = o.schedStartSlot := by
    intro e mem
    rcases List.mem_append.mp mem with old | new
    · exact found e old
    · rw [List.mem_singleton.mp new, line.start_eq]
  have removal : removalSlot (o.schedStartSlot + o.schedHorizon) (es ++ [⟨now, a.schedStartSlot, x⟩]) =
      if o.schedStartSlot + o.schedHorizon ≤ now then some now else none := by
    rw [removalSlot_snoc, early, Option.none_or]
  by_cases before : now - o.schedStartSlot < o.schedHorizon
  · obtain ⟨sum, line', pending'⟩ := line.stays (by omega) before warm
    rw [if_neg (show ¬ _ ≤ now by omega)] at removal
    refine .running removal ?_ found' ?_ ?_ (pending.trans pending')
    · rw [lastSlot_snoc]
      exact before
    · rw [lastSlot_snoc, mine, sum]
    · rw [mine, sum]
      exact line'
  · obtain ⟨sum, free, starts, clears⟩ := line.ends (not_lt.mp before) warm
    rw [if_pos (show _ ≤ now by omega)] at removal
    -- the new start is a later slot, so nothing was released from it so far
    have later : o.schedStartSlot ≠ now := by omega
    have fresh : releasedFrom now (es ++ [⟨now, a.schedStartSlot, x⟩]) = 0 := by
      refine releasedFrom_other ?_
      intro e mem
      rw [found' e mem]
      exact later
    have whole : releasedFrom o.schedStartSlot (es ++ [⟨now, a.schedStartSlot, x⟩]) = o.schedAnchorQ :=
      mine.trans sum
    cases waits : o.pendingPresent with
    | true =>
        have line' := starts (pending.present.trans waits)
        rw [pending.remaining, pending.horizon] at line'
        have pos' := (buckets.pendingPresent waits).1
        refine .promoted now removal ?_ whole waits ?_ ?_ ?_ free
        · rw [lastSlot_snoc]
        · rw [lastSlot_snoc, Nat.sub_self]
          exact pos'
        · rw [lastSlot_snoc, fresh, Nat.sub_self, vestedUnits_zero pos']
        · rw [fresh]
          exact line'
    | false =>
        obtain ⟨nothing, none, -⟩ := buckets.pendingAbsent waits
        refine .cleared now removal ?_ whole ?_ ?_ ⟨clears (pending.present.trans waits), free⟩
        · rw [lastSlot_snoc]
        · rw [none]
          exact Nat.zero_le _
        · rw [fresh, nothing]

/-- A touch of the promoted bucket. -/
theorem Followed.touch_promoted (buckets : Buckets p o) (present : o.schedPresent = true)
    (late : removalSlot (o.schedStartSlot + o.schedHorizon) es = some u) (le : u ≤ now)
    (whole : releasedFrom o.schedStartSlot es = o.schedAnchorQ) (waits : o.pendingPresent = true)
    (line : a.Line o.pendingRemainingQ u o.pendingHorizon (releasedFrom u es)) (free : a.pendingPresent = false)
    (warm : Warm p' now a x b) : Followed o (es ++ [⟨now, a.schedStartSlot, x⟩]) b := by
  obtain ⟨pos, -⟩ := buckets.schedPresent present
  obtain ⟨-, -, -, left⟩ := buckets.pendingPresent waits
  have due := (removalSlot_some late).1
  have mine : releasedFrom u (es ++ [⟨now, a.schedStartSlot, x⟩]) = releasedFrom u es + x := by
    rw [releasedFrom_snoc, if_pos line.start_eq]
  have whole' : releasedFrom o.schedStartSlot (es ++ [⟨now, a.schedStartSlot, x⟩]) = o.schedAnchorQ := by
    have other : a.schedStartSlot ≠ o.schedStartSlot := by
      have := line.start_eq
      omega
    rw [releasedFrom_snoc, if_neg other, whole, Nat.add_zero]
  have removal : removalSlot (o.schedStartSlot + o.schedHorizon) (es ++ [⟨now, a.schedStartSlot, x⟩]) = some u := by
    rw [removalSlot_snoc, late, Option.some_or]
  by_cases before : now - u < o.pendingHorizon
  · obtain ⟨sum, line', pending'⟩ := line.stays left before warm
    refine .promoted u removal ?_ whole' waits ?_ ?_ ?_ (pending'.present.trans free)
    · rw [lastSlot_snoc]
      exact le
    · rw [lastSlot_snoc]
      exact before
    · rw [lastSlot_snoc, mine, sum]
    · rw [mine, sum]
      exact line'
  · obtain ⟨sum, free', -, clears⟩ := line.ends (not_lt.mp before) warm
    refine .cleared u removal ?_ whole' ?_ (mine.trans sum) ⟨clears free, free'⟩
    · rw [lastSlot_snoc]
      exact le
    · rw [lastSlot_snoc]
      exact not_lt.mp before

/-- An account without a reserve has nothing to release. -/
theorem Account.Unreserved.warm (none : a.Unreserved) (warm : Warm p now a x b) : x = 0 ∧ b = a := by
  cases warm with
  | idle => exact ⟨rfl, rfl⟩
  | line eq buckets present =>
      rw [eq, Account.promoted, if_neg (by simp [none.pending])] at present
      exact absurd (none.sched.symm.trans present) (by decide)

theorem Followed.touch (h : Followed o es a) (buckets : Buckets p o) (present : o.schedPresent = true)
    (slots : ∀ e ∈ es, e.slot ≤ now) (warm : Warm p' now a x b) :
    Followed o (es ++ [⟨now, a.schedStartSlot, x⟩]) b := by
  cases h with
  | running early _ found _ line pending =>
      exact touch_running buckets present early found line pending warm
  | promoted u late _ whole waits _ _ line free =>
      obtain ⟨-, e, mem, rfl⟩ := removalSlot_some late
      exact touch_promoted buckets present late (slots e mem) whole waits line free warm
  | cleared u late _ whole after released none =>
      obtain ⟨rfl, rfl⟩ := none.warm warm
      obtain ⟨due, e, mem, rfl⟩ := removalSlot_some late
      have reached := slots e mem
      have le : lastSlot o.schedStartSlot es ≤ now := lastSlot_le (by omega) slots
      refine .cleared e.slot ?_ ?_ ?_ ?_ ?_ none
      · rw [removalSlot_snoc, late, Option.some_or]
      · rw [lastSlot_snoc]
        exact reached
      · rw [releasedFrom_snoc, ite_self, whole, Nat.add_zero]
      · rw [lastSlot_snoc]
        exact after.trans (Nat.sub_le_sub_right le _)
      · rw [releasedFrom_snoc, ite_self, released, Nat.add_zero]

theorem Followed.none (buckets : Buckets p o) (line : o.Line anchor start horizon 0) : Followed o [] o := by
  have pos := (buckets.schedPresent line.present).1
  have none : lastSlot o.schedStartSlot [] - o.schedStartSlot = 0 := Nat.sub_self _
  refine .running rfl ?_ (List.forall_mem_nil _) ?_ ?_ (.refl o)
  · rw [none]
    exact pos
  · rw [none, vestedUnits_zero pos]
    rfl
  · exact ⟨line.present, rfl, rfl, rfl, line.released, line.remaining.trans line.anchor_eq.symm⟩

theorem Run.followed (run : Run (WarmupTurn i) s es s') (buckets : Buckets s.params (s.accounts i))
    (line : (s.accounts i).Line anchor start horizon 0) :
    Followed (s.accounts i) es (s'.accounts i) ∧ ∀ e ∈ es, e.slot ≤ s'.currentSlot := by
  induction run with
  | refl => exact ⟨.none buckets line, List.forall_mem_nil _⟩
  | tail run last ih =>
      obtain ⟨followed, slots⟩ := ih
      cases last with
      | rest slot same =>
          rw [List.append_nil]
          exact ⟨followed.rest same, fun e mem => (slots e mem).trans slot⟩
      | @touch x _ _ _ ok gain =>
          obtain ⟨x', a', rfl, warm⟩ := advanceProfitWarmup_warm ok
          obtain rfl : x' = x := Nat.add_left_cancel gain
          have kept := followed.touch buckets line.present slots warm
          constructor
          · rw [RiskEngine.rebook_accounts, put_same]
            exact kept
          · intro e mem
            rcases List.mem_append.mp mem with old | new
            · exact slots e old
            · rw [List.mem_singleton.mp new]
              exact le_rfl

/-! ### A touch goes through -/

/-- What the engine keeps of an account and its totals: the shape of the reserve, and that all of it may mature. -/
structure Touchable (i : Nat) (s : RiskEngine) : Prop where
  shape : ReserveShape s.params (s.accounts i)
  room : s.pnlMaturedPosTot + (s.accounts i).reservedPnl ≤ s.pnlPosTot
  cap : s.pnlPosTot ≤ U128_MAX

theorem schedTotal_vested {elapsed : Nat} (short : x * horizon ≤ U128_MAX) (pos : 0 < horizon) :
    schedTotal x elapsed horizon = some (vestedUnits x elapsed horizon) := by
  unfold schedTotal vestedUnits
  split_ifs with full
  · rfl
  · have less : x * elapsed ≤ x * horizon := Nat.mul_le_mul_left x (by omega)
    exact if_neg (by omega)

/-- Taking part of a bucket out to matured profit. -/
theorem releaseSched_total {l : List Event} (held : x ≤ (s.accounts i).schedRemainingQ)
    (reserved : x ≤ (s.accounts i).reservedPnl) (cap : s.pnlMaturedPosTot + x ≤ U128_MAX) :
    wp (releaseSched i x) (fun _ _ _ => True) (fun _ _ => False) s l := by
  simp [releaseSched, checkedSub, checkedAddU128, held, reserved, cap]

theorem advanceProfitWarmup_total (h : Touchable i s) (line : (s.accounts i).Line anchor start horizon r)
    (started : start ≤ s.currentSlot) (short : anchor * horizon ≤ U128_MAX)
    (ahead : r ≤ vestedUnits anchor (s.currentSlot - start) horizon) :
    ∃ s' l, advanceProfitWarmup i s = .ok () s' l := by
  have buckets := (reserveShape_iff.mp h.shape).1
  have pos := (buckets.schedPresent line.present).1
  have sum := buckets.total.2
  have still : (s.accounts i).promoted s.currentSlot = s.accounts i := if_neg (by simp [line.present])
  have vested : schedTotal anchor (s.currentSlot - start) horizon =
      some (vestedUnits anchor (s.currentSlot - start) horizon) := schedTotal_vested short (line.horizon_eq ▸ pos)
  set total := vestedUnits anchor (s.currentSlot - start) horizon with htotal
  have room := h.room
  have cap := h.cap
  suffices done : wp (advanceProfitWarmup i) (fun _ _ _ => True) (fun _ _ => False) s [] by
    obtain ⟨_, s', l, ok, -⟩ := wp_total done
    exact ⟨s', l, ok⟩
  simp only [advanceProfitWarmup, validateReserveShape, wp_bind, wp_read, wp_rejectIf, wp_ite, wp_pure,
    wp_writeAccount, wp_expect, RiskEngine.setAccount_accounts, put_same, RiskEngine.setAccount_currentSlot, still,
    reserveShapeCheck_iff.mpr h.shape, line.present, line.start_eq, line.anchor_eq, line.horizon_eq, vested,
    reduceCtorEq, false_implies, true_and, Bool.true_eq_false, not_false_eq_true, forall_const]
  refine ⟨fun _ => trivial, fun _ => ⟨fun early => by omega, fun _ => ⟨fun none => ?_, fun _ => ?_⟩⟩⟩
  · exact absurd (none ▸ line.horizon_eq ▸ pos) (lt_irrefl 0)
  rintro _ ⟨⟩
  refine ⟨fun behind => absurd (line.released ▸ behind) (by omega), fun _ => ?_⟩
  rw [RiskEngine.setAccount_eta]
  have le : min (s.accounts i).schedRemainingQ (total - (s.accounts i).schedReleaseQ) ≤
      (s.accounts i).schedRemainingQ := min_le_left _ _
  refine wp_split (releaseSched_total le (by omega) (by omega)) ?_
  intro _ s' l ok
  obtain ⟨rfl, -⟩ := releaseSched_spec ok
  have kept : Buckets s.params ((s.accounts i).afterRelease s.currentSlot
      (min (s.accounts i).schedRemainingQ (total - (s.accounts i).schedReleaseQ)) total) := by
    refine (Warmed.afterRelease buckets line.present rfl (line.released ▸ ahead) (line.start_eq ▸ started) ?_).buckets
    rw [line.anchor_eq, line.start_eq, line.horizon_eq]
    exact vested
  simp only [RiskEngine.setAccount_accounts, RiskEngine.withPnlMaturedPosTot_accounts, put_same]
  refine ⟨?_, fun _ => ⟨?_, fun _ => trivial⟩⟩
  · rintro ⟨none, left⟩
    obtain ⟨sched, pending⟩ := kept.empty none
    rcases left with left | left
    · exact absurd (sched.symm.trans left) (by decide)
    · exact absurd (pending.symm.trans left) (by decide)
  · intro more
    simp only [RiskEngine.setAccount_pnlPosTot, RiskEngine.setAccount_pnlMaturedPosTot,
      RiskEngine.withPnlMaturedPosTot_pnlPosTot, RiskEngine.withPnlMaturedPosTot_pnlMaturedPosTot] at more
    omega

theorem advanceProfitWarmup_idle (h : Touchable i s) (none : (s.accounts i).Unreserved) :
    ∃ s' l, advanceProfitWarmup i s = .ok () s' l := by
  have buckets := (reserveShape_iff.mp h.shape).1
  have empty : (s.accounts i).reservedPnl = 0 := by
    have sched := (buckets.schedAbsent none.sched).1
    have pending := (buckets.pendingAbsent none.pending).1
    have sum := buckets.total.2
    omega
  suffices done : wp (advanceProfitWarmup i) (fun _ _ _ => True) (fun _ _ => False) s [] by
    obtain ⟨_, s', l, ok, -⟩ := wp_total done
    exact ⟨s', l, ok⟩
  simp [advanceProfitWarmup, validateReserveShape, reserveShapeCheck_iff.mpr h.shape, empty]

theorem Followed.touchable (h' : Followed o es (s.accounts i)) (h : Touchable i s)
    (slots : ∀ e ∈ es, e.slot ≤ s.currentSlot) (started : o.schedStartSlot ≤ s.currentSlot)
    (short : o.schedAnchorQ * o.schedHorizon ≤ U128_MAX) (short' : o.pendingRemainingQ * o.pendingHorizon ≤ U128_MAX) :
    ∃ s' l, advanceProfitWarmup i s = .ok () s' l := by
  have le : lastSlot o.schedStartSlot es ≤ s.currentSlot := lastSlot_le started slots
  cases h' with
  | running early before found released line pending =>
      refine advanceProfitWarmup_total h line started short ?_
      rw [released]
      exact vestedUnits_mono (Nat.sub_le_sub_right le _)
  | promoted u late reached whole waits before released line free =>
      refine advanceProfitWarmup_total h line (reached.trans le) short' ?_
      rw [released]
      exact vestedUnits_mono (Nat.sub_le_sub_right le _)
  | cleared u late reached whole after released none => exact advanceProfitWarmup_idle h none

/-! ### The law -/

/-- What became of the pending bucket of `o`, promoted in slot `u`, by the last touch. -/
structure Promoted (o : Account) (u last : Nat) (es : List WarmupTouch) (a : Account) : Prop where
  free : a.pendingPresent = false
  released : releasedFrom u es = vestedUnits o.pendingRemainingQ (last - u) o.pendingHorizon
  line : last - u < o.pendingHorizon → a.Line o.pendingRemainingQ u o.pendingHorizon (releasedFrom u es)
  gone : o.pendingHorizon ≤ last - u → a.schedPresent = false

theorem Followed.promotes (h : Followed o es a) (some : removalSlot (o.schedStartSlot + o.schedHorizon) es = some u) :
    Promoted o u (lastSlot o.schedStartSlot es) es a := by
  cases h with
  | running early => exact absurd (early.symm.trans some) (by rintro ⟨⟩)
  | promoted u' late reached whole waits before released line free =>
      obtain rfl := Option.some.inj (late.symm.trans some)
      exact ⟨free, released, fun _ => line, fun after => absurd before (by omega)⟩
  | cleared u' late reached whole after released none =>
      obtain rfl := Option.some.inj (late.symm.trans some)
      refine ⟨none.pending, ?_, fun before => absurd after (by omega), fun _ => none.sched⟩
      rw [released, vestedUnits, if_pos after]

theorem Followed.releasedFrom_eq (h : Followed o es a) : releasedFrom o.schedStartSlot es =
    vestedUnits o.schedAnchorQ (lastSlot o.schedStartSlot es - o.schedStartSlot) o.schedHorizon := by
  cases h with
  | running early before found released => exact released
  | promoted u late reached whole =>
      have due := (removalSlot_some late).1
      rw [whole, vestedUnits, if_pos (by omega)]
  | cleared u late reached whole =>
      have due := (removalSlot_some late).1
      rw [whole, vestedUnits, if_pos (by omega)]

theorem Followed.emptied_iff (h : Followed o es a) (pos : 0 < o.schedAnchorQ) :
    releasedFrom o.schedStartSlot es = o.schedAnchorQ ↔
      ∃ u, removalSlot (o.schedStartSlot + o.schedHorizon) es = some u := by
  cases h with
  | running early before found released =>
      rw [released, vestedUnits_eq_iff pos, early]
      simpa using before
  | promoted u late reached whole => exact ⟨fun _ => ⟨u, late⟩, fun _ => whole⟩
  | cleared u late reached whole => exact ⟨fun _ => ⟨u, late⟩, fun _ => whole⟩

/-- Whatever the slots of the touches between, the bucket has released what vested by the last one. It is
there until it is emptied, and the pending bucket starts in that slot. The touches go through. -/
theorem warmup_path_independent (buckets : Buckets s.params (s.accounts i))
    (line : (s.accounts i).Line anchor start horizon 0) (run : Run (WarmupTurn i) s es s') :
    releasedFrom start es = vestedUnits anchor (lastSlot start es - start) horizon ∧
      (releasedFrom start es = anchor ↔ ∃ u, removalSlot (start + horizon) es = some u) ∧
      (removalSlot (start + horizon) es = none →
        (s'.accounts i).Line anchor start horizon (releasedFrom start es) ∧
          (s.accounts i).SamePending (s'.accounts i)) ∧
      (∀ u, removalSlot (start + horizon) es = some u →
        Promoted (s.accounts i) u (lastSlot start es) es (s'.accounts i)) ∧
      (anchor * horizon ≤ U128_MAX →
        (s.accounts i).pendingRemainingQ * (s.accounts i).pendingHorizon ≤ U128_MAX →
        start ≤ s'.currentSlot → Touchable i s' → ∃ s'' l, advanceProfitWarmup i s' = .ok () s'' l) := by
  obtain ⟨followed, slots⟩ := run.followed buckets line
  obtain ⟨-, -, -, -, held, left⟩ := buckets.schedPresent line.present
  obtain rfl := line.anchor_eq
  obtain rfl := line.start_eq
  obtain rfl := line.horizon_eq
  refine ⟨followed.releasedFrom_eq, followed.emptied_iff (by omega), ?_, fun u some => followed.promotes some, ?_⟩
  · intro none
    cases followed with
    | running early before found released line pending => exact ⟨line, pending⟩
    | promoted u late => exact absurd (none.symm.trans late) (by rintro ⟨⟩)
    | cleared u late => exact absurd (none.symm.trans late) (by rintro ⟨⟩)
  · intro short short' started touchable
    exact followed.touchable touchable slots started short short'

/-- A market in which account 1 waits for 60 over 20 slots, with 30 pending. -/
def queuedMarket : RiskEngine := (appendOrRouteNewReserve 1 30 101 40 waitingMarket).final

def touchedMarket : RiskEngine := (advanceProfitWarmup 1 (queuedMarket.withCurrentSlot 106)).final

theorem queuedMarket_path_independent :
    releasedFrom 101 [⟨106, 101, 15⟩, ⟨125, 101, 45⟩] = vestedUnits 60 (125 - 101) 20 := by
  obtain ⟨_, l, ok⟩ := Outcome.eq_ok (o := advanceProfitWarmup 1 (queuedMarket.withCurrentSlot 106)) (by decide +kernel)
  obtain ⟨_, l', ok'⟩ := Outcome.eq_ok (o := advanceProfitWarmup 1 (touchedMarket.withCurrentSlot 125))
    (by decide +kernel)
  have rest : WarmupTurn 1 queuedMarket [] (queuedMarket.withCurrentSlot 106) := .clock (by decide +kernel)
  have first : WarmupTurn 1 (queuedMarket.withCurrentSlot 106) [⟨106, 101, 15⟩] touchedMarket :=
    .touched ok rfl (by decide +kernel) (by decide +kernel)
  have rest' : WarmupTurn 1 touchedMarket [] (touchedMarket.withCurrentSlot 125) := .clock (by decide +kernel)
  have second : WarmupTurn 1 (touchedMarket.withCurrentSlot 125) [⟨125, 101, 45⟩]
      (advanceProfitWarmup 1 (touchedMarket.withCurrentSlot 125)).final :=
    .touched ok' rfl (by decide +kernel) (by decide +kernel)
  have run := (((Run.single rest).tail first).tail rest').tail second
  have shape : ReserveShape queuedMarket.params (queuedMarket.accounts 1) := reserveShapeCheck_iff.mp (by decide +kernel)
  have line : (queuedMarket.accounts 1).Line 60 101 20 0 :=
    ⟨by decide +kernel, by decide +kernel, by decide +kernel, by decide +kernel, by decide +kernel, by decide +kernel⟩
  exact (warmup_path_independent (reserveShape_iff.mp shape).1 line run).1

end Percolator