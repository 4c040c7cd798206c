import Percolator.Base.Vesting
import Percolator.Base.Run
import Percolator.Laws.Width
import Mathlib.Tactic.Linarith

/-!
The warmup of a reserve: it releases what the line of its scheduled bucket has vested, on
whatever slots it is touched, and with two buckets for any number of appends it is never early.
-/

namespace Percolator

open Effect

variable {s s' s₁ : RiskEngine} {p : RiskParams} {a b : Account} {i now n r h x t : Nat} {l : List Event}

/-! ### What the helpers do exactly -/

/-- The accounts hold the same reserve. -/
def Account.SameReserve (a b : Account) : Prop :=
  b = { b with
    reservedPnl := a.reservedPnl
    schedPresent := a.schedPresent, schedRemainingQ := a.schedRemainingQ
    schedAnchorQ := a.schedAnchorQ, schedStartSlot := a.schedStartSlot
    schedHorizon := a.schedHorizon, schedReleaseQ := a.schedReleaseQ
    pendingPresent := a.pendingPresent, pendingRemainingQ := a.pendingRemainingQ
    pendingHorizon := a.pendingHorizon, pendingCreatedSlot := a.pendingCreatedSlot }

theorem Account.SameReserve.refl (a : Account) : a.SameReserve a := rfl

theorem schedTotal_eq {anchor elapsed horizon total : Nat} (h : schedTotal anchor elapsed horizon = some total) :
    total = vestedUnits anchor elapsed horizon := by
  unfold schedTotal at h
  unfold vestedUnits
  split_ifs at h ⊢ with full
  · exact (Option.some.inj h).symm
  · exact (mulDivFloorU128_eq h).2

/-- What a warmup in slot `now` makes of an account, and what it releases. -/
inductive Warm (p : RiskParams) (now : Nat) (a : Account) : Nat → Account → Prop
  /-- There is no reserve. -/
  | idle (buckets : Buckets p a) (none : a.reservedPnl = 0) : Warm p now a 0 a
  /-- The line of the scheduled bucket is followed, after a pending one was promoted if need be. -/
  | line {b : Account} (eq : b = a.promoted now) (buckets : Buckets p b) (present : b.schedPresent = true)
      (started : b.schedStartSlot ≤ now) (total r : Nat)
      (vested : total = vestedUnits b.schedAnchorQ (now - b.schedStartSlot) b.schedHorizon)
      (ahead : b.schedReleaseQ ≤ total) (released : r = min b.schedRemainingQ (total - b.schedReleaseQ)) :
      Warm p now a r (b.afterRelease now r total)

theorem advanceProfitWarmup_warm (ok : advanceProfitWarmup i s = .ok () s' l) : ∃ r a',
    s' = s.rebook i a' { s.totals with pnlMaturedPosTot := s.pnlMaturedPosTot + r } ∧
      Warm s.params s.currentSlot (s.accounts i) r a' := by
  refine wp_sound (Q := fun _ s' _ => ∃ r a',
    s' = s.rebook i a' { s.totals with pnlMaturedPosTot := s.pnlMaturedPosTot + r } ∧
      Warm s.params s.currentSlot (s.accounts i) r a') ok ?_
  simp only [advanceProfitWarmup, validateReserveShape, wp_bind, wp_read, wp_rejectIf, wp_ite,
    wp_writeAccount, wp_expect, wp_pure, Bool.not_eq_false, implies_true, true_and, not_lt,
    RiskEngine.setAccount_accounts, put_same, RiskEngine.setAccount_currentSlot]
  intro shape
  have buckets := (reserveShape_iff.mp (reserveShapeCheck_iff.mp shape)).1
  refine ⟨fun none => ?_, fun some present started _ total vested ahead => wp_ok fun _ s' l ok => ?_⟩
  · exact ⟨0, s.accounts i, (s.rebook_eta i).symm, .idle buckets none⟩
  · obtain ⟨rfl, -⟩ := releaseSched_spec ok
    simp only [RiskEngine.setAccount_accounts, RiskEngine.withPnlMaturedPosTot_accounts, put_same]
    refine fun _ _ => ⟨_, _, ?_, .line rfl buckets.promoted present started total _ (schedTotal_eq vested) ahead rfl⟩
    simp only [RiskEngine.setAccount_setAccount, RiskEngine.withPnlMaturedPosTot_setAccount,
      RiskEngine.setAccount_pnlMaturedPosTot]
    rfl

/-- What an append of `x` in slot `now` makes of an account whose pending bucket was promoted if need be. -/
inductive Routed (now x h : Nat) (b : Account) : Account → Prop
  /-- A scheduled bucket is opened. -/
  | opened (absent : b.schedPresent = false) :
      Routed now x h b ((b.openSched x now h).withReservedPnl (b.reservedPnl + x))
  /-- The scheduled bucket of this slot takes it in. -/
  | joined (present : b.schedPresent = true) (free : b.pendingPresent = false) (slot : b.schedStartSlot = now)
      (horizon : b.schedHorizon = h) (unreleased : b.schedReleaseQ = 0) :
      Routed now x h b (((b.withSchedRemainingQ (b.schedRemainingQ + x)).withSchedAnchorQ
        (b.schedAnchorQ + x)).withReservedPnl (b.reservedPnl + x))
  /-- A pending bucket is opened. -/
  | waiting (present : b.schedPresent = true) (free : b.pendingPresent = false) :
      Routed now x h b ((b.openPending x now h).withReservedPnl (b.reservedPnl + x))
  /-- The pending bucket takes it in, at the longer horizon. -/
  | merged (present : b.schedPresent = true) (taken : b.pendingPresent = true) :
      Routed now x h b ((b.withPending (b.pendingRemainingQ + x) (max b.pendingHorizon h)).withReservedPnl
        (b.reservedPnl + x))

theorem appendOrRouteNewReserve_routed (ok : appendOrRouteNewReserve i x now h s = .ok () s' l) :
    ∃ a', s' = s.setAccount i a' ∧ Buckets s.params (s.accounts i) ∧
      Routed now x h ((s.accounts i).promoted now) a' := by
  refine wp_sound (Q := fun _ s' _ => ∃ a', s' = s.setAccount i a' ∧ Buckets s.params (s.accounts i) ∧
    Routed now x h ((s.accounts i).promoted now) a') ok ?_
  simp only [appendOrRouteNewReserve, validateReserveShape, wp_bind, wp_read, wp_rejectIf,
    wp_writeAccount, wp_ite, wp_orErr, Bool.not_eq_false, implies_true, true_and,
    RiskEngine.setAccount_setAccount, RiskEngine.setAccount_accounts, put_same]
  intro shape
  have buckets := (reserveShape_iff.mp (reserveShapeCheck_iff.mp shape)).1
  refine ⟨fun absent r hr => ?_, fun present => ⟨fun same r₁ h₁ r₂ h₂ r hr => ?_,
    fun _ => ⟨fun free r hr => ?_, fun taken r₁ h₁ r hr => ?_⟩⟩⟩
  · refine ⟨_, rfl, buckets, ?_⟩
    rw [(checkedAddU128_eq hr).1]
    exact .opened absent
  · refine ⟨_, rfl, buckets, ?_⟩
    rw [(checkedAddU128_eq hr).1, (checkedAddU128_eq h₁).1, (checkedAddU128_eq h₂).1]
    exact .joined present same.1 same.2.1 same.2.2.1 same.2.2.2
  · refine ⟨_, rfl, buckets, ?_⟩
    rw [(checkedAddU128_eq hr).1]
    exact .waiting present free
  · refine ⟨_, rfl, buckets, ?_⟩
    rw [(checkedAddU128_eq hr).1, (checkedAddU128_eq h₁).1]
    exact .merged present (by simpa using taken)

/-- A loss of `n` takes the pending bucket first, and lowers the scheduled one without its anchor. -/
theorem applyReserveLossNewestFirst_taken (ok : applyReserveLossNewestFirst i n s = .ok () s' l) :
    ∃ x y r, s' = s.setAccount i ((((s.accounts i).takePending x).takeSched y).withReservedPnl r) ∧
      Buckets s.params (s.accounts i) := by
  refine wp_sound (Q := fun _ s' _ => ∃ x y r,
    s' = s.setAccount i ((((s.accounts i).takePending x).takeSched y).withReservedPnl r) ∧
      Buckets s.params (s.accounts i)) ok ?_
  simp only [applyReserveLossNewestFirst, validateReserveShape, wp_bind, wp_read, wp_rejectIf,
    wp_writeAccount, wp_orErr, Bool.not_eq_false, implies_true, true_and, not_lt]
  intro shape _ _ _ r _
  exact ⟨_, _, r, rfl, (reserveShape_iff.mp (reserveShapeCheck_iff.mp shape)).1⟩

/-! ### Never early -/

/-- What the scheduled bucket has yet to release by `t` on its line. -/
def Account.schedVesting (a : Account) (t : Nat) : ℚ :=
  if a.schedPresent then a.schedAnchorQ * vestedPart ℚ a.schedStartSlot a.schedHorizon t - a.schedReleaseQ else 0

/-- What the pending bucket would release by `t` if it were promoted in slot `now`. -/
def Account.pendingVesting (a : Account) (now t : Nat) : ℚ :=
  if a.pendingPresent then a.pendingRemainingQ * vestedPart ℚ now a.pendingHorizon t else 0

def Account.vesting (a : Account) (now t : Nat) : ℚ := a.schedVesting t + a.pendingVesting now t

/-- The scheduled bucket is not ahead of its line in slot `now`. -/
def Account.OnLine (a : Account) (now : Nat) : Prop :=
  a.schedPresent = true → (a.schedReleaseQ : ℚ) ≤ a.schedAnchorQ * vestedPart ℚ a.schedStartSlot a.schedHorizon now

/-- What was released and what is yet to be stays within the bound `w` from slot `now` on. -/
structure Conservative (w : Nat → ℚ) (released now : Nat) (a : Account) : Prop where
  within : ∀ t, now ≤ t → released + a.vesting now t ≤ w t
  onLine : a.OnLine now

theorem vestedPart_mono {start horizon t t' : Nat} (le : t ≤ t') :
    vestedPart ℚ start horizon t ≤ vestedPart ℚ start horizon t' :=
  vestedPart_le (Nat.sub_le_sub_right le start) le_rfl

/-- A scheduled bucket on its line has nothing to give back. -/
theorem Account.OnLine.later (h : a.OnLine now) (le : now ≤ t) : a.OnLine t := by
  intro present
  refine (h present).trans ?_
  have part : vestedPart ℚ a.schedStartSlot a.schedHorizon now ≤ vestedPart ℚ a.schedStartSlot a.schedHorizon t :=
    vestedPart_mono le
  gcongr

theorem Account.OnLine.schedVesting_nonneg (h : a.OnLine now) (le : now ≤ t) : 0 ≤ a.schedVesting t := by
  unfold schedVesting
  split_ifs with present
  · exact sub_nonneg.mpr (h.later le present)
  · exact le_rfl

theorem Account.pendingVesting_nonneg : 0 ≤ a.pendingVesting now t := by
  have part : (0 : ℚ) ≤ vestedPart ℚ now a.pendingHorizon t := vestedPart_nonneg
  unfold pendingVesting
  split_ifs
  · positivity
  · exact le_rfl

theorem Account.OnLine.vesting_nonneg (h : a.OnLine now) (le : now ≤ t) : 0 ≤ a.vesting now t :=
  add_nonneg (h.schedVesting_nonneg le) pendingVesting_nonneg

theorem Account.promoted_vesting : (a.promoted now).vesting now t = a.vesting now t := by
  unfold promoted
  split_ifs with waits
  · obtain ⟨absent, pending⟩ := waits
    simp [vesting, schedVesting, pendingVesting, absent, pending, promotePending]
  · rfl

theorem Account.OnLine.promoted (h : a.OnLine now) : (a.promoted now).OnLine now := by
  unfold Account.promoted
  split_ifs with waits
  · intro _
    have part : (0 : ℚ) ≤ vestedPart ℚ now a.pendingHorizon now := vestedPart_nonneg
    simp only [Account.promotePending, Nat.cast_zero]
    positivity
  · exact h

/-! One step. Time passing, an append, a loss and a warmup keep the bound. -/

variable {w : Nat → ℚ} {now' : Nat}

theorem Account.vesting_anti (le : now ≤ now') : a.vesting now' t ≤ a.vesting now t := by
  have part : vestedPart ℚ now' a.pendingHorizon t ≤ vestedPart ℚ now a.pendingHorizon t :=
    vestedPart_le (by omega) le_rfl
  refine add_le_add_right ?_ _
  unfold pendingVesting
  split_ifs
  · gcongr
  · exact le_rfl

theorem Account.SameReserve.vesting (h : a.SameReserve b) : b.vesting now t = a.vesting now t := by
  rw [h]
  rfl

theorem Conservative.rest (h : Conservative w r now a) (le : now ≤ now') (same : a.SameReserve b) :
    Conservative w r now' b := by
  constructor
  · intro t later
    rw [same.vesting]
    have falls : a.vesting now' t ≤ a.vesting now t := Account.vesting_anti le
    linarith [h.within t (le.trans later)]
  · intro present
    rw [same] at present ⊢
    exact h.onLine.later le present

theorem Routed.vesting (h' : Routed now x h b a) : a.vesting now t ≤ b.vesting now t + x * vestedPart ℚ now h t := by
  cases h' with
  | opened absent =>
      simp [Account.vesting, Account.schedVesting, Account.pendingVesting, absent, add_comm]
  | joined present free slot horizon unreleased =>
      simp [Account.vesting, Account.schedVesting, Account.pendingVesting, present, free, slot, horizon, unreleased,
        add_mul]
  | waiting present free =>
      simp [Account.vesting, Account.schedVesting, Account.pendingVesting, present, free]
  | merged present taken =>
      have longer : vestedPart ℚ now (max b.pendingHorizon h) t ≤ vestedPart ℚ now b.pendingHorizon t :=
        vestedPart_le le_rfl (le_max_left _ _)
      have longer' : vestedPart ℚ now (max b.pendingHorizon h) t ≤ vestedPart ℚ now h t :=
        vestedPart_le le_rfl (le_max_right _ _)
      have split : ((b.pendingRemainingQ + x : Nat) : ℚ) * vestedPart ℚ now (max b.pendingHorizon h) t ≤
          b.pendingRemainingQ * vestedPart ℚ now b.pendingHorizon t + x * vestedPart ℚ now h t := by
        rw [Nat.cast_add, add_mul]
        gcongr
      simp only [Account.vesting, Account.schedVesting, Account.pendingVesting, Account.withReservedPnl,
        Account.withPending, present, taken, if_true]
      linarith

theorem Routed.onLine (h' : Routed now x h b a) (line : b.OnLine now) : a.OnLine now := by
  cases h' with
  | opened absent =>
      intro _
      have part : (0 : ℚ) ≤ vestedPart ℚ now h now := vestedPart_nonneg
      simp only [Account.withReservedPnl_schedReleaseQ, Account.openSched, Nat.cast_zero]
      positivity
  | joined present free slot horizon unreleased =>
      intro _
      have part : (0 : ℚ) ≤ vestedPart ℚ b.schedStartSlot b.schedHorizon now := vestedPart_nonneg
      simp only [Account.withReservedPnl, Account.withSchedAnchorQ, Account.withSchedRemainingQ, unreleased,
        Nat.cast_zero]
      positivity
  | waiting present free => exact line
  | merged present taken => exact line

theorem Conservative.append (h' : Conservative w r now a) (routed : Routed now x h (a.promoted now) b) :
    Conservative (fun t => w t + x * vestedPart ℚ now h t) r now b := by
  constructor
  · intro t later
    have grows := routed.vesting (t := t)
    rw [Account.promoted_vesting] at grows
    linarith [h'.within t later]
  · exact routed.onLine h'.onLine.promoted

theorem Account.takePending_vesting : (a.takePending x).vesting now t ≤ a.vesting now t := by
  unfold takePending
  split_ifs with none emptied
  · exact le_rfl
  · exact add_le_add_right pendingVesting_nonneg _
  · have part : (0 : ℚ) ≤ vestedPart ℚ now a.pendingHorizon t := vestedPart_nonneg
    refine add_le_add_right ?_ _
    by_cases present : a.pendingPresent = true
    · simp only [pendingVesting, withPending, present, if_true]
      gcongr
      exact Nat.sub_le _ _
    · simp [pendingVesting, withPending, present]

theorem Account.OnLine.takePending (h : a.OnLine now) : (a.takePending x).OnLine now := by
  unfold Account.takePending
  split_ifs
  · exact h
  · exact h
  · exact h

theorem Account.OnLine.takeSched (h : a.OnLine now) : (a.takeSched x).OnLine now := by
  unfold Account.takeSched
  split_ifs
  · exact h
  · rintro ⟨⟩
  · exact h

theorem Account.OnLine.takeSched_vesting (h : a.OnLine now) (le : now ≤ t) :
    (a.takeSched x).vesting now t ≤ a.vesting now t := by
  unfold Account.takeSched
  split_ifs with none emptied
  · exact le_rfl
  · exact add_le_add_left (h.schedVesting_nonneg le) _
  · exact le_rfl

theorem Conservative.lose {y m : Nat} (h : Conservative w r now a) :
    Conservative w r now (((a.takePending x).takeSched y).withReservedPnl m) := by
  have line : (a.takePending x).OnLine now := h.onLine.takePending
  constructor
  · intro t later
    have less : ((a.takePending x).takeSched y).vesting now t ≤ a.vesting now t :=
      (line.takeSched_vesting later).trans Account.takePending_vesting
    exact (add_le_add_right less _).trans (h.within t later)
  · exact line.takeSched

theorem Account.rolledOver_vesting_le (h : a.OnLine now) (le : now ≤ t) :
    (a.rolledOver now).vesting now t ≤ a.vesting now t := by
  unfold rolledOver
  split_ifs with emptied present
  · have kept : (a.clearSched.promotePending now).vesting now t = a.pendingVesting now t := by
      simp [vesting, schedVesting, pendingVesting, promotePending, clearSched, present]
    rw [kept]
    exact le_add_of_nonneg_left (h.schedVesting_nonneg le)
  · exact add_le_add_left (h.schedVesting_nonneg le) _
  · exact le_rfl

theorem Account.OnLine.rolledOver (h : a.OnLine now) : (a.rolledOver now).OnLine now := by
  unfold Account.rolledOver
  split_ifs with emptied present
  · intro _
    have part : (0 : ℚ) ≤ vestedPart ℚ now a.pendingHorizon now := vestedPart_nonneg
    simp only [Account.promotePending, Account.clearSched, Nat.cast_zero]
    positivity
  · rintro ⟨⟩
  · exact h

theorem Conservative.warm (h : Conservative w r now a) (warm : Warm p now a x b) :
    Conservative w (r + x) now b := by
  cases warm with
  | idle buckets none => exact h
  | @line b eq buckets present started total x vested ahead released =>
      set c := (b.withSchedRemainingQ (b.schedRemainingQ - x)).withReservedPnl (b.reservedPnl - x) with hc
      have line : (c.withSchedReleaseQ total).OnLine now := by
        intro _
        rw [Account.withSchedReleaseQ_schedReleaseQ, vested]
        exact vestedUnits_le_exact
      constructor
      · intro t later
        have rolled := Account.rolledOver_vesting_le line later
        have out : (x : ℚ) ≤ total - b.schedReleaseQ := by
          rw [← Nat.cast_sub ahead, released]
          exact_mod_cast min_le_right _ _
        have moved : (c.withSchedReleaseQ total).vesting now t = b.vesting now t + b.schedReleaseQ - total := by
          simp [Account.vesting, Account.schedVesting, Account.pendingVesting, hc, present, Account.withSchedReleaseQ,
            Account.withSchedRemainingQ, Account.withReservedPnl]
          ring
        have before : b.vesting now t = a.vesting now t := by rw [eq, Account.promoted_vesting]
        have room := h.within t later
        rw [Nat.cast_add]
        unfold Account.afterRelease
        linarith
      · exact line.rolledOver

/-! A run, for any order of the operations and any slots. -/

/-- What an operation on the reserve of an account books. -/
inductive ReserveEntry where
  | appended (amount slot horizon : Nat)
  | released (amount : Nat)

def ReserveEntry.out : ReserveEntry → Nat
  | .appended _ _ _ => 0
  | .released x => x

/-- The part of an appended amount whose time has come by `t`. Without a horizon it is all of it. -/
def ReserveEntry.due (t : Nat) : ReserveEntry → ℚ
  | .appended x slot h => if h = 0 then x else x * (min (t - slot) h : Nat) / h
  | .released _ => 0

theorem ReserveEntry.due_appended {slot : Nat} :
    (ReserveEntry.appended x slot h).due t = x * vestedPart ℚ slot h t := by
  simp only [due]
  split_ifs with none
  · simp [none, vestedPart]
  · rw [vestedPart_eq_min (Nat.pos_of_ne_zero none), mul_div_assoc]

/-- One operation on the reserve of account `i` in a slot, or rest until a later slot, in which
anything else of the engine may change. -/
inductive ReserveTurn (i : Nat) : Nat × RiskEngine → List ReserveEntry → Nat × RiskEngine → Prop
  | rest {now now' : Nat} {s s' : RiskEngine} (le : now ≤ now')
      (same : (s.accounts i).SameReserve (s'.accounts i)) : ReserveTurn i (now, s) [] (now', s')
  | append {now x h : Nat} {s s' : RiskEngine} {l : List Event}
      (ok : appendOrRouteNewReserve i x now h s = .ok () s' l) :
      ReserveTurn i (now, s) [.appended x now h] (now, s')
  | warm {now x : Nat} {s s' : RiskEngine} {l : List Event} (slot : s.currentSlot = now)
      (ok : advanceProfitWarmup i s = .ok () s' l) (gain : s'.pnlMaturedPosTot = s.pnlMaturedPosTot + x) :
      ReserveTurn i (now, s) [.released x] (now, s')
  | lose {now n : Nat} {s s' : RiskEngine} {l : List Event}
      (ok : applyReserveLossNewestFirst i n s = .ok () s' l) : ReserveTurn i (now, s) [] (now, s')

theorem ReserveTurn.clock (le : now ≤ now') : ReserveTurn i (now, s) [] (now', s.withCurrentSlot now') :=
  .rest le (.refl _)

/-- There is no bucket. -/
structure Account.Unreserved (a : Account) : Prop where
  sched : a.schedPresent = false
  pending : a.pendingPresent = false

theorem Account.Unreserved.conservative (none : a.Unreserved) : Conservative (fun _ => 0) 0 now a := by
  constructor
  · intro t _
    simp [Account.vesting, Account.schedVesting, Account.pendingVesting, none.sched, none.pending]
  · intro present
    exact absurd (none.sched.symm.trans present) (by decide)

variable {c c' : Nat × RiskEngine} {es es' : List ReserveEntry}

theorem ReserveTurn.conservative (turn : ReserveTurn i c es c') (h : Conservative w r c.1 (c.2.accounts i)) :
    Conservative (fun t => w t + (es.map (·.due t)).sum) (r + (es.map (·.out)).sum) c'.1 (c'.2.accounts i) := by
  cases turn with
  | rest le same => simpa using h.rest le same
  | append ok =>
      obtain ⟨a', rfl, -, routed⟩ := appendOrRouteNewReserve_routed ok
      have step := h.append routed
      simpa [ReserveEntry.due_appended, ReserveEntry.out] using step
  | @warm _ x s s' _ slot ok gain =>
      obtain ⟨x', a', rfl, warm⟩ := advanceProfitWarmup_warm ok
      have same : x' = x := Nat.add_left_cancel gain
      rw [slot, same] at warm
      have step := h.warm warm
      simpa [ReserveEntry.due, ReserveEntry.out] using step
  | lose ok =>
      obtain ⟨y, z, m, rfl, -⟩ := applyReserveLossNewestFirst_taken ok
      have step := h.lose (x := y) (y := z) (m := m)
      simpa using step

theorem Run.reserve_conservative (run : Run (ReserveTurn i) c es c') (none : (c.2.accounts i).Unreserved) :
    Conservative (fun t => (es.map (·.due t)).sum) (es.map (·.out)).sum c'.1 (c'.2.accounts i) := by
  induction run with
  | refl => exact none.conservative
  | tail run last ih =>
      have step := last.conservative ih
      simpa [List.map_append, List.sum_append] using step

/-- The scheduled bucket is on the same line. -/
structure Account.SameLine (a b : Account) : Prop where
  present : b.schedPresent = a.schedPresent
  anchor : b.schedAnchorQ = a.schedAnchorQ
  start : b.schedStartSlot = a.schedStartSlot
  horizon : b.schedHorizon = a.schedHorizon
  released : b.schedReleaseQ = a.schedReleaseQ

theorem Routed.sameLine (routed : Routed now x h (a.promoted now) b) (present : a.schedPresent = true)
    (earlier : a.schedStartSlot < now) : a.SameLine b := by
  have still : a.promoted now = a := by simp [Account.promoted, present]
  rw [still] at routed
  cases routed with
  | opened absent => exact absurd (absent.symm.trans present) (by decide)
  | joined _ _ slot => exact absurd slot earlier.ne
  | waiting => exact ⟨rfl, rfl, rfl, rfl, rfl⟩
  | merged => exact ⟨rfl, rfl, rfl, rfl, rfl⟩

theorem reserve_never_early (run : Run (ReserveTurn i) c es c') (none : (c.2.accounts i).Unreserved)
    (le : c'.1 ≤ t) : ((es.map (·.out)).sum : Nat) ≤ (es.map (·.due t)).sum ∧
      ∀ s x slot h s' l, appendOrRouteNewReserve i x slot h s = .ok () s' l →
        (s.accounts i).schedPresent = true → (s.accounts i).schedStartSlot < slot →
        (s.accounts i).SameLine (s'.accounts i) := by
  constructor
  · have conservative := run.reserve_conservative none
    have rest := conservative.onLine.vesting_nonneg le
    have within := conservative.within t le
    linarith
  · intro s x slot h s' l ok present earlier
    obtain ⟨b, rfl, -, routed⟩ := appendOrRouteNewReserve_routed ok
    rw [RiskEngine.setAccount_accounts, put_same]
    exact routed.sameLine present earlier

/-- A market in which account 1 has just gained 100. -/
def gainingMarket : RiskEngine :=
  (tradedMarket.withPnlPosTot 100).setAccount 1 { tradedMarket.accounts 1 with pnl := 100 }

/-- It reserves 60 of them over 20 slots. -/
def waitingMarket : RiskEngine := (appendOrRouteNewReserve 1 60 101 20 gainingMarket).final

def maturingMarket : RiskEngine := waitingMarket.withCurrentSlot 106

theorem gainingMarket_never_early :
    (15 : Nat) ≤ (([.appended 60 101 20, .released 15] : List ReserveEntry).map (·.due 106)).sum := by
  obtain ⟨_, l, ok⟩ := Outcome.eq_ok (o := appendOrRouteNewReserve 1 60 101 20 gainingMarket) (by decide +kernel)
  obtain ⟨_, l', ok'⟩ := Outcome.eq_ok (o := advanceProfitWarmup 1 maturingMarket) (by decide +kernel)
  have append : ReserveTurn 1 (101, gainingMarket) [.appended 60 101 20] (101, waitingMarket) := .append ok
  have rest : ReserveTurn 1 (101, waitingMarket) [] (106, maturingMarket) := .clock (by decide)
  have warm : ReserveTurn 1 (106, maturingMarket) [.released 15] (106, (advanceProfitWarmup 1 maturingMarket).final) :=
    .warm (by decide +kernel) ok' (by decide +kernel)
  have run := ((Run.single append).tail rest).tail warm
  have none : (gainingMarket.accounts 1).Unreserved := ⟨by decide +kernel, by decide +kernel⟩
  exact (reserve_never_early run none le_rfl).1

end Percolator
