import Percolator.Engine.Reserve

/-!
What the reserve helpers do: the buckets stay well shaped, the reserve changes
by the amount asked for, and the part of it that a schedule could release in the
current slot is never replenished.
-/

namespace Percolator

open Effect

/-- The shape of the two buckets, without their relation to PnL. -/
structure Buckets (p : RiskParams) (a : Account) : Prop where
  schedAbsent : a.schedPresent = false → a.schedRemainingQ = 0 ∧ a.schedAnchorQ = 0 ∧
    a.schedStartSlot = 0 ∧ a.schedHorizon = 0 ∧ a.schedReleaseQ = 0
  schedPresent : a.schedPresent = true → 0 < a.schedHorizon ∧ p.hMin ≤ a.schedHorizon ∧
    a.schedHorizon ≤ p.hMax ∧ a.schedRemainingQ + a.schedReleaseQ ≤ U128_MAX ∧
    a.schedRemainingQ + a.schedReleaseQ ≤ a.schedAnchorQ ∧ 0 < a.schedRemainingQ
  pendingAbsent : a.pendingPresent = false → a.pendingRemainingQ = 0 ∧ a.pendingHorizon = 0 ∧
    a.pendingCreatedSlot = 0
  pendingPresent : a.pendingPresent = true → 0 < a.pendingHorizon ∧ p.hMin ≤ a.pendingHorizon ∧
    a.pendingHorizon ≤ p.hMax ∧ 0 < a.pendingRemainingQ
  total : a.schedRemainingQ + a.pendingRemainingQ ≤ U128_MAX ∧
    a.schedRemainingQ + a.pendingRemainingQ = a.reservedPnl

theorem Buckets.schedHeld_eq {p : RiskParams} {a : Account} (h : Buckets p a) :
    a.schedHeld = a.schedRemainingQ := by
  cases hs : a.schedPresent with
  | true => simp [Account.schedHeld, hs]
  | false => simp [Account.schedHeld, hs, (h.schedAbsent hs).1]

theorem Buckets.pendingHeld_eq {p : RiskParams} {a : Account} (h : Buckets p a) :
    a.pendingHeld = a.pendingRemainingQ := by
  cases hs : a.pendingPresent with
  | true => simp [Account.pendingHeld, hs]
  | false => simp [Account.pendingHeld, hs, (h.pendingAbsent hs).1]

/-- A reserve shape is two well-shaped buckets under the positive PnL. -/
theorem reserveShape_iff {p : RiskParams} {a : Account} :
    ReserveShape p a ↔ Buckets p a ∧ a.reservedPnl ≤ i128ClampPos a.pnl := by
  constructor
  · rintro ⟨h1, h2, h3, h4, h5, h6⟩
    have hs : a.schedHeld = a.schedRemainingQ := by
      cases hs : a.schedPresent with
      | true => simp [Account.schedHeld, hs]
      | false => simp [Account.schedHeld, hs, (h1 hs).1]
    have hp : a.pendingHeld = a.pendingRemainingQ := by
      cases hs : a.pendingPresent with
      | true => simp [Account.pendingHeld, hs]
      | false => simp [Account.pendingHeld, hs, (h3 hs).1]
    rw [hs, hp] at h5
    exact ⟨⟨h1, h2, h3, h4, h5⟩, h6⟩
  · rintro ⟨hb, h6⟩
    refine ⟨hb.schedAbsent, hb.schedPresent, hb.pendingAbsent, hb.pendingPresent, ?_, h6⟩
    rw [hb.schedHeld_eq, hb.pendingHeld_eq]
    exact hb.total

theorem Buckets.sched_absent {p : RiskParams} {a : Account} (h : Buckets p a)
    (hr : a.schedRemainingQ = 0) : a.schedPresent = false := by
  cases hs : a.schedPresent with
  | false => rfl
  | true => have := h.schedPresent hs; omega

theorem Buckets.pending_absent {p : RiskParams} {a : Account} (h : Buckets p a)
    (hr : a.pendingRemainingQ = 0) : a.pendingPresent = false := by
  cases hs : a.pendingPresent with
  | false => rfl
  | true => have := h.pendingPresent hs; omega

theorem Buckets.empty {p : RiskParams} {a : Account} (h : Buckets p a) (hr : a.reservedPnl = 0) :
    a.schedPresent = false ∧ a.pendingPresent = false := by
  have := h.total
  exact ⟨h.sched_absent (by omega), h.pending_absent (by omega)⟩

/-- The accounts agree except in their PnL and reserve. -/
def Account.SameButPnl (a a' : Account) : Prop :=
  a' = { a with
    pnl := a'.pnl, reservedPnl := a'.reservedPnl
    schedPresent := a'.schedPresent, schedRemainingQ := a'.schedRemainingQ
    schedAnchorQ := a'.schedAnchorQ, schedStartSlot := a'.schedStartSlot
    schedHorizon := a'.schedHorizon, schedReleaseQ := a'.schedReleaseQ
    pendingPresent := a'.pendingPresent, pendingRemainingQ := a'.pendingRemainingQ
    pendingHorizon := a'.pendingHorizon, pendingCreatedSlot := a'.pendingCreatedSlot }

theorem Account.SameButPnl.trans {a b c : Account} (h : a.SameButPnl b) (h' : b.SameButPnl c) :
    a.SameButPnl c := by
  unfold SameButPnl at *
  rw [h'] at *
  rw [h]

/-- What the scheduled bucket could release in slot `t`: its remainder, if it
started before `t`. -/
def Account.releasable (t : Nat) (a : Account) : Nat :=
  if a.schedPresent = true ∧ a.schedStartSlot < t then a.schedRemainingQ else 0

/-- No bucket started after slot `t`. -/
structure Account.StartedBy (t : Nat) (a : Account) : Prop where
  sched : a.schedPresent = true → a.schedStartSlot ≤ t
  pending : a.pendingPresent = true → a.pendingCreatedSlot ≤ t

theorem checkedAddU128_eq {x y z : Nat} (h : checkedAddU128 x y = some z) :
    z = x + y ∧ z ≤ U128_MAX := by
  unfold checkedAddU128 at h
  split at h <;> simp_all

theorem checkedSub_eq {x y z : Nat} (h : checkedSub x y = some z) : x = z + y := by
  unfold checkedSub at h
  split at h
  · simp only [Option.some.injEq] at h; omega
  · cases h

section Buckets

variable {p : RiskParams} {a : Account} {s s' : RiskEngine} {l : List Event} {i now add : Nat}

theorem Account.promoted_same : a.SameButPnl (a.promoted now) := by
  unfold promoted
  split <;> rfl

theorem Account.promoted_pnl : (a.promoted now).pnl = a.pnl := by
  unfold promoted
  split <;> rfl

theorem Account.promoted_reservedPnl : (a.promoted now).reservedPnl = a.reservedPnl := by
  unfold promoted
  split <;> rfl

theorem Account.promoted_releasable : (a.promoted now).releasable now = a.releasable now := by
  unfold promoted
  split
  case isTrue h => simp [releasable, promotePending, h.1]
  case isFalse => rfl

theorem Account.StartedBy.promoted (h : a.StartedBy now) : (a.promoted now).StartedBy now := by
  unfold Account.promoted
  split
  · exact ⟨fun _ => le_rfl, (by rintro ⟨⟩)⟩
  · exact h

theorem Account.promoted_pending (h : (a.promoted now).schedPresent = false) :
    (a.promoted now).pendingPresent = false := by
  unfold promoted at *
  split at h
  case isTrue => simp [promotePending] at h
  case isFalse hc => rw [if_neg hc]; simpa [h] using hc

theorem Buckets.promoted (h : Buckets p a) : Buckets p (a.promoted now) := by
  unfold Account.promoted
  split
  case isFalse => exact h
  case isTrue hc =>
    have hs := h.schedAbsent hc.1
    have hp := h.pendingPresent hc.2
    have ht := h.total
    refine ⟨by simp [Account.promotePending], fun _ => ?_, by simp [Account.promotePending],
      by simp [Account.promotePending], ?_⟩ <;>
    · simp only [Account.promotePending]; omega

/-- New reserve of `add` in account `a`, entered in slot `now`. -/
structure Appended (p : RiskParams) (add now : Nat) (a a' : Account) : Prop where
  same : a.SameButPnl a'
  pnl_eq : a'.pnl = a.pnl
  reserved : a'.reservedPnl = a.reservedPnl + add
  buckets : Buckets p a'
  releasable : a'.releasable now = a.releasable now
  started : a.StartedBy now → a'.StartedBy now

/-- Appending to an account whose pending bucket was promoted. -/
theorem Appended.of_promoted {a' : Account} (h : Appended p add now (a.promoted now) a') :
    Appended p add now a a' where
  same := Account.promoted_same.trans h.same
  pnl_eq := h.pnl_eq.trans Account.promoted_pnl
  reserved := by rw [h.reserved, Account.promoted_reservedPnl]
  buckets := h.buckets
  releasable := h.releasable.trans Account.promoted_releasable
  started := fun ha => h.started ha.promoted

/-- New reserve goes into a fresh schedule, the schedule opened in this slot, or
the pending bucket. -/
theorem appendOrRouteNewReserve_spec {h : Nat}
    (hok : appendOrRouteNewReserve i add now h s = .ok () s' l) (hadd : 0 < add)
    (hh : 0 < h ∧ s.params.hMin ≤ h ∧ h ≤ s.params.hMax) :
    ∃ a', s' = s.setAccount i a' ∧ l = [] ∧ Appended s.params add now (s.accounts i) a' := by
  refine wp_sound (Q := fun _ s' l =>
    ∃ a', s' = s.setAccount i a' ∧ l = [] ∧ Appended s.params add now (s.accounts i) a') hok ?_
  simp only [appendOrRouteNewReserve, validateReserveShape, wp_bind, wp_read, wp_rejectIf,
    wp_writeAccount, wp_ite, wp_orErr, Bool.not_eq_false, implies_true, true_and,
    RiskEngine.setAccount_setAccount, RiskEngine.setAccount_accounts, put_same]
  intro hshape
  have hb : Buckets s.params ((s.accounts i).promoted now) :=
    (reserveShape_iff.mp (reserveShapeCheck_iff.mp hshape)).1.promoted
  have hpending : ((s.accounts i).promoted now).schedPresent = false →
      ((s.accounts i).promoted now).pendingPresent = false := Account.promoted_pending
  suffices H : ∀ a', Appended s.params add now ((s.accounts i).promoted now) a' →
      ∃ a'', s.setAccount i a' = s.setAccount i a'' ∧
        Appended s.params add now (s.accounts i) a'' by
    generalize (s.accounts i).promoted now = b at *
    have ht := hb.total
    refine ⟨fun hs r hr => H _ ?_, fun hs => ⟨fun hc r₁ h₁ r₂ h₂ r hr => H _ ?_,
      fun hc => ⟨fun hp r hr => H _ ?_, fun hp r₁ h₁ r hr => H _ ?_⟩⟩⟩
    · -- a fresh schedule
      have hr := checkedAddU128_eq hr
      have hs' := hb.schedAbsent hs
      have hp' := hb.pendingAbsent (hpending hs)
      refine ⟨rfl, rfl, hr.1, ⟨(by rintro ⟨⟩), fun _ => ⟨hh.1, hh.2.1, hh.2.2, ?_, ?_, hadd⟩,
        fun _ => hp', hb.pendingPresent, ?_⟩, ?_, fun h => ⟨fun _ => le_rfl, h.pending⟩⟩
      · show add + 0 ≤ _; omega
      · show add + 0 ≤ add; omega
      · show add + b.pendingRemainingQ ≤ _ ∧ add + b.pendingRemainingQ = r
        omega
      · simp [Account.releasable, Account.openSched, hs]
    · -- the schedule opened in this slot
      have h₁ := checkedAddU128_eq h₁
      have h₂ := checkedAddU128_eq h₂
      have hr := checkedAddU128_eq hr
      have hs' := hb.schedPresent hs
      refine ⟨rfl, rfl, hr.1, ⟨fun h => absurd (hs.symm.trans h) (by rintro ⟨⟩), fun _ => ?_,
        hb.pendingAbsent, hb.pendingPresent, ?_⟩, ?_, fun h => ⟨h.sched, h.pending⟩⟩
      · show 0 < b.schedHorizon ∧ s.params.hMin ≤ b.schedHorizon ∧ b.schedHorizon ≤ s.params.hMax ∧
          r₁ + b.schedReleaseQ ≤ U128_MAX ∧ r₁ + b.schedReleaseQ ≤ r₂ ∧ 0 < r₁
        omega
      · show r₁ + b.pendingRemainingQ ≤ _ ∧ r₁ + b.pendingRemainingQ = r
        omega
      · simp [Account.releasable, hc.2.1]
    · -- a fresh pending bucket
      have hr := checkedAddU128_eq hr
      have hp' := hb.pendingAbsent hp
      refine ⟨rfl, rfl, hr.1, ⟨hb.schedAbsent, hb.schedPresent, (by rintro ⟨⟩),
        fun _ => ⟨hh.1, hh.2.1, hh.2.2, hadd⟩, ?_⟩, rfl, fun h => ⟨h.sched, fun _ => le_rfl⟩⟩
      show b.schedRemainingQ + add ≤ _ ∧ b.schedRemainingQ + add = r
      omega
    · -- the pending bucket there is
      have h₁ := checkedAddU128_eq h₁
      have hr := checkedAddU128_eq hr
      have hp' : b.pendingPresent = true := by simpa using hp
      have hq := hb.pendingPresent hp'
      refine ⟨rfl, rfl, hr.1, ⟨hb.schedAbsent, hb.schedPresent,
        fun h => absurd (hp'.symm.trans h) (by rintro ⟨⟩), fun _ => ?_, ?_⟩, rfl, fun h => ⟨h.sched, h.pending⟩⟩
      · show 0 < max b.pendingHorizon h ∧ s.params.hMin ≤ max b.pendingHorizon h ∧
          max b.pendingHorizon h ≤ s.params.hMax ∧ 0 < r₁
        omega
      · show b.schedRemainingQ + r₁ ≤ _ ∧ b.schedRemainingQ + r₁ = r
        omega
  exact fun a' ha' => ⟨a', rfl, ha'.of_promoted⟩

theorem Account.takePending_remaining {t : Nat} : (a.takePending t).pendingRemainingQ = a.pendingRemainingQ - t := by
  unfold takePending
  split_ifs with h h' 
  · omega
  · exact h'.symm
  · rfl

theorem Account.takeSched_remaining {t : Nat} : (a.takeSched t).schedRemainingQ = a.schedRemainingQ - t := by
  unfold takeSched
  split_ifs with h h' 
  · omega
  · exact h'.symm
  · rfl

theorem Account.takePending_same {t : Nat} : a.SameButPnl (a.takePending t) := by
  unfold takePending
  split_ifs <;> rfl

theorem Account.takeSched_same {t : Nat} : a.SameButPnl (a.takeSched t) := by
  unfold takeSched
  split_ifs <;> rfl

/-- Taking from the pending bucket and lowering the reserve by as much. -/
theorem Buckets.takePending {t : Nat} (h : Buckets p a) (ht : t ≤ a.pendingRemainingQ) :
    Buckets p { a.takePending t with reservedPnl := a.reservedPnl - t } := by
  have hr := a.takePending_remaining (t := t)
  have := h.total
  unfold Account.takePending at *
  split_ifs at * with h0 h1
  · subst h0; exact h
  · exact ⟨h.schedAbsent, h.schedPresent, fun _ => ⟨rfl, rfl, rfl⟩, (by rintro ⟨⟩), by
      show a.schedRemainingQ + 0 ≤ _ ∧ a.schedRemainingQ + 0 = a.reservedPnl - t; omega⟩
  · have hp : a.pendingPresent = true := by
      cases hp : a.pendingPresent with
      | true => rfl
      | false => have := h.pendingAbsent hp; omega
    have hq := h.pendingPresent hp
    refine ⟨h.schedAbsent, h.schedPresent, fun hn => absurd (hp.symm.trans hn) (by rintro ⟨⟩),
      fun _ => ⟨hq.1, hq.2.1, hq.2.2.1, by show 0 < a.pendingRemainingQ - t; omega⟩, ?_⟩
    show a.schedRemainingQ + (a.pendingRemainingQ - t) ≤ _ ∧ a.schedRemainingQ + (a.pendingRemainingQ - t) = a.reservedPnl - t
    omega

/-- Taking from the scheduled bucket and lowering the reserve by as much. -/
theorem Buckets.takeSched {t : Nat} (h : Buckets p a) (ht : t ≤ a.schedRemainingQ) :
    Buckets p { a.takeSched t with reservedPnl := a.reservedPnl - t } := by
  have := h.total
  unfold Account.takeSched at *
  split_ifs at * with h0 h1
  · subst h0; exact h
  · exact ⟨fun _ => ⟨rfl, rfl, rfl, rfl, rfl⟩, (by rintro ⟨⟩), h.pendingAbsent, h.pendingPresent, by
      show 0 + a.pendingRemainingQ ≤ _ ∧ 0 + a.pendingRemainingQ = a.reservedPnl - t; omega⟩
  · have hp : a.schedPresent = true := by
      cases hp : a.schedPresent with
      | true => rfl
      | false => have := h.schedAbsent hp; omega
    have hq := h.schedPresent hp
    refine ⟨fun hn => absurd (hp.symm.trans hn) (by rintro ⟨⟩), fun _ => ?_, h.pendingAbsent, h.pendingPresent, ?_⟩
    · show 0 < a.schedHorizon ∧ p.hMin ≤ a.schedHorizon ∧ a.schedHorizon ≤ p.hMax ∧
          a.schedRemainingQ - t + a.schedReleaseQ ≤ U128_MAX ∧ a.schedRemainingQ - t + a.schedReleaseQ ≤ a.schedAnchorQ ∧ 0 < a.schedRemainingQ - t
      omega
    · show a.schedRemainingQ - t + a.pendingRemainingQ ≤ _ ∧ a.schedRemainingQ - t + a.pendingRemainingQ = a.reservedPnl - t
      omega

/-- Reserve lowered by `loss`. -/
structure Reduced (p : RiskParams) (loss : Nat) (a a' : Account) : Prop where
  same : a.SameButPnl a'
  pnl_eq : a'.pnl = a.pnl
  reserved : a'.reservedPnl + loss = a.reservedPnl
  buckets : Buckets p a'
  releasable : ∀ t, a'.releasable t ≤ a.releasable t
  started : ∀ t, a.StartedBy t → a'.StartedBy t

theorem Account.StartedBy.takePending {t n : Nat} (h : a.StartedBy t) : (a.takePending n).StartedBy t := by
  unfold Account.takePending
  split_ifs
  · exact h
  · exact ⟨h.sched, (by rintro ⟨⟩)⟩
  · exact ⟨h.sched, h.pending⟩

theorem Account.StartedBy.takeSched {t n : Nat} (h : a.StartedBy t) : (a.takeSched n).StartedBy t := by
  unfold Account.takeSched
  split_ifs
  · exact h
  · exact ⟨(by rintro ⟨⟩), h.pending⟩
  · exact ⟨h.sched, h.pending⟩

theorem Account.takePending_releasable {t n : Nat} : (a.takePending n).releasable t = a.releasable t := by
  unfold takePending
  split_ifs <;> rfl

theorem Account.takeSched_releasable {t n : Nat} : (a.takeSched n).releasable t ≤ a.releasable t := by
  unfold takeSched
  split_ifs
  · exact le_rfl
  · simp [releasable, clearSched]
  · show (if a.schedPresent = true ∧ a.schedStartSlot < t then a.schedRemainingQ - n else 0) ≤ _
    unfold releasable
    split_ifs
    · omega
    · exact le_rfl

theorem Account.takePending_pnl {n : Nat} : (a.takePending n).pnl = a.pnl := by
  unfold takePending
  split_ifs <;> rfl

theorem Account.takeSched_pnl {n : Nat} : (a.takeSched n).pnl = a.pnl := by
  unfold takeSched
  split_ifs <;> rfl

theorem Account.takePending_sched {n : Nat} : (a.takePending n).schedRemainingQ = a.schedRemainingQ := by
  unfold takePending
  split_ifs <;> rfl

theorem Account.takeSched_reserved {n x y : Nat} :
    { ({ a with reservedPnl := x } : Account).takeSched n with reservedPnl := y } =
      { a.takeSched n with reservedPnl := y } := by
  unfold takeSched
  split_ifs <;> rfl

/-- A loss takes the pending bucket first and then the scheduled one. -/
theorem applyReserveLossNewestFirst_spec {loss : Nat}
    (hok : applyReserveLossNewestFirst i loss s = .ok () s' l) :
    ∃ a', s' = s.setAccount i a' ∧ l = [] ∧ Reduced s.params loss (s.accounts i) a' := by
  refine wp_sound (Q := fun _ s' l =>
    ∃ a', s' = s.setAccount i a' ∧ l = [] ∧ Reduced s.params loss (s.accounts i) a') hok ?_
  simp only [applyReserveLossNewestFirst, validateReserveShape, wp_bind, wp_read, wp_rejectIf,
    wp_writeAccount, wp_orErr, Bool.not_eq_false, implies_true, true_and, not_lt]
  intro hshape total htotal hle r hr
  obtain ⟨hb, -⟩ := reserveShape_iff.mp (reserveShapeCheck_iff.mp hshape)
  have htotal := checkedAddU128_eq htotal
  have hr := checkedSub_eq hr
  rw [hb.schedHeld_eq, hb.pendingHeld_eq] at htotal
  rw [hb.pendingHeld_eq]
  generalize s.accounts i = a at *
  have hp := hb.takePending (t := min loss a.pendingRemainingQ) (min_le_right _ _)
  have hs := hp.takeSched (t := loss - min loss a.pendingRemainingQ) (by
    show _ ≤ (a.takePending _).schedRemainingQ; rw [Account.takePending_sched]; omega)
  rw [Account.takeSched_reserved, show a.reservedPnl - min loss a.pendingRemainingQ -
    (loss - min loss a.pendingRemainingQ) = r by omega] at hs
  have hsame := Account.takePending_same.trans
    (Account.takeSched_same (a := a.takePending (min loss a.pendingRemainingQ))
      (t := loss - min loss a.pendingRemainingQ))
  refine ⟨_, rfl, hsame.trans rfl, (Account.takeSched_pnl.trans Account.takePending_pnl), hr.symm, hs,
    fun t => Account.takeSched_releasable.trans Account.takePending_releasable.le, fun t ht => ?_⟩
  have := ht.takePending (n := min loss a.pendingRemainingQ)
  have := this.takeSched (n := loss - min loss a.pendingRemainingQ)
  exact ⟨this.sched, this.pending⟩

theorem schedTotal_le {anchor elapsed horizon total : Nat}
    (h : schedTotal anchor elapsed horizon = some total) : total ≤ anchor := by
  unfold schedTotal mulDivFloorU128 at h
  split_ifs at h with h1 h2
  · simp at h; omega
  · simp only [Option.some.injEq] at h
    subst h
    refine Nat.div_le_of_le_mul ?_
    rw [Nat.mul_comm]
    exact Nat.mul_le_mul_right _ (by omega)

theorem schedTotal_zero {anchor horizon total : Nat} (h : schedTotal anchor 0 horizon = some total)
    (hh : 0 < horizon) : total = 0 := by
  unfold schedTotal mulDivFloorU128 at h
  split_ifs at h with h1 h2
  · omega
  · simpa using h.symm

/-- The schedule of `a` released `r` in slot `now`. -/
structure Warmed (p : RiskParams) (now r : Nat) (a a' : Account) : Prop where
  same : a.SameButPnl a'
  pnl_eq : a'.pnl = a.pnl
  reserved : a'.reservedPnl + r = a.reservedPnl
  buckets : Buckets p a'
  releasable : a'.releasable now + r ≤ a.releasable now
  started : a.StartedBy now → a'.StartedBy now

/-- The schedule after `r` was released up to `total`, emptied or not. -/
def Account.afterRelease (a : Account) (now r total : Nat) : Account :=
  (((a.withSchedRemainingQ (a.schedRemainingQ - r)).withReservedPnl
    (a.reservedPnl - r)).withSchedReleaseQ total).rolledOver now

theorem Warmed.afterRelease {r total : Nat} (h : Buckets p a) (hs : a.schedPresent = true)
    (hr : r = min a.schedRemainingQ (total - a.schedReleaseQ)) (ht : a.schedReleaseQ ≤ total)
    (hstart : a.schedStartSlot ≤ now)
    (htotal : schedTotal a.schedAnchorQ (now - a.schedStartSlot) a.schedHorizon = some total) :
    Warmed p now r a (a.afterRelease now r total) := by
  have hq := h.schedPresent hs
  have hsum := h.total
  have hle := schedTotal_le htotal
  -- nothing is released in the slot in which the schedule started
  have hrel : r ≤ a.releasable now := by
    unfold Account.releasable
    split_ifs with hlt
    · omega
    · have : a.schedStartSlot = now := by simp only [hs, true_and, not_lt] at hlt; omega
      rw [this, Nat.sub_self] at htotal
      have := schedTotal_zero htotal hq.1
      omega
  have hrel' : a.releasable now ≤ a.schedRemainingQ := by unfold Account.releasable; split_ifs <;> omega
  unfold Account.afterRelease Account.rolledOver
  split_ifs with h0 hp
  · -- emptied, and the pending bucket starts
    have hp' := h.pendingPresent hp
    have h0 : a.schedRemainingQ - r = 0 := h0
    refine ⟨rfl, rfl, ?_, ⟨(by rintro ⟨⟩), fun _ => ⟨hp'.1, hp'.2.1, hp'.2.2.1, ?_, ?_, hp'.2.2.2⟩,
      fun _ => ⟨rfl, rfl, rfl⟩, (by rintro ⟨⟩), ?_⟩, ?_, fun _ => ⟨fun _ => le_rfl, (by rintro ⟨⟩)⟩⟩
    · show a.reservedPnl - r + r = a.reservedPnl; omega
    · show a.pendingRemainingQ + 0 ≤ _; omega
    · show a.pendingRemainingQ + 0 ≤ a.pendingRemainingQ; omega
    · show a.pendingRemainingQ + 0 ≤ _ ∧ a.pendingRemainingQ + 0 = a.reservedPnl - r; omega
    · have : ¬ (now < now) := lt_irrefl _
      show (if true = true ∧ now < now then a.pendingRemainingQ else 0) + r ≤ _
      rw [if_neg (by simp)]; omega
  · -- emptied, with nothing pending
    have h0 : a.schedRemainingQ - r = 0 := h0
    have hp' := h.pendingAbsent (by simpa using hp)
    refine ⟨rfl, rfl, ?_, ⟨fun _ => ⟨rfl, rfl, rfl, rfl, rfl⟩, (by rintro ⟨⟩), h.pendingAbsent, h.pendingPresent,
      ?_⟩, ?_, fun h => ⟨(by rintro ⟨⟩), h.pending⟩⟩
    · show a.reservedPnl - r + r = a.reservedPnl; omega
    · show 0 + a.pendingRemainingQ ≤ _ ∧ 0 + a.pendingRemainingQ = a.reservedPnl - r; omega
    · show 0 + r ≤ _; omega
  · -- still running
    have h0 : a.schedRemainingQ - r ≠ 0 := h0
    refine ⟨rfl, rfl, ?_, ⟨fun hn => absurd (hs.symm.trans hn) (by rintro ⟨⟩), fun _ => ?_, h.pendingAbsent,
      h.pendingPresent, ?_⟩, ?_, fun h => ⟨h.sched, h.pending⟩⟩
    · show a.reservedPnl - r + r = a.reservedPnl; omega
    · show 0 < a.schedHorizon ∧ p.hMin ≤ a.schedHorizon ∧ a.schedHorizon ≤ p.hMax ∧
        a.schedRemainingQ - r + total ≤ _ ∧ a.schedRemainingQ - r + total ≤ a.schedAnchorQ ∧
        0 < a.schedRemainingQ - r
      omega
    · show a.schedRemainingQ - r + a.pendingRemainingQ ≤ _ ∧
        a.schedRemainingQ - r + a.pendingRemainingQ = a.reservedPnl - r
      omega
    · show (if a.schedPresent = true ∧ a.schedStartSlot < now then a.schedRemainingQ - r else 0) + r ≤ _
      unfold Account.releasable at *
      split_ifs at * <;> omega

/-- Releasing from an account whose pending bucket was promoted. -/
theorem Warmed.of_promoted {r : Nat} {a' : Account} (h : Warmed p now r (a.promoted now) a') :
    Warmed p now r a a' where
  same := Account.promoted_same.trans h.same
  pnl_eq := h.pnl_eq.trans Account.promoted_pnl
  reserved := h.reserved.trans Account.promoted_reservedPnl
  buckets := h.buckets
  releasable := h.releasable.trans_eq Account.promoted_releasable
  started := fun ha => h.started ha.promoted

/-- What `advance_profit_warmup` does to account `i`, with the events `l`. -/
def WarmStep (i : Nat) (s s' : RiskEngine) (l : List Event) : Prop :=
  ∃ a' r, s' = s.rebook i a' { s.totals with pnlMaturedPosTot := s.pnlMaturedPosTot + r } ∧
    (l = [] ∧ r = 0 ∨ l = [.released i r]) ∧ Warmed s.params s.currentSlot r (s.accounts i) a'

/-- What a release leaves, also when nothing is released. -/
theorem releaseSched_spec {r : Nat} (hok : releaseSched i r s = .ok () s' l) :
    s' = (s.setAccount i (((s.accounts i).withSchedRemainingQ
        ((s.accounts i).schedRemainingQ - r)).withReservedPnl
        ((s.accounts i).reservedPnl - r))).withPnlMaturedPosTot (s.pnlMaturedPosTot + r) ∧
      (l = [] ∧ r = 0 ∨ l = [.released i r]) := by
  refine wp_sound (Q := fun _ s' l => s' = _ ∧ (l = [] ∧ r = 0 ∨ l = [.released i r])) hok ?_
  simp only [releaseSched, wp_bind, wp_read, wp_whenever, wp_orErr, wp_writeAccount, wp_update,
    wp_emit, implies_true, true_and, RiskEngine.setAccount_accounts, put_same,
    RiskEngine.setAccount_setAccount]
  refine ⟨fun _ r₁ h₁ r₂ h₂ m hm => ⟨?_, .inr rfl⟩, fun h => ⟨?_, .inl (by omega)⟩⟩
  · rw [(checkedAddU128_eq hm).1, show r₁ = (s.accounts i).schedRemainingQ - r by
      have := checkedSub_eq h₁; omega, show r₂ = (s.accounts i).reservedPnl - r by
      have := checkedSub_eq h₂; omega]
  · have : r = 0 := by omega
    subst this
    exact (s.setAccount_eta i).symm

/-- The warmup keeps the buckets well shaped and releases at most what could be
released. -/
theorem advanceProfitWarmup_spec (hok : advanceProfitWarmup i s = .ok () s' l) :
    WarmStep i s s' l := by
  refine wp_sound (Q := fun _ s' l => WarmStep i s s' l) hok ?_
  simp only [advanceProfitWarmup, validateReserveShape, wp_bind, wp_read, wp_rejectIf, wp_ite,
    wp_writeAccount, wp_expect, wp_pure, Bool.not_eq_false, implies_true, true_and, not_lt,
    RiskEngine.setAccount_accounts, put_same, RiskEngine.setAccount_currentSlot]
  intro hshape
  have hb := (reserveShape_iff.mp (reserveShapeCheck_iff.mp hshape)).1
  refine ⟨fun h0 => ?_, fun h0 hs hstart _ total htotal hrel => wp_ok fun _ s' l hok => ?_⟩
  · exact ⟨s.accounts i, 0, (s.rebook_eta i).symm, .inl ⟨rfl, rfl⟩, rfl, rfl, rfl, hb, le_rfl, id⟩
  · obtain ⟨rfl, hl⟩ := releaseSched_spec hok
    have hw := Warmed.afterRelease hb.promoted hs rfl hrel hstart htotal
    simp only [RiskEngine.setAccount_accounts, RiskEngine.withPnlMaturedPosTot_accounts, put_same]
    refine fun _ _ => ⟨_, _, ?_, hl, hw.of_promoted⟩
    simp only [RiskEngine.setAccount_setAccount, RiskEngine.withPnlMaturedPosTot_setAccount,
      RiskEngine.setAccount_pnlMaturedPosTot]
    rfl

/-- What the vault holds beyond the seniors. -/
def RiskEngine.backing (s : RiskEngine) : Int := s.vault - s.cTot - s.insuranceFund

theorem residualNow_spec {R : Nat} (hok : residualNow s s = .ok R s' l) :
    s' = s ∧ l = [] ∧ (R : Int) = s.backing := by
  refine wp_sound (Q := fun (R : Nat) s' l => s' = s ∧ l = [] ∧ (R : Int) = s.backing) hok ?_
  simp only [residualNow, wp_bind, wp_orErr, implies_true, true_and]
  intro senior hsenior r hr
  have := checkedAddU128_eq hsenior
  have := checkedSub_eq hr
  simp only [RiskEngine.backing]
  omega

/-- The context differs at most in its sticky accounts. -/
def InstructionContext.SameButSticky (ctx ctx' : InstructionContext) : Prop :=
  ctx' = { ctx with hMaxStickyAccounts := ctx'.hMaxStickyAccounts }

/-- Admission at horizon zero, which only fits the residual can get. -/
theorem admitFreshReserveHLock_spec {fresh hMin hMax admitted : Nat} {ctx ctx' : InstructionContext}
    (hok : admitFreshReserveHLock i fresh ctx hMin hMax s = .ok (admitted, ctx') s' l) :
    s' = s ∧ l = [] ∧ ctx.SameButSticky ctx' ∧
      (admitted = hMax ∨ admitted = hMin ∧ (s.pnlMaturedPosTot + fresh : Int) ≤ s.backing) := by
  refine wp_sound (Q := fun (r : Nat × InstructionContext) s' l => s' = s ∧ l = [] ∧
    ctx.SameButSticky r.2 ∧ (r.1 = hMax ∨ r.1 = hMin ∧ (s.pnlMaturedPosTot + fresh : Int) ≤ s.backing)) hok ?_
  simp only [admitFreshReserveHLock, wp_ite, wp_pure, wp_bind, wp_read, wp_orErr, implies_true, true_and]
  refine ⟨fun _ => ⟨rfl, .inl trivial⟩, fun _ => wp_ok fun R s' l hR => ?_⟩
  obtain ⟨rfl, rfl, hR⟩ := residualNow_spec hR
  intro m hm
  have hm := checkedAddU128_eq hm
  have hcase : (if m ≤ R then hMin else hMax) = hMax ∨
      (if m ≤ R then hMin else hMax) = hMin ∧ (s'.pnlMaturedPosTot + fresh : Int) ≤ s'.backing := by
    split_ifs with h
    · exact .inr ⟨rfl, by omega⟩
    · exact .inl rfl
  refine ⟨fun _ ctx' hctx => ⟨rfl, rfl, ?_, hcase⟩, fun _ => ⟨rfl, rfl, rfl, hcase⟩⟩
  unfold InstructionContext.markHMaxSticky at hctx
  split_ifs at hctx
  · obtain rfl := Option.some.inj hctx; rfl

/-- What `admit_outstanding_reserve_on_touch` does when it admits. -/
structure Accelerated (i : Nat) (s s' : RiskEngine) (l : List Event) : Prop where
  eq : s' = s.rebook i (s.accounts i).clearReserve
    { s.totals with pnlMaturedPosTot := s.pnlMaturedPosTot + (s.accounts i).reservedPnl }
  events : l = [.accelerated i (s.accounts i).reservedPnl]
  fits : (s.pnlMaturedPosTot + (s.accounts i).reservedPnl : Int) ≤ s.backing

theorem admitOutstandingReserveOnTouch_spec
    (hok : admitOutstandingReserveOnTouch i s = .ok () s' l) :
    s' = s ∧ l = [] ∨ Accelerated i s s' l := by
  refine wp_sound (Q := fun _ s' l => s' = s ∧ l = [] ∨ Accelerated i s s' l) hok ?_
  simp only [admitOutstandingReserveOnTouch, validateReserveShape, wp_bind, wp_read, wp_rejectIf,
    wp_whenever, wp_orErr, wp_writeAccount, wp_update, wp_emit, Bool.not_eq_false, implies_true, true_and, not_lt,
    not_le]
  refine ⟨fun _ hshape total htotal => ⟨fun _ => wp_ok fun R s' l hR m hm => ?_, fun _ => .inl trivial⟩,
    fun _ => .inl trivial⟩
  obtain ⟨rfl, rfl, hR⟩ := residualNow_spec hR
  obtain ⟨hb, -⟩ := reserveShape_iff.mp (reserveShapeCheck_iff.mp hshape)
  have htotal := checkedAddU128_eq htotal
  have hm := checkedAddU128_eq hm
  rw [hb.schedHeld_eq, hb.pendingHeld_eq, hb.total.2] at htotal
  refine ⟨fun hle _ => .inr ⟨?_, ?_, by omega⟩, fun _ => .inl ⟨rfl, rfl⟩⟩
  · rw [hm.1, htotal.1]; rfl
  · rw [htotal.1]; rfl

end Buckets

end Percolator
