import Percolator.Laws.Order
import Percolator.Laws.Refusals
import Percolator.Laws.Settling
import Percolator.Laws.Sides

/-!
The gate of a trade on open interest: which trades of a market at rest are refused with
`SideBlocked`, read off the state before the trade.

Before its gate a trade settles both of its parties. That moves nothing the gate looks at unless
it takes the last position off a side: then a side that waited for its reset opens again, and the
dust left on a side that did not wait drains both.
-/

namespace Percolator

open Effect

variable {s s₀ s₁ s' t t' : RiskEngine} {a b i j price now hMin hMax exec : Nat} {d e : Side} {q rate : Int}
  {ctx ctx' : InstructionContext} {ph ph' : Phase} {l : List Event} {cores : Nat → Account} {dust : Side → Nat} {loss : Nat}

/-! ### What settling the parties leaves -/

/-- A position that a settlement takes off its side: stale, or shrunk to dust. -/
def RiskEngine.Spent (s : RiskEngine) (i : Nat) : Prop := effectivePosQ s i = some 0

instance (s : RiskEngine) (i : Nat) : Decidable (s.Spent i) := by unfold RiskEngine.Spent; infer_instance

/-- Once `a` and `b` are settled, side `d` still stores a position. -/
def RiskEngine.Remains (s : RiskEngine) (a b : Nat) (d : Side) : Prop :=
  ∃ i, s.isUsed i = true ∧ sideOfI128 (s.accounts i).positionBasisQ = some d ∧ ((i = a ∨ i = b) → ¬ s.Spent i)

/-- Settling `a` and `b` takes the last position off a side that does not wait for its reset. -/
def RiskEngine.Empties (s : RiskEngine) (a b : Nat) : Prop :=
  ∃ d, (s.sides d).sideMode ≠ .resetPending ∧ (s.sides d).storedPosCount ≠ 0 ∧ ¬ s.Remains a b d

/-- The position of an account, its snapshots of K and F aside. -/
def Account.SameStake (x y : Account) : Prop :=
  y.positionBasisQ = x.positionBasisQ ∧ y.adlABasis = x.adlABasis ∧ y.adlEpochSnap = x.adlEpochSnap

/-- A spent position has no part in the open interest of its side. -/
theorem Seated.spent_iff (h : Seated s) (used : s.isUsed i = true)
    (side : sideOfI128 (s.accounts i).positionBasisQ = some d) :
    s.Spent i ↔ (s.accounts i).floorShare d (s.sides d) = 0 := by
  obtain ⟨e, eff⟩ := h.effective_isSome used
  have value := h.effective used eff
  rw [side] at value
  dsimp only at value
  unfold RiskEngine.Spent
  rw [eff, Option.some_inj, value]
  cases d <;> simp [Side.sign]

/-- What the accrual and the touches of `a` and `b` leave of the positions and the sides. -/
structure PartiesSettled (s t : RiskEngine) (a b : Nat) : Prop where
  used : t.isUsed = s.isUsed
  stays : ∀ i, s.isUsed i = true → ((i = a ∨ i = b) → ¬ s.Spent i) → (s.accounts i).SameStake (t.accounts i)
  leaves : ∀ i, s.isUsed i = true → (i = a ∨ i = b) → s.Spent i → (t.accounts i).positionBasisQ = 0
  mode : ∀ d, (t.sides d).sideMode = (s.sides d).sideMode
  oi : ∀ d, (t.sides d).oiEffQ = (s.sides d).oiEffQ
  epoch : ∀ d, (t.sides d).adlEpoch = (s.sides d).adlEpoch
  mult : ∀ d, (t.sides d).adlMult = (s.sides d).adlMult
  dust : ∀ d, (t.sides d).phantomDustBoundQ = (s.sides d).phantomDustBoundQ +
    ((s.accounts a).dusts s.sides d + (s.accounts b).dusts s.sides d)

theorem Account.SameStake.trans {x y z : Account} (h : x.SameStake y) (h' : y.SameStake z) : x.SameStake z :=
  ⟨h'.1.trans h.1, h'.2.1.trans h.2.1, h'.2.2.trans h.2.2⟩

/-- A trade at rest when its parties are settled. -/
structure AtFlush (s t : RiskEngine) (a b : Nat) (ph : Phase) : Prop where
  settled : PartiesSettled s t a b
  quiet : ∀ d, Quiet (s.sides d)
  before : Seated s
  books : Books s
  good : Good ⟨t, ph⟩
  live : t.marketMode = .live
  usedA : s.isUsed a = true
  usedB : s.isUsed b = true

/-- A side stores a position just if an account in use has one there. -/
theorem Books.stored_pos (h : Books s) (d : Side) :
    (s.sides d).storedPosCount ≠ 0 ↔ ∃ i, s.isUsed i = true ∧ sideOfI128 (s.accounts i).positionBasisQ = some d := by
  rw [h.stored d]
  constructor
  · intro some
    by_contra none
    refine some (tally_eq_zero fun i mem => if_neg fun side => none ⟨i, RiskEngine.mem_usedSlots.mp mem, side⟩)
  · rintro ⟨i, used, side⟩ zero
    have on : (s.accounts i).on d = 0 := eq_zero_of_tally zero (RiskEngine.mem_usedSlots.mpr used)
    rw [Account.on, if_pos side] at on
    cases on

/-- The positions that the settlement leaves on a side. -/
theorem AtFlush.remains_iff (h : AtFlush s t a b ph) (d : Side) :
    s.Remains a b d ↔ (t.sides d).storedPosCount ≠ 0 := by
  rw [h.good.books.stored_pos d]
  constructor
  · rintro ⟨i, used, side, whole⟩
    refine ⟨i, h.settled.used ▸ used, ?_⟩
    rw [(h.settled.stays i used whole).1]
    exact side
  · rintro ⟨i, used, side⟩
    have used : s.isUsed i = true := h.settled.used ▸ used
    have whole : (i = a ∨ i = b) → ¬ s.Spent i := by
      intro party spent
      rw [h.settled.leaves i used party spent] at side
      cases side
    rw [(h.settled.stays i used whole).1] at side
    exact ⟨i, used, side, whole⟩

theorem AtFlush.oi_eq (h : AtFlush s t a b ph) (d e : Side) : (t.sides d).oiEffQ = (t.sides e).oiEffQ := by
  have balanced : (t.sides .long).oiEffQ = (t.sides .short).oiEffQ := h.good.balanced
  cases d <;> cases e <;> first | rfl | exact balanced | exact balanced.symm

/-- No position of a side is dust that has nobody there, or that waits for its reset. -/
theorem Seated.dusts_zero (h : Seated s) (used : s.isUsed i = true)
    (none : sideOfI128 (s.accounts i).positionBasisQ ≠ some d ∨ (s.sides d).sideMode = .resetPending) :
    (s.accounts i).dusts s.sides d = 0 := by
  unfold Account.dusts
  refine if_neg fun dusted => ?_
  rcases none with away | waiting
  · exact away dusted.1
  · have epoch := (h.position i d used dusted.1).epoch
    have current := dusted.2.1
    rcases epoch with ⟨running, -⟩ | ⟨-, stale⟩
    · exact running waiting
    · omega

/-- The flush finds nothing to clear just if the settlement emptied no running side. -/
theorem AtFlush.swept_iff (h : AtFlush s t a b ph) : t.Swept ↔ ¬ s.Empties a b := by
  constructor
  · rintro swept ⟨d, running, stored, gone⟩
    obtain ⟨i, used, side⟩ := (h.books.stored_pos d).mp stored
    have party : (i = a ∨ i = b) ∧ s.Spent i := by
      by_contra none
      exact gone ⟨i, used, side, fun leg spent => none ⟨leg, spent⟩⟩
    have zero : (t.sides d).storedPosCount = 0 := by
      by_contra pos
      exact gone ((h.remains_iff d).mpr pos)
    have current : (s.accounts i).adlEpochSnap = (s.sides d).adlEpoch := by
      rcases (h.before.position i d used side).epoch with ⟨-, same⟩ | ⟨waiting, -⟩
      · exact same
      · exact absurd waiting running
    have share := (h.before.spent_iff used side).mp party.2
    rw [Account.floorShare, if_pos ⟨side, current⟩] at share
    have dusted : (s.accounts i).dusts s.sides d = 1 := if_pos ⟨side, current, share⟩
    have dust := h.settled.dust d
    have clean := (swept d zero).2
    rcases party.1 with rfl | rfl <;> omega
  · intro kept d zero
    have gone : ¬ s.Remains a b d := fun remains => (h.remains_iff d).mp remains zero
    have clean : (s.sides d).oiEffQ = 0 ∧ (s.sides d).phantomDustBoundQ = 0 ∧
        ∀ i, s.isUsed i = true → (s.accounts i).dusts s.sides d = 0 := by
      by_cases stored : (s.sides d).storedPosCount = 0
      · obtain ⟨oi, dust⟩ := (h.quiet d).vacant stored
        refine ⟨oi, dust, fun i used => h.before.dusts_zero used (.inl fun side => ?_)⟩
        exact (h.books.stored_pos d).mpr ⟨i, used, side⟩ stored
      · have waiting : (s.sides d).sideMode = .resetPending := by
          by_contra running
          exact kept ⟨d, running, stored, gone⟩
        have ok := h.before.side d
        exact ⟨ok.drained waiting, ok.dustless waiting, fun i used => h.before.dusts_zero used (.inr waiting)⟩
    obtain ⟨oi, dust, none⟩ := clean
    refine ⟨fun e => ?_, ?_⟩
    · rw [h.oi_eq e d, h.settled.oi]
      exact oi
    · rw [h.settled.dust, dust, none a h.usedA, none b h.usedB]

/-! ### The flush -/

/-- A market with nothing to clear is not cleared. -/
theorem clearDust_swept (swept : t.Swept) (hok : clearDust ctx t = .ok ctx' t' l) : t' = t ∧ ctx' = ctx := by
  refine wp_sound (Q := fun ctx' t' _ => t' = t ∧ ctx' = ctx) hok ?_
  have idle : ∀ residual n l, residual = false →
      wp (clearResidual ctx residual n) (fun ctx' t' _ => t' = t ∧ ctx' = ctx) (fun _ _ => True) t l := by
    rintro residual n l rfl
    simp [clearResidual]
  have long := swept .long
  have short := swept .short
  simp only [clearDust, wp_bind, wp_read, wp_ite, wp_corruptIf, wp_pure, implies_true, true_and]
  refine ⟨fun both _ => idle _ _ _ ?_, fun _ => ⟨fun empty => idle _ _ _ ?_, fun _ => ⟨fun empty => idle _ _ _ ?_,
    trivial⟩⟩⟩
  · simp [(long both.1).1, (long both.1).2, (short both.2).2]
  · simp [(long empty).1, (long empty).2]
  · simp [(short empty).1, (short empty).2]

theorem SideState.finalized_false (v : SideState) : v.finalized false = v.reopened := by
  unfold finalized
  rw [if_neg]
  rintro ⟨⟨⟩, -⟩

/-- The flush in two parts: what it schedules, and what it begins. -/
theorem flush_parts (flush : Runs (endOfInstructionResets .new) t () t') : ∃ ctx t₁ l, clearDust (.new) t = .ok ctx t₁ l ∧
    t' = t₁.withSides fun d => (t₁.sides d).finalized
      ((scheduleDrained .short t₁ (scheduleDrained .long t₁ ctx)).pendingReset d) := by
  obtain ⟨l, ok⟩ := flush
  obtain ⟨ctx, t₁, l₁, l₂, scheduled, finalized, -⟩ := bind_eq_ok.mp ok
  obtain ⟨same, -⟩ := finalizeEndOfInstructionResets_spec (mapFault_eq_ok.mp finalized)
  obtain ⟨ctx₁, t₂, l₃, l₄, cleared, rest, -⟩ := bind_eq_ok.mp scheduled
  obtain ⟨_, _, _, _, read, ended, -⟩ := bind_eq_ok.mp rest
  obtain ⟨rfl, rfl, -⟩ := Outcome.ok.inj read
  obtain ⟨rfl, rfl, -⟩ := Outcome.ok.inj ended
  exact ⟨_, _, _, cleared, same⟩

/-- The flush clears both sides when the settlement emptied a running one. -/
theorem AtFlush.cleared (h : AtFlush s t a b ph) (emptied : s.Empties a b)
    (flush : Runs (endOfInstructionResets .new) t () t') :
    t' = t.withSides fun d => ((t.sides d).withOi 0).finalized true := by
  obtain ⟨ctx, t₁, l, clear, rfl⟩ := flush_parts flush
  obtain ⟨⟨-, -, swept⟩ | ⟨rfl, -, marked⟩, -⟩ := clearDust_spec clear
  · exact absurd emptied (h.swept_iff.mp swept)
  · refine congrArg t.withSides (funext fun d => ?_)
    have marks : (scheduleDrained .short (t.withSides fun d => (t.sides d).withOi 0)
        (scheduleDrained .long (t.withSides fun d => (t.sides d).withOi 0) ctx)).pendingReset d = true := by
      simp [scheduleDrained_pending, marked]
    rw [marks]
    rfl

/-- Otherwise the flush opens again the sides that wait for nothing. -/
theorem AtFlush.reopened (h : AtFlush s t a b ph) (kept : ¬ s.Empties a b)
    (flush : Runs (endOfInstructionResets .new) t () t') : t' = t.withSides fun d => (t.sides d).reopened := by
  obtain ⟨ctx, t₁, l, clear, rfl⟩ := flush_parts flush
  obtain ⟨rfl, rfl⟩ := clearDust_swept (h.swept_iff.mpr kept) clear
  refine congrArg t₁.withSides (funext fun d => ?_)
  have open' : ∀ e, ¬ ((t₁.sides e).sideMode = .drainOnly ∧ (t₁.sides e).oiEffQ = 0) := by
    rintro e ⟨mode, zero⟩
    rw [h.settled.mode] at mode
    rw [h.settled.oi] at zero
    have := (h.quiet e).draining mode
    omega
  have marks : (scheduleDrained .short t₁ (scheduleDrained .long t₁ .new)).pendingReset d = false := by
    have none : InstructionContext.new.pendingReset d = false := rfl
    simp only [scheduleDrained_pending, open' .long, open' .short, none]
    simp
  rw [marks, SideState.finalized_false]

/-! ### The state at the gate -/

theorem effectivePosQ_stake (stake : (s.accounts i).SameStake (t.accounts i))
    (epoch : ∀ d, (t.sides d).adlEpoch = (s.sides d).adlEpoch) (mult : ∀ d, (t.sides d).adlMult = (s.sides d).adlMult) :
    effectivePosQ t i = effectivePosQ s i := by
  obtain ⟨basis, aBasis, snap⟩ := stake
  unfold effectivePosQ
  simp only [basis, aBasis, snap, epoch, mult]

/-- A settlement leaves the effective positions as they are. -/
theorem PartiesSettled.effective (h : PartiesSettled s t a b) (used : s.isUsed i = true) :
    effectivePosQ t i = effectivePosQ s i := by
  by_cases party : (i = a ∨ i = b) ∧ s.Spent i
  · have flat : effectivePosQ t i = some 0 := by
      unfold effectivePosQ
      dsimp only
      rw [h.leaves i used party.1 party.2]
      rfl
    exact flat.trans party.2.symm
  · exact effectivePosQ_stake (h.stays i used fun leg spent => party ⟨leg, spent⟩) h.epoch h.mult

end Percolator
