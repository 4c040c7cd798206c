import Percolator.Invariant.Caps
import Percolator.Laws.Sides

/-!
The caps on positions: how many a side stores, how large each is, and that a trade foresees
the counts that attaching its legs leads to.
-/

namespace Percolator

open Effect

variable {s s' t t' t₁ t₂ : RiskEngine} {a b i price : Nat} {q : Int} {d : Side} {plan : TradePlan} {l : List Event}

/-! ### Reachable states -/

theorem Initial.withinCaps (h : Initial s) : WithinCaps s := by
  obtain ⟨s₀, p, slot, price, l, ok⟩ := h
  obtain ⟨-, -, -, rfl⟩ := initInPlace_spec ok
  constructor
  · intro d
    exact Nat.zero_le _
  · intro i used
    rw [freshEngine_isUsed] at used
    cases used

theorem Reachable.withinCaps (h : Reachable s) : WithinCaps s := by
  obtain ⟨s₀, l, initial, history⟩ := h
  refine (history.invariant (I := fun s => Good ⟨s, .idle⟩ ∧ WithinCaps s) ?_ ⟨initial.good, initial.withinCaps⟩).2
  rintro s ls s' ⟨good, caps⟩ performed
  refine ⟨good.performed performed, ?_⟩
  cases performed with
  | committed ok =>
      obtain ⟨ph, course, -⟩ := good.committed ok
      exact caps.run good course.run
  | rolledBack fault => exact caps

/-- The positions of a Live market and the size of its sides. -/
structure CapsHold (s : RiskEngine) : Prop where
  stored : ∀ d, (s.sides d).storedPosCount ≤ s.params.maxActivePositionsPerSide
  oi : ∀ d, (s.sides d).oiEffQ ≤ MAX_OI_SIDE_Q
  effective : ∀ i, s.isUsed i = true → ∃ q, effectivePosQ s i = some q ∧
    q.natAbs ≤ (s.accounts i).positionBasisQ.natAbs
  basis : ∀ i, s.isUsed i = true → (s.accounts i).positionBasisQ.natAbs ≤ MAX_POSITION_ABS_Q

theorem Account.floorShare_le_basis {x : Account} {sides : Side → SideState} (h : x.Shrinks sides) :
    x.floorShare d (sides d) ≤ x.positionBasisQ.natAbs := by
  unfold floorShare
  split_ifs with current
  · refine Nat.div_le_of_le_mul ?_
    rw [Nat.mul_comm]
    exact Nat.mul_le_mul_right _ (h d current.1 current.2)
  · exact Nat.zero_le _

theorem WithinCaps.hold (h : WithinCaps s) (seated : Seated s) : CapsHold s := by
  refine ⟨h.stored, fun d => (seated.side d).oi_le, fun i used => ?_, fun i used => seated.bound used⟩
  obtain ⟨e, eff⟩ := seated.effective_isSome used
  refine ⟨e, eff, ?_⟩
  have long := seated.component used eff .long
  have short := seated.component used eff .short
  have leL : (s.accounts i).floorShare .long (s.sides .long) ≤ (s.accounts i).positionBasisQ.natAbs :=
    Account.floorShare_le_basis (h.shrinks i used)
  have leS : (s.accounts i).floorShare .short (s.sides .short) ≤ (s.accounts i).positionBasisQ.natAbs :=
    Account.floorShare_le_basis (h.shrinks i used)
  simp only [oiComponent] at long short
  omega

/-! ### The cap of a trade -/

/-- The accounts on side `d` once `a` and `b` hold the new positions of a plan. -/
def RiskEngine.countWith (s : RiskEngine) (a b : Nat) (plan : TradePlan) (d : Side) : Nat :=
  Finset.card {i ∈ s.usedSlots | sideOfI128 (if i = a then plan.newEffA else if i = b then plan.newEffB
    else (s.accounts i).positionBasisQ) = some d}

/-- A trade of `s` has come to its check of the cap, in the state `t` and with its plan made. -/
structure AtCap (s t : RiskEngine) (a b price now : Nat) (q rate : Int) (hMin hMax : Nat)
    (ctx : InstructionContext) (plan : TradePlan) : Prop where
  pair : AdmissionPair s.params hMin hMax
  ne : a ≠ b
  pos : 0 < q
  runs : ∃ s₁ s₂, Runs (openTrade a b price now rate hMin hMax) s ctx s₁ ∧
    Runs (endOfInstructionResets .new) s₁ () s₂ ∧ Runs (gateTrade a b price q) s₂ plan t

/-- What the check of the cap foresees in the state `t` is what the legs come to, in either order, and
the check refuses nothing else. -/
structure CapLaw (t : RiskEngine) (a b : Nat) (plan : TradePlan) : Prop where
  foreseen : ∀ d, plan.countAfter t d = t.countWith a b plan d
  attached : ∀ t' t₁ t₂, SameSeats t t' → Runs (attachEffectivePosition a plan.newEffA) t' () t₁ →
    Runs (attachEffectivePosition b plan.newEffB) t₁ () t₂ → ∀ d, (t₂.sides d).storedPosCount = t.countWith a b plan d
  swapped : ∀ t' t₁ t₂, SameSeats t t' → Runs (attachEffectivePosition b plan.newEffB) t' () t₁ →
    Runs (attachEffectivePosition a plan.newEffA) t₁ () t₂ → ∀ d, (t₂.sides d).storedPosCount = t.countWith a b plan d
  passes : ∀ d, checkPositionCap d plan.oldEffA plan.newEffA plan.oldEffB plan.newEffB t = .ok () t [] ↔
    t.countWith a b plan d ≤ t.params.maxActivePositionsPerSide

/-- The accounts on a side once two of them hold other positions. -/
theorem Books.countWith_eq (plan : TradePlan) (h : Books s) (usedA : s.isUsed a = true)
    (usedB : s.isUsed b = true) (ne : a ≠ b) (d : Side) : (s.countWith a b plan d : Int) + (s.accounts a).on d + (s.accounts b).on d =
      (s.sides d).storedPosCount + legsOn d plan.newEffA plan.newEffB := by
  set accountA := (s.accounts a).withPositionBasisQ plan.newEffA with hA
  set accountB := (s.accounts b).withPositionBasisQ plan.newEffB with hB
  have count : s.countWith a b plan d = tally s.usedSlots (put (put s.accounts b accountB) a accountA) (Account.on d) := by
    rw [RiskEngine.countWith, Finset.card_filter]
    refine Finset.sum_congr rfl fun i _ => ?_
    by_cases isA : i = a
    · subst isA
      rw [put_same, if_pos rfl]
      rfl
    · rw [put_other _ _ isA, if_neg isA]
      by_cases isB : i = b
      · subst isB
        rw [put_same, if_pos rfl]
        rfl
      · rw [put_other _ _ isB, if_neg isB]
        rfl
  have first := tally_put (f := Account.on d) (t := s.accounts) (a := accountB) (RiskEngine.mem_usedSlots.mpr usedB)
  have second := tally_put (f := Account.on d) (t := put s.accounts b accountB) (a := accountA)
    (RiskEngine.mem_usedSlots.mpr usedA)
  rw [put_other _ _ ne] at second
  have onA : accountA.on d = if sideOfI128 plan.newEffA = some d then 1 else 0 := rfl
  have onB : accountB.on d = if sideOfI128 plan.newEffB = some d then 1 else 0 := rfl
  rw [← h.stored d, onB] at first
  rw [← count, onA] at second
  unfold legsOn
  split_ifs at * <;> omega

theorem SameSeats.stored_on (h : SameSeats s s') (i : Nat) (d : Side) :
    (s'.accounts i).on d = (s.accounts i).on d := by
  simp only [Account.on, (h.position i).1]

theorem checkPositionCap_eq {oldA newA oldB newB : Int} {n : Nat}
    (count : (t.sides d).storedPosCount + legsOn d newA newB - legsOn d oldA oldB = n) :
    checkPositionCap d oldA newA oldB newB t = .ok () t [] ↔ n ≤ t.params.maxActivePositionsPerSide := by
  have whole : wp (checkPositionCap d oldA newA oldB newB)
      (fun _ s' l' => s' = t ∧ l' = [] ∧ n ≤ t.params.maxActivePositionsPerSide)
      (fun _ _ => ¬ n ≤ t.params.maxActivePositionsPerSide) t [] := by
    simp only [checkPositionCap, wp_bind, wp_read, wp_rejectIf, count, true_and]
    refine ⟨fun negative => by omega, fun _ => ⟨fun above => by omega, fun within => by omega⟩⟩
  constructor
  · intro ok
    exact (wp_at whole ok).2.2
  · intro within
    cases run : checkPositionCap d oldA newA oldB newB t with
    | ok _ s' l' =>
        obtain ⟨rfl, rfl, -⟩ := wp_at whole run
        rfl
    | fault f s' => exact absurd within (wp_sound_fault run whole)

/-- What a trade has made sure of when it comes to its cap. -/
structure Gated (t : RiskEngine) (a b : Nat) (q : Int) (ctx : InstructionContext) (plan : TradePlan) (ph : Phase) :
    Prop where
  planned : Planned t a b q plan
  good : Good ⟨t, ph⟩
  live : t.marketMode = .live
  pending : ∀ d, ph.pending d = false
  usedA : t.isUsed a = true
  usedB : t.isUsed b = true
  wholeA : (t.accounts a).Whole t.sides
  wholeB : (t.accounts b).Whole t.sides
  ne : a ≠ b
  pos : 0 < q
  pair : AdmissionPair t.params ctx.admitHMinShared ctx.admitHMaxShared

theorem Gated.capLaw {ctx : InstructionContext} {ph : Phase} (h : Gated t a b q ctx plan ph) : CapLaw t a b plan := by
  obtain ⟨planned, good, live, pending, usedA, usedB, wholeA, wholeB, ne, pos, -⟩ := h
  have books : Books t := good.books
  have counted := planned.legs_counted good live pending usedA usedB wholeA wholeB ne pos
  have foreseen : ∀ d, plan.countAfter t d = t.countWith a b plan d := by
    intro d
    have final := Books.countWith_eq plan books usedA usedB ne d
    rw [TradePlan.countAfter, counted d]
    omega
  refine ⟨foreseen, ?_, ?_, fun d => checkPositionCap_eq (foreseen d)⟩
  · rintro t' t₁ t₂ seats ⟨l₁, first⟩ ⟨l₂, second⟩ d
    obtain ⟨f, hA, -⟩ := attachEffectivePosition_spec first
    obtain ⟨g, hB, -⟩ := attachEffectivePosition_spec second
    have pair := hA.pair hB ne d
    have final := Books.countWith_eq plan books usedA usedB ne d
    rw [seats.stored_on, seats.stored_on, seats.sides] at pair
    omega
  · rintro t' t₁ t₂ seats ⟨l₁, first⟩ ⟨l₂, second⟩ d
    obtain ⟨f, hB, -⟩ := attachEffectivePosition_spec first
    obtain ⟨g, hA, -⟩ := attachEffectivePosition_spec second
    have pair := hB.pair hA ne.symm d
    have final := Books.countWith_eq plan books usedA usedB ne d
    rw [seats.stored_on, seats.stored_on, seats.sides] at pair
    have swap : legsOn d plan.newEffB plan.newEffA = legsOn d plan.newEffA plan.newEffB := add_comm _ _
    omega

theorem Reachable.gated {now : UInt64} {rate : Int} {hMin hMax : Nat} {ctx : InstructionContext} (h : Reachable s)
    (cap : AtCap s t a b price now.toNat q rate hMin hMax ctx plan) : ∃ ph, Gated t a b q ctx plan ph := by
  obtain ⟨pair, ne, pos, s₁, s₂, ⟨l₁, opened⟩, ⟨l₂, flushed⟩, l₃, gated⟩ := cap
  set sc : Scope := ⟨fun _ => True, fun _ => True, True, True, True, True⟩
  have opens : wp (openTrade a b price now.toNat rate hMin hMax)
      (fun ctx s' l' => ∃ ph, LegsTouched sc ⟨s, .idle⟩ a b ctx l' s' ph) Fault.Sound s [] :=
    h.good.openTrade pair (fun _ => trivial) (slot_le now) trivial trivial ne
  obtain ⟨ph, touched⟩ := wp_at opens opened
  obtain ⟨calm, -, -⟩ := wp_at touched.resets flushed
  have gates : wp (gateTrade a b price q) _ Fault.Sound s₂ _ :=
    calm.toCourse.gateTrade calm.live (fun d => congrFun calm.calm d) calm.usedA calm.usedB ne
  obtain ⟨course, reopened, planned⟩ := wp_at gates gated
  have frame : t.marketMode = s₂.marketMode ∧ t.isUsed = s₂.isUsed ∧ t.accounts = s₂.accounts ∧
      t.params = s₂.params := by
    rw [reopened]
    exact ⟨rfl, rfl, rfl, rfl⟩
  obtain ⟨mode, used, accounts, params⟩ := frame
  have whole : ∀ i, (s₂.accounts i).Whole s₂.sides → (t.accounts i).Whole t.sides := by
    intro i before
    rw [accounts]
    refine before.congr (fun d => ?_) fun d => ?_
    · rw [reopened, RiskEngine.withSides_sides, SideState.reopened_eq]
    · rw [reopened, RiskEngine.withSides_sides, SideState.reopened_eq]
  exact ⟨_, planned, course.good, mode.trans calm.live, fun d => congrFun calm.calm d, used ▸ calm.usedA,
    used ▸ calm.usedB, whole a calm.wholeA, whole b calm.wholeB, ne, pos, params ▸ calm.pair⟩

/-! ### Trades that are made -/

/-- The slippage moves no position. -/
theorem settleTradePnl_seats {ctx ctx' : InstructionContext} {δ : Int} (live : s.marketMode = .live)
    (pair : AdmissionPair s.params ctx.admitHMinShared ctx.admitHMaxShared)
    (ok : settleTradePnl a b δ ctx s = .ok ctx' s' l) : SameSeats s s' := by
  refine wp_sound (Q := fun _ s' _ => SameSeats s s') ok ?_
  simp only [settleTradePnl, wp_bind, wp_read, wp_orErr, wp_rejectIf, implies_true, true_and]
  intro _ _ pnlA _ _
  refine wp_ok fun ctx₁ s₁ l₁ first pnlB _ _ => wp_ok fun ctx₂ s₂ l₂ second => ?_
  obtain ⟨a₁, tot₁, rfl, -, sticky, -, setA⟩ := setPnlAdmitted_spec first live pair
  have pair₁ : AdmissionPair s.params ctx₁.admitHMinShared ctx₁.admitHMaxShared := by
    rw [sticky]
    exact pair
  obtain ⟨a₂, tot₂, rfl, -, -, -, setB⟩ := setPnlAdmitted_spec second live pair₁
  exact (SameSeats.rebook setA.same.position).trans (.rebook setB.same.position)

/-- A trade that is made stores what its plan foresaw, and that is within the cap. -/
structure CapMet (s : RiskEngine) (a b price now : Nat) (q rate : Int) (hMin hMax : Nat) : Prop where
  met : ∃ ctx plan t δ ctx' t' t₁ t₂, AtCap s t a b price now q rate hMin hMax ctx plan ∧
    Runs (settleTradePnl a b δ ctx) t ctx' t' ∧ Runs (attachEffectivePosition a plan.newEffA) t' () t₁ ∧
    Runs (attachEffectivePosition b plan.newEffB) t₁ () t₂ ∧
    ∀ d, ((t₂.sides d).storedPosCount : Int) = plan.countAfter t d ∧
      (t₂.sides d).storedPosCount ≤ t.params.maxActivePositionsPerSide

theorem Reachable.capMet {now : UInt64} {rate : Int} {exec hMin hMax : Nat} (h : Reachable s)
    (ok : executeTrade a b price now.toNat q exec rate hMin hMax s = .ok () s' l) :
    CapMet s a b price now.toNat q rate hMin hMax := by
  obtain ⟨ctx, s₁, terms, s₂, s₃, parts⟩ := executeTrade_parts ok
  obtain ⟨l', booked⟩ := parts.booked
  set P : Prop := CapMet s a b price now.toNat q rate hMin hMax with hP
  refine wp_sound (Q := fun _ _ _ => P) booked ?_
  simp only [bookTrade, planTrade_eq, attachLegs, wp_bind, wp_lift, wp_orErr, implies_true, true_and]
  refine wp_ok fun _ r₁ _ flushed => wp_ok fun plan t _ gated => ?_
  refine wp_ok fun _ r₂ _ capL => wp_ok fun _ r₃ _ capS => ?_
  simp only [wp_pure]
  intro δ _
  refine wp_ok fun ctx' t' _ slipped => wp_ok fun _ t₁ _ attachA => wp_ok fun _ t₂ _ attachB => ?_
  have cap : AtCap s t a b price now.toNat q rate hMin hMax ctx plan :=
    ⟨parts.pair, parts.ne, parts.pos, s₁, r₁, parts.opened, ⟨_, flushed⟩, _, gated⟩
  obtain ⟨rfl, -, withinL⟩ := checkPositionCap_spec capL
  obtain ⟨rfl, -, withinS⟩ := checkPositionCap_spec capS
  obtain ⟨ph, reached⟩ := h.gated cap
  have law := reached.capLaw
  have seats := settleTradePnl_seats reached.live reached.pair slipped
  have made : P := by
    refine ⟨ctx, plan, r₃, δ, ctx', t', t₁, t₂, cap, ⟨_, slipped⟩, ⟨_, attachA⟩, ⟨_, attachB⟩, fun d => ?_⟩
    have stored := law.attached t' t₁ t₂ seats ⟨_, attachA⟩ ⟨_, attachB⟩ d
    have foreseen := law.foreseen d
    rw [stored]
    refine ⟨foreseen.symm, ?_⟩
    have within : plan.countAfter r₃ d ≤ r₃.params.maxActivePositionsPerSide := by
      cases d with
      | long => exact withinL
      | short => exact withinS
    omega
  -- the losses and the fee come after the attachment
  simp only [wp_writeSide, wp_expect, implies_true, true_and]
  exact wp_ok fun _ _ _ _ => wp_ok fun _ _ _ _ _ _ => wp_ok fun _ _ _ _ => made

/-- In every reachable Live state the caps hold, a trade foresees what its legs come to in either order, and
what it stores is within the cap. -/
theorem Reachable.caps (h : Reachable s) (live : s.marketMode = .live) :
    CapsHold s ∧ ∀ (a b price : Nat) (now : UInt64) (q rate : Int) (hMin hMax : Nat),
      (∀ t ctx plan, AtCap s t a b price now.toNat q rate hMin hMax ctx plan → CapLaw t a b plan) ∧
      ∀ exec s' l, executeTrade a b price now.toNat q exec rate hMin hMax s = .ok () s' l →
        CapMet s a b price now.toNat q rate hMin hMax := by
  have positions : Positions s .idle := h.good.positions live
  refine ⟨h.withinCaps.hold positions.seated, fun a b price now q rate hMin hMax => ⟨?_, ?_⟩⟩
  · intro t ctx plan cap
    obtain ⟨ph, reached⟩ := h.gated cap
    exact reached.capLaw
  · intro exec s' l ok
    exact h.capMet ok

theorem tradedMarket_caps : CapsHold tradedMarket :=
  (tradedMarket_reachable.caps (by decide +kernel)).1

end Percolator
