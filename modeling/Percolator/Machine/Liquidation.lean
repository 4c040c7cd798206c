import Percolator.Machine.Trade

/-!
The course of a liquidation: the close of a position, its ADL, and the write-off of
what is left; and of the keeper crank, which may liquidate the accounts it touches.
-/

namespace Percolator

open Effect

variable {sc : Scope} {c : Conf} {ctx ctx' : InstructionContext} {l l' : List Event}
  {s s' : RiskEngine} {ph ph' : Phase} {i price q : Nat} {d : Side} {old new : Int}

/-! ### Closing a position -/

/-- The phase of a liquidation whose ADL is still to come. -/
def Phase.afterClose (ph : Phase) (i : Nat) (d : Side) (q : Nat) : Phase :=
  { ph with dirty := true, closing := some (i, d, q) }

/-- What a position of `old` closed to `new` by `q` has to satisfy. -/
structure Closes (s : RiskEngine) (i : Nat) (d : Side) (q : Nat) (old new : Int) : Prop where
  eff : effectivePosQ s i = some old
  side : sideOfI128 old = some d
  pos : 0 < q
  split : old.natAbs = new.natAbs + q
  same_side : new = 0 ∨ sideOfI128 new = some d

/-- A closed position keeps its account between the parts of an instruction. -/
structure Closed (sc : Scope) (c : Conf) (ctx : InstructionContext) (i : Nat) (d : Side) (q : Nat) (new : Int)
    (s₀ : RiskEngine) (ph : Phase) (l : List Event) (s : RiskEngine) : Prop
    extends Course sc c l s (ph.afterClose i d q) where
  mode : s.marketMode = s₀.marketMode
  params : s.params = s₀.params
  used : s.isUsed = s₀.isUsed
  basis : (s.accounts i).positionBasisQ = new

/-- The position is attached, its losses settled, and the fee charged. -/
theorem Between.closeAtOracle (h : Between sc c ctx l s ph) (allowed : sc.liquidates)
    (hi : i ∈ ctx.touchedAccounts) (pending : ∀ d, ph.pending d = false) (hc : Closes s i d q old new) :
    wp (Percolator.closeAtOracle i new q price) (fun _ s' l' => Closed sc c ctx i d q new s ph l' s')
      (fun p => Fault.Sound (.plain p)) s l := by
  obtain ⟨used, reach, touched⟩ := h.members i hi
  simp only [Percolator.closeAtOracle, wp_bind, wp_read, wp_expect, wp_pure, Fault.sound_plain, implies_true,
    true_and]
  refine wp_plain fun _ s₁ l₁ hok => ?_
  obtain ⟨f, hatt, rfl⟩ := attachEffectivePosition_spec hok
  have hclosing : Closing s s₁ i d q old new :=
    ⟨hc.eff, hc.side, hc.pos, hc.split, hc.same_side, f, hatt⟩
  have h₁ : Course sc c l s₁ (ph.afterClose i d q) := h.toCourse.quiet
    (.closed allowed used reach touched h.live pending h.closing h.trading hclosing)
  rw [List.append_nil]
  have used₁ : s₁.isUsed i = true := by rw [hatt.eq]; exact used
  refine wp_plain fun _ s₂ l₂ hok => ?_
  have b₁ := settleLosses_spec hok
  have h₂ := h₁.booked used₁ reach b₁
  have hs₂ := b₁.sameSeats fun _ _ e => e.exact.position
  intro fee _
  have used₂ : s₂.isUsed i = true := by rw [hs₂.used]; exact used₁
  refine wp_plain fun r s₃ l₃ hok => ?_
  have b₂ := chargeFeeToInsurance_spec hok (h₂.fee used₂)
  have h₃ := h₂.charged used₂ reach (.inr ⟨d, q, rfl⟩) b₂
  have hs := hs₂.trans (b₂.sameSeats fun _ _ e => e.1.exact.position)
  refine ⟨h₃, hs.mode.trans ?_, hs.params.trans ?_, hs.used.trans ?_, (hs.position i).1.trans ?_⟩
  · rw [hatt.eq]; rfl
  · rw [hatt.eq]; rfl
  · rw [hatt.eq]; rfl
  · rw [hatt.eq, RiskEngine.reseat_accounts, put_same, Account.attachedTo_basis]

/-! ### ADL -/

/-- The open interest covers what was closed on its side. -/
theorem Closed.le_oi {s₀ : RiskEngine} (h : Closed sc c ctx i d q new s₀ ph l s)
    (live : s.marketMode = .live) (pending : ∀ d, ph.pending d = false) : q ≤ (s.sides d).oiEffQ := by
  have hp : Positions s (ph.afterClose i d q) := h.good.positions live
  have hle := hp.floors_le d (pending d)
  have hcl : (ph.afterClose i d q).closedOn d = q := if_pos rfl
  omega

theorem enqueueAdl_sound {deficit : Nat}
    (hbal : (s.sides d).oiEffQ = (s.sides d.opposite).oiEffQ) (hle : q ≤ (s.sides d).oiEffQ) :
    wp (enqueueAdl ctx d q deficit) (fun _ _ _ => True) Fault.Sound s l := by
  have hne : ¬ d.opposite = d := d.opposite_ne
  simp only [enqueueAdl, useInsuranceBuffer, wp_bind, wp_read, wp_ite, wp_writeSide, wp_corruptIf,
    wp_lift, wp_pure, wp_update, implies_true, true_and]
  simp only [RiskEngine.withInsuranceFund_sides, RiskEngine.setSide_sides, hne, if_false]
  refine ⟨fun hlt => absurd hle (not_le.mpr hlt), fun _ _ => ⟨fun hlt => absurd hle (by omega), fun _ _ => ?_⟩⟩
  exact wp_plain fun _ _ _ _ => wp_plain fun _ _ _ _ => trivial

/-- ADL spreads what was closed, and its checks cannot fail. -/
theorem Closed.enqueueAdl {deficit : Nat} {s₀ : RiskEngine} (h : Closed sc c ctx i d q new s₀ ph l s)
    (hb : Between sc c ctx l' s₀ ph) (hi : i ∈ ctx.touchedAccounts) (pos : 0 < q)
    (pending : ctx.pendingReset = fun _ => false) :
    wp (Percolator.enqueueAdl ctx d q deficit) (fun ctx' s' l' => ∃ ph', Between sc c ctx' l' s' ph' ∧
      ctx'.touchedAccounts = ctx.touchedAccounts ∧ s'.accounts = s.accounts) Fault.Sound s l := by
  have live : s.marketMode = .live := h.mode.trans hb.live
  have hpending : ∀ d, ph.pending d = false := fun e => by rw [hb.pending, pending]
  have hbal : (s.sides d).oiEffQ = (s.sides d.opposite).oiEffQ := by
    have hlong : (s.sides .long).oiEffQ = (s.sides .short).oiEffQ := h.good.balanced
    cases d
    · exact hlong
    · exact hlong.symm
  refine wp_split (enqueueAdl_sound hbal (h.le_oi live hpending)) fun ctx' s₁ l₁ hok => ?_
  obtain ⟨v, hdel⟩ := enqueueAdl_spec hok pos hbal
  obtain ⟨f, hf, heq⟩ := hdel.eq
  obtain ⟨hctx, hmarks⟩ := hdel.marked
  have hmarks : ∀ e, ctx'.pendingReset e = decide (v.oiEffQ = 0) := fun e => by
    rw [hmarks, pending, Bool.or_false]
  have used : s.isUsed i = true := by rw [h.used]; exact (hb.members i hi).1
  have hstep := h.toCourse.step (.deleveraged ctx'.pendingReset used live hpending rfl pos hf
    hdel.absorbed hmarks)
  rw [← heq] at hstep
  have hframe : s₁.marketMode = s.marketMode ∧ s₁.params = s.params ∧ s₁.isUsed = s.isUsed ∧
      s₁.accounts = s.accounts := by
    rw [heq]; exact ⟨rfl, rfl, rfl, rfl⟩
  obtain ⟨hmode, hparams, hused, haccounts⟩ := hframe
  refine ⟨_, ⟨hstep, hmode.trans live, rfl, rfl, hb.trading, hb.owed, fun j hj => ?_, ?_, ?_⟩, ?_, haccounts⟩
  · rw [hctx] at hj
    obtain ⟨h1, h2, h3⟩ := hb.members j hj
    exact ⟨by rw [hused, h.used]; exact h1, h2, h3⟩
  · rw [hctx, hparams, h.params]; exact hb.pair
  · rw [hctx]; exact hb.instant
  · rw [hctx]

/-! ### Liquidating -/

theorem Between.liquidatePartial (h : Between sc c ctx l s ph) (allowed : sc.liquidates)
    (hi : i ∈ ctx.touchedAccounts) (pending : ctx.pendingReset = fun _ => false)
    (eff : effectivePosQ s i = some old) (side : sideOfI128 old = some d) :
    wp (Percolator.liquidatePartial i price old d q ctx)
      (fun ctx' s' l' => ∃ ph', Between sc c ctx' l' s' ph') Fault.Sound s l := by
  simp only [Percolator.liquidatePartial, wp_bind, wp_read, wp_lift, wp_rejectIf, wp_expect, wp_pure,
    Fault.sound_plain, implies_true, true_and]
  intro hq
  have hpending : ∀ d, ph.pending d = false := fun e => by rw [h.pending, pending]
  have hcloses : Closes s i d q old
      (if 0 < old then ((old.natAbs - q : Nat) : Int) else -((old.natAbs - q : Nat) : Int)) := by
    have hs := sideOfI128_eq_some.mp side
    refine ⟨eff, side, by omega, ?_, .inr (sideOfI128_eq_some.mpr ?_)⟩
    · split_ifs <;> omega
    · cases d <;> dsimp only at * <;> split_ifs <;> omega
  refine wp_mono (h.closeAtOracle allowed hi hpending hcloses) ?_ fun _ _ he => he
  intro _ s₁ l₁ h₁
  refine wp_mono (h₁.enqueueAdl h hi hcloses.pos pending) ?_ fun _ _ he => he
  rintro ctx₂ s₂ l₂ ⟨ph₂, h₂, -, -⟩
  exact fun _ _ _ => ⟨ph₂, h₂⟩

/-- A flat account has no effective position. -/
theorem effectivePosQ_flat (h : (s.accounts i).positionBasisQ = 0) : effectivePosQ s i = some 0 := by
  unfold effectivePosQ
  simp only [sideOfI128_eq_none.mpr h]

theorem Between.liquidateFull (h : Between sc c ctx l s ph) (allowed : sc.liquidates)
    (hi : i ∈ ctx.touchedAccounts) (pending : ctx.pendingReset = fun _ => false)
    (eff : effectivePosQ s i = some old) (side : sideOfI128 old = some d) :
    wp (Percolator.liquidateFull i price old d ctx)
      (fun ctx' s' l' => ∃ ph', Between sc c ctx' l' s' ph') Fault.Sound s l := by
  simp only [Percolator.liquidateFull, wp_bind, wp_read, wp_lift, wp_rejectIf, wp_expect, wp_whenever, wp_pure,
    Fault.sound_plain, implies_true, true_and]
  have hpending : ∀ d, ph.pending d = false := fun e => by rw [h.pending, pending]
  have hcloses : Closes s i d old.natAbs old 0 := by
    have hs := sideOfI128_eq_some.mp side
    exact ⟨eff, side, by cases d <;> dsimp only at hs <;> omega, by simp, .inl rfl⟩
  refine wp_mono (h.closeAtOracle allowed hi hpending hcloses) ?_ fun _ _ he => he
  intro _ s₁ l₁ h₁ effPost _ _
  refine wp_mono (h₁.enqueueAdl h hi hcloses.pos pending) ?_ fun _ _ he => he
  rintro ctx₂ s₂ l₂ ⟨ph₂, h₂, hsub, haccounts⟩
  refine ⟨fun hd => wp_plain fun r s₃ l₃ hok => ?_, fun _ => ⟨ph₂, h₂⟩⟩
  have hneg : (s₂.accounts i).pnl < 0 := by
    rw [haccounts]
    by_contra hn
    exact hd (if_neg fun ht => hn (of_decide_eq_true ht).2)
  have hflat : effectivePosQ s₂ i = some 0 := effectivePosQ_flat (by rw [haccounts]; exact h₁.basis)
  obtain ⟨used, reach, -⟩ := h₂.members i (hsub ▸ hi)
  exact ⟨ph₂, h₂.forgave used reach (Booked.writeOff hflat hneg (Nat.zero_le _) hok)⟩

theorem Between.liquidate {policy : LiquidationPolicy} (h : Between sc c ctx l s ph)
    (allowed : sc.liquidates) (hi : i ∈ ctx.touchedAccounts)
    (pending : ctx.pendingReset = fun _ => false) :
    wp (liquidateAtOracleInternal i price policy ctx)
      (fun r s' l' => ∃ ph', Between sc c r.2 l' s' ph') Fault.Sound s l := by
  simp only [liquidateAtOracleInternal, wp_bind, wp_read, wp_ite, wp_lift, wp_rejectIf, wp_expect, wp_pure,
    Fault.sound_plain, implies_true, true_and]
  refine ⟨fun _ => ⟨ph, h⟩, fun _ _ old eff => ?_⟩
  cases side : sideOfI128 old with
  | none => exact wp_pure.mpr ⟨ph, h⟩
  | some d =>
      simp only [wp_bind, wp_ite, wp_lift, wp_expect, wp_pure, Fault.sound_plain, implies_true, true_and]
      refine fun healthy _ => ⟨fun _ => ⟨ph, h⟩, fun _ => ?_⟩
      cases policy with
      | exactPartial q => exact h.liquidatePartial allowed hi pending eff side
      | fullClose => exact h.liquidateFull allowed hi pending eff side

/-- A liquidation runs to rest, and no check of its state fails. -/
theorem Good.liquidateAtOracle {now hMin hMax : Nat} {rate : Int} {policy : LiquidationPolicy}
    (h : Good ⟨s, .idle⟩) (fits : now ≤ U64_MAX) (reach : sc.reach i) (allowed : sc.liquidates)
    (instant : hMin = 0 → sc.instant) :
    wp (Percolator.liquidateAtOracle i now price policy rate hMin hMax)
      (fun _ s' l' => Done sc ⟨s, .idle⟩ l' s') Fault.Sound s [] := by
  simp only [Percolator.liquidateAtOracle, validateAdmissionPair, wp_bind, wp_read, wp_lift, wp_rejectIf,
    wp_pure, Fault.sound_plain, implies_true, true_and, not_not]
  intro pair _ _
  refine wp_mono (h.accrue sc pair instant fits) ?_ fun _ _ he => he
  rintro _ s₁ l₁ ⟨-, h₁⟩
  refine wp_mono (h₁.touch reach) ?_ fun _ _ he => he
  rintro ctx₂ s₂ l₂ ⟨ph₂, h₂, hp, hi, -, -⟩
  refine wp_mono (h₂.liquidate allowed hi hp) ?_ fun _ _ he => he
  rintro ⟨_, ctx₃⟩ s₃ l₃ ⟨ph₃, h₃⟩
  exact h₃.conclude

/-! ### The crank -/

theorem validateKeeperHint_none {eff : Int} : validateKeeperHint s i eff none price = some none := rfl

theorem Between.crankCandidate {hint : Option LiquidationPolicy} (h : Between sc c ctx l s ph)
    (reach : sc.reach i) (allowed : hint ≠ none → sc.liquidates)
    (pending : ctx.pendingReset = fun _ => false) :
    wp (Percolator.crankCandidate i hint price ctx)
      (fun r s' l' => ∃ ph', Between sc c r.2 l' s' ph') Fault.Sound s l := by
  simp only [Percolator.crankCandidate, wp_bind, wp_read, wp_ite, wp_lift, wp_expect, wp_pure,
    Fault.sound_plain, implies_true, true_and]
  refine wp_mono (h.touch reach) ?_ fun _ _ he => he
  rintro ctx₁ s₁ l₁ ⟨ph₁, h₁, hp, hi, -, -⟩ eff _
  refine ⟨fun _ => ⟨ph₁, h₁⟩, fun _ healthy _ => ⟨fun _ => ⟨ph₁, h₁⟩, fun _ => fun policy hpolicy => ?_⟩⟩
  cases policy with
  | none => exact wp_pure.mpr ⟨ph₁, h₁⟩
  | some policy =>
      have hhint : hint ≠ none := by
        rintro rfl
        rw [validateKeeperHint_none] at hpolicy
        cases hpolicy
      exact h₁.liquidate (allowed hhint) hi (hp.trans pending)

/-- What the crank does is the work of its candidates, in their order. -/
theorem Between.crankLoop {candidates : List (Nat × Option LiquidationPolicy)} {budget count : Nat}
    (h : Between sc c ctx l s ph) (reach : ∀ p ∈ candidates, sc.reach p.1)
    (allowed : ∀ p ∈ candidates, p.2 ≠ none → sc.liquidates) :
    wp (Percolator.crankLoop price candidates budget count ctx)
      (fun r s' l' => ∃ ph', Between sc c r.2 l' s' ph') Fault.Sound s l := by
  induction candidates generalizing budget count ctx l s ph with
  | nil => exact wp_pure.mpr ⟨ph, h⟩
  | cons p rest ih =>
      obtain ⟨i, hint⟩ := p
      have reach' : ∀ p ∈ rest, sc.reach p.1 := fun p hp => reach p (List.mem_cons_of_mem _ hp)
      have allowed' : ∀ p ∈ rest, p.2 ≠ none → sc.liquidates :=
        fun p hp => allowed p (List.mem_cons_of_mem _ hp)
      simp only [Percolator.crankLoop, wp_bind, wp_read, wp_ite, wp_pure]
      refine ⟨fun _ => ⟨ph, h⟩, fun hgo => ⟨fun _ => ih h reach' allowed', fun _ => ?_⟩⟩
      have pending : ctx.pendingReset = fun _ => false := by
        simp only [not_or, Bool.not_eq_true] at hgo
        exact funext fun d => by cases d <;> simp [hgo]
      refine wp_mono (h.crankCandidate (reach _ List.mem_cons_self) (allowed _ List.mem_cons_self)
        pending) ?_ fun _ _ he => he
      rintro ⟨_, ctx₁⟩ s₁ l₁ ⟨ph₁, h₁⟩
      exact ih h₁ reach' allowed'

/-- The crank concludes whatever its candidates did. -/
theorem Between.crank {candidates : List (Nat × Option LiquidationPolicy)} {budget count : Nat}
    (h : Between sc c ctx l s ph) (reach : ∀ p ∈ candidates, sc.reach p.1)
    (allowed : ∀ p ∈ candidates, p.2 ≠ none → sc.liquidates) :
    wp (Percolator.crankLoop price candidates budget count ctx) (fun r s l =>
      wp (finalizeTouchedAccountsPostLive r.2) (fun _ s l => wp (endOfInstructionResets r.2)
        (fun _ s l => wp assertPublicPostconditions (fun _ s' l' => Done sc c l' s') Fault.Sound s l)
        Fault.Sound s l) (fun p => Fault.Sound (.plain p)) s l) Fault.Sound s l := by
  refine wp_mono (h.crankLoop reach allowed) ?_ fun _ _ he => he
  rintro r s₁ l₁ ⟨ph₁, h₁⟩
  exact h₁.conclude

/-- The keeper crank runs to rest, and no check of its state fails. -/
theorem Good.keeperCrank {now hMin hMax budget : Nat} {rate : Int}
    {candidates : List (Nat × Option LiquidationPolicy)} (h : Good ⟨s, .idle⟩) (fits : now ≤ U64_MAX)
    (reach : ∀ p ∈ candidates, sc.reach p.1) (allowed : ∀ p ∈ candidates, p.2 ≠ none → sc.liquidates)
    (instant : hMin = 0 → sc.instant) :
    wp (Percolator.keeperCrank now price candidates budget rate hMin hMax)
      (fun _ s' l' => Done sc ⟨s, .idle⟩ l' s') Fault.Sound s [] := by
  simp only [Percolator.keeperCrank, validateAdmissionPair, wp_bind, wp_read, wp_lift, wp_rejectIf,
    wp_pure, wp_whenever, wp_update, Fault.sound_plain, implies_true, true_and, not_not]
  intro pair _ _ _ _ _
  refine wp_mono (h.accrue sc pair instant fits) ?_ fun _ _ he => he
  rintro _ s₁ l₁ ⟨-, h₁⟩
  have htimely : Timely s₁ := h₁.good.timely
  have hclock : Clocked s₁ s₁.currentSlot s₁.lastMarketSlot :=
    .live h₁.live le_rfl (htimely.market_le h₁.live) (htimely.within h₁.live)
  have h₂ := h₁.carry (h₁.toCourse.quiet (.clocked _ now _ hclock)) rfl rfl rfl rfl rfl rfl rfl
    fun _ hi => hi
  exact ⟨fun _ => h₂.crank reach allowed, fun _ => h₁.crank reach allowed⟩

end Percolator
