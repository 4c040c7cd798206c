import Percolator.Machine.Live

/-!
The course of a trade: its plan, the slippage of both legs, their attachment, the
fee and the margin checks.
-/

namespace Percolator

open Effect

variable {sc : Scope} {c : Conf} {ctx ctx' : InstructionContext} {l l' : List Event}
  {s s' : RiskEngine} {ph ph' : Phase} {i a b price : Nat} {d : Side} {q : Int} {plan : TradePlan}

/-! ### The plan -/

/-- Effective positions see the position of the account, and epoch and multiplier of its side. -/
theorem effectivePosQ_congr (hp : (s.accounts i).SamePosition (s'.accounts i))
    (he : ∀ d, (s'.sides d).adlEpoch = (s.sides d).adlEpoch)
    (hm : ∀ d, (s'.sides d).adlMult = (s.sides d).adlMult) : effectivePosQ s' i = effectivePosQ s i := by
  obtain ⟨h1, h2, -, -, h5⟩ := hp
  unfold effectivePosQ
  simp only [h1, h2, h5, he, hm]

/-- An attached position is effective as it is. -/
theorem Attached.effective {v : Int} {f : Side → Seats} (h : Attached s s' i v f)
    (mult : ∀ d, 0 < (s.sides d).adlMult ∧ (s.sides d).adlMult ≤ ADL_ONE) : effectivePosQ s' i = some v := by
  have bound := h.bound
  have account : s'.accounts i = (s.accounts i).attachedTo s.sides v := by
    rw [h.eq, RiskEngine.reseat_accounts, put_same]
  unfold effectivePosQ
  rw [account]
  unfold Account.attachedTo
  cases side : sideOfI128 v with
  | none =>
      rw [sideOfI128_eq_none.mp side]
      rfl
  | some d =>
      obtain ⟨pos, le⟩ := mult d
      have epoch : (s'.sides d).adlEpoch = (s.sides d).adlEpoch := by rw [h.eq]; rfl
      have same : (s'.sides d).adlMult = (s.sides d).adlMult := by rw [h.eq]; rfl
      have whole : mulDivFloorU128 v.natAbs (s.sides d).adlMult (s.sides d).adlMult = some v.natAbs := by
        have product : v.natAbs * (s.sides d).adlMult ≤ MAX_POSITION_ABS_Q * ADL_ONE :=
          Nat.mul_le_mul bound le
        unfold mulDivFloorU128
        rw [if_neg (by simp only [MAX_POSITION_ABS_Q, ADL_ONE, U128_MAX] at *; omega), Nat.mul_div_cancel _ pos]
      have small : ¬ I128_MAX < (v.natAbs : Int) := by
        simp only [MAX_POSITION_ABS_Q, I128_MAX] at *
        omega
      simp only [Account.attachSnaps_positionBasisQ, Account.attachSnaps_adlABasis, Account.attachSnaps_adlEpochSnap,
        Account.withPositionBasisQ_positionBasisQ, side, epoch, same, ne_eq, not_true_eq_false, false_or,
        if_neg pos.ne', whole, Option.bind_eq_bind, Option.bind_some, if_neg small]
      have sign := sideOfI128_eq_some.mp side
      refine congrArg some ?_
      cases d <;> dsimp only at sign ⊢ <;> omega

/-- The open interest that the trade will leave on side `d`. -/
def TradePlan.oiAfter (plan : TradePlan) : Side → Nat
  | .long => plan.oiLongAfter
  | .short => plan.oiShortAfter

/-- What a plan has checked in the state it was made in. -/
structure Planned (s : RiskEngine) (a b : Nat) (q : Int) (plan : TradePlan) : Prop where
  effA : effectivePosQ s a = some plan.oldEffA
  effB : effectivePosQ s b = some plan.oldEffB
  newA : plan.newEffA = plan.oldEffA + q
  newB : plan.newEffB = plan.oldEffB - q
  after_eq : ∀ d, plan.oiAfter d + oiComponent d plan.oldEffA + oiComponent d plan.oldEffB =
    (s.sides d).oiEffQ + oiComponent d plan.newEffA + oiComponent d plan.newEffB
  after_le : ∀ d, plan.oiAfter d ≤ MAX_OI_SIDE_Q
  unblocked : ∀ d, (s.sides d).sideMode ≠ .normal → plan.oiAfter d ≤ (s.sides d).oiEffQ

/-- The positions that the plan foresees on side `d`. -/
def TradePlan.countAfter (plan : TradePlan) (s : RiskEngine) (d : Side) : Int :=
  (s.sides d).storedPosCount + legsOn d plan.newEffA plan.newEffB - legsOn d plan.oldEffA plan.oldEffB

theorem oiAfter_sound {oi : Nat} {oldA newA oldB newB : Int}
    (hle : oiComponent d oldA + oiComponent d oldB ≤ oi) :
    wp (oiAfter d oi oldA newA oldB newB) (fun n s' l' => s' = s ∧ l' = l ∧
      n + oiComponent d oldA + oiComponent d oldB = oi + oiComponent d newA + oiComponent d newB)
      Fault.Sound s l := by
  simp only [oiAfter, wp_bind, wp_demand, wp_lift, wp_orErr, Fault.sound_plain, implies_true, true_and]
  refine ⟨fun h => ?_, fun x hx => ⟨fun h => ?_, fun y hy z hz n hn => ?_⟩⟩
  · unfold checkedSub at h
    split_ifs at h
    omega
  · have := checkedSub_eq hx
    unfold checkedSub at h
    split_ifs at h
    omega
  · have := checkedSub_eq hx
    have := checkedSub_eq hy
    have := (checkedAddU128_eq hz).1
    have := (checkedAddU128_eq hn).1
    omega

/-- Two positions of a balanced market are within the open interest of each side. -/
theorem Positions.two_le (h : Positions s ph) (pending : ∀ d, ph.pending d = false)
    (usedA : s.isUsed a = true) (usedB : s.isUsed b = true) (ne : a ≠ b) {oldA oldB : Int}
    (effA : effectivePosQ s a = some oldA) (effB : effectivePosQ s b = some oldB) (d : Side) :
    oiComponent d oldA + oiComponent d oldB ≤ (s.sides d).oiEffQ := by
  rw [h.seated.component usedA effA, h.seated.component usedB effB]
  have := two_le_tally (f := Account.floorShare d (s.sides d)) (t := s.accounts)
    (RiskEngine.mem_usedSlots.mpr usedA) (RiskEngine.mem_usedSlots.mpr usedB) ne
  have := h.floors_le d (pending d)
  omega

/-- No trade passes the gates while a side waits for its reset: both sides are empty then, and it
would open interest on each. -/
theorem Planned.not_pending (h : Planned s a b q plan) (positions : Positions s ph)
    (balanced : (s.sides .long).oiEffQ = (s.sides .short).oiEffQ) (pending : ∀ d, ph.pending d = false)
    (usedA : s.isUsed a = true) (usedB : s.isUsed b = true) (ne : a ≠ b) (pos : 0 < q) (d : Side) :
    (s.sides d).sideMode ≠ .resetPending := by
  intro mode
  have drained := (positions.side d).drained mode
  have long := positions.two_le pending usedA usedB ne h.effA h.effB .long
  have short := positions.two_le pending usedA usedB ne h.effA h.effB .short
  have after := h.after_eq d
  have unblocked := h.unblocked d (by rw [mode]; rintro ⟨⟩)
  have newA := h.newA
  have newB := h.newB
  simp only [oiComponent] at *
  cases d <;> dsimp only at * <;> omega

/-- A leg counts by its effective position as it is stored. -/
theorem Seated.counted (h : Seated s) (used : s.isUsed i = true)
    (waiting : ∀ d, (s.sides d).sideMode ≠ .resetPending) (whole : (s.accounts i).Whole s.sides) {e : Int}
    (eff : effectivePosQ s i = some e) (d : Side) : sideOfI128 e = some d ↔ sideOfI128 (s.accounts i).positionBasisQ = some d := by
  constructor
  · intro side
    exact (h.open_side used eff side).1
  · intro side
    have current : (s.accounts i).adlEpochSnap = (s.sides d).adlEpoch := by
      rcases (h.position i d used side).epoch with ⟨-, current⟩ | ⟨mode, -⟩
      · exact current
      · exact absurd mode (waiting d)
    have floor := whole d side current
    have component := h.component used eff d
    rw [Account.floorShare, if_pos ⟨side, current⟩] at component
    refine sideOfI128_eq_some.mpr ?_
    cases d <;> simp only [oiComponent] at * <;> omega

theorem checkPositionCap_spec {oldA newA oldB newB : Int}
    (hok : checkPositionCap d oldA newA oldB newB s = .ok () s' l) : s' = s ∧ l = [] ∧
      (s.sides d).storedPosCount + legsOn d newA newB - legsOn d oldA oldB ≤ s.params.maxActivePositionsPerSide := by
  refine wp_sound (Q := fun _ s' l => s' = s ∧ l = [] ∧ (s.sides d).storedPosCount + legsOn d newA newB -
    legsOn d oldA oldB ≤ s.params.maxActivePositionsPerSide) hok ?_
  simp only [checkPositionCap, wp_bind, wp_read, wp_rejectIf, implies_true, true_and, not_lt]
  exact fun _ within => within

/-- A plan with its gates on open interest, as far as the cap on positions. -/
def gateTrade (a b oraclePrice : Nat) (sizeQ : Int) : Op TradePlan := do
  let s ← read
  let oldEffA ← expect (effectivePosQ s a)
  let oldEffB ← expect (effectivePosQ s b)
  let mmReqPreA ← expect (mmReqAt s.params oldEffA oraclePrice)
  let mmReqPreB ← expect (mmReqAt s.params oldEffB oraclePrice)
  let bufferPreA := accountEquityMaintRawWide (s.accounts a) - mmReqPreA
  let bufferPreB := accountEquityMaintRawWide (s.accounts b) - mmReqPreB
  let newEffA ← orErr (checkedAddI128 oldEffA sizeQ) .overflow
  let negSizeQ ← orErr (checkedNegI128 sizeQ) .overflow
  let newEffB ← orErr (checkedAddI128 oldEffB negSizeQ) .overflow
  rejectIf (MAX_POSITION_ABS_Q < newEffA.natAbs) .overflow
  rejectIf (MAX_POSITION_ABS_Q < newEffB.natAbs) .overflow
  let notionalA ← expect (notionalOf newEffA.natAbs oraclePrice)
  rejectIf (MAX_ACCOUNT_NOTIONAL < notionalA) .overflow
  let notionalB ← expect (notionalOf newEffB.natAbs oraclePrice)
  rejectIf (MAX_ACCOUNT_NOTIONAL < notionalB) .overflow
  maybeFinalizeReadyResetSides
  let (oiLongAfter, oiShortAfter) ← bilateralOiAfter oldEffA newEffA oldEffB newEffB
  rejectIf (MAX_OI_SIDE_Q < oiLongAfter ∨ MAX_OI_SIDE_Q < oiShortAfter) .overflow
  let s ← read
  rejectIf (s.blocks .long oiLongAfter) .sideBlocked
  rejectIf (s.blocks .short oiShortAfter) .sideBlocked
  pure ⟨oldEffA, oldEffB, newEffA, newEffB, bufferPreA, bufferPreB, oiLongAfter, oiShortAfter⟩

/-- The cap is the last thing that a plan checks. -/
theorem planTrade_eq : Percolator.planTrade a b price q = (do
    let plan ← gateTrade a b price q
    checkPositionCap .long plan.oldEffA plan.newEffA plan.oldEffB plan.newEffB
    checkPositionCap .short plan.oldEffA plan.newEffA plan.oldEffB plan.newEffB
    pure plan) := by
  simp only [Percolator.planTrade, gateTrade, seq_assoc, ret_seq]

/-- A plan is made, and its check of the open interest cannot fail. -/
theorem Course.gateTrade (h : Course sc c l s ph) (live : s.marketMode = .live)
    (pending : ∀ d, ph.pending d = false) (usedA : s.isUsed a = true) (usedB : s.isUsed b = true)
    (ne : a ≠ b) :
    wp (Percolator.gateTrade a b price q) (fun plan s' l' => Course sc c l' s' ph ∧
      s' = s.withSides (fun d => (s.sides d).reopened) ∧ Planned s' a b q plan) Fault.Sound s l := by
  simp only [Percolator.gateTrade, wp_bind, wp_read, wp_lift, wp_expect, wp_orErr, wp_rejectIf, wp_pure,
    Fault.sound_plain, implies_true, true_and]
  intro oldA effA oldB effB _ _ _ _ newA hnewA negQ hneg newB hnewB _ _ _ _ _ _ _ _
  refine wp_plain fun _ s₁ l₁ hok => ?_
  obtain ⟨rfl, rfl⟩ := maybeFinalizeReadyResetSides_spec hok
  have h₁ := h.quiet .reopened
  rw [List.append_nil]
  set s₁ := s.withSides fun d => (s.sides d).reopened with hs₁
  have hsides : ∀ d, s₁.sides d = (s.sides d).reopened := fun _ => rfl
  have heff : ∀ i, effectivePosQ s₁ i = effectivePosQ s i := fun i =>
    effectivePosQ_congr (.refl _) (fun d => by rw [hsides, SideState.reopened_eq])
      fun d => by rw [hsides, SideState.reopened_eq]
  rw [← heff] at effA effB
  have hle := (h₁.good.positions live).two_le pending usedA usedB ne effA effB
  obtain ⟨rfl, -⟩ := toI128_eq hnewA
  obtain ⟨rfl, -⟩ := toI128_eq hneg
  obtain ⟨rfl, -⟩ := toI128_eq hnewB
  simp only [bilateralOiAfter, wp_bind, wp_read, wp_pure]
  refine wp_mono (oiAfter_sound (hle .long)) ?_ fun _ _ he => he
  rintro long _ _ ⟨rfl, rfl, hlong⟩
  refine wp_mono (oiAfter_sound (hle .short)) ?_ fun _ _ he => he
  rintro short _ _ ⟨rfl, rfl, hshort⟩
  simp only [not_or, not_lt]
  intro hmax hblockL hblockS
  refine ⟨h₁, trivial, effA, effB, rfl, Int.sub_eq_add_neg.symm, ?_, ?_, ?_⟩
  · rintro (_ | _)
    · exact hlong
    · exact hshort
  · rintro (_ | _)
    · exact hmax.1
    · exact hmax.2
  · rintro (_ | _) hmode
    · exact not_lt.mp fun hlt => hblockL ⟨hmode, hlt⟩
    · exact not_lt.mp fun hlt => hblockS ⟨hmode, hlt⟩

/-- A plan that is made is within the cap. -/
theorem Course.planTrade (h : Course sc c l s ph) (live : s.marketMode = .live)
    (pending : ∀ d, ph.pending d = false) (usedA : s.isUsed a = true) (usedB : s.isUsed b = true)
    (ne : a ≠ b) :
    wp (Percolator.planTrade a b price q) (fun plan s' l' => Course sc c l' s' ph ∧
      s' = s.withSides (fun d => (s.sides d).reopened) ∧ Planned s' a b q plan ∧
      ∀ d, plan.countAfter s' d ≤ s'.params.maxActivePositionsPerSide) Fault.Sound s l := by
  rw [planTrade_eq]
  simp only [wp_bind, wp_lift, wp_pure]
  refine wp_mono (h.gateTrade live pending usedA usedB ne) ?_ fun _ _ he => he
  rintro plan s₁ l₁ ⟨h₁, reopened, planned⟩
  refine wp_plain fun _ s₂ l₂ hok => wp_plain fun _ s₃ l₃ hok' => ?_
  obtain ⟨rfl, rfl, capL⟩ := checkPositionCap_spec hok
  obtain ⟨rfl, rfl, capS⟩ := checkPositionCap_spec hok'
  rw [List.append_nil, List.append_nil]
  refine ⟨h₁, reopened, planned, ?_⟩
  rintro (_ | _)
  · exact capL
  · exact capS

/-! ### Slippage, attachment and fees -/

/-- PnL may move by `δ` without leaving `i128`. -/
theorem checkedAddI128_range {x y v : Int} (h : checkedAddI128 x y = some v) (hne : v ≠ I128_MIN) :
    v = x + y ∧ I128_MIN < x + y := by
  obtain ⟨rfl, hmin, -⟩ := toI128_eq h
  exact ⟨rfl, lt_of_le_of_ne hmin (Ne.symm hne)⟩

/-- The legs of a trade between its slippage and its checks. -/
structure MidTrade (sc : Scope) (c : Conf) (a b : Nat) (l : List Event) (s : RiskEngine) (ph : Phase) :
    Prop extends Course sc c l s ph where
  live : s.marketMode = .live
  usedA : s.isUsed a = true
  usedB : s.isUsed b = true
  reachA : sc.reach a
  reachB : sc.reach b
  allowedA : sc.charges a
  allowedB : sc.charges b

theorem MidTrade.next (h : MidTrade sc c a b l s ph) (hc : Course sc c l' s' ph')
    (live : s'.marketMode = s.marketMode) (used : s'.isUsed = s.isUsed) : MidTrade sc c a b l' s' ph' :=
  ⟨hc, live.trans h.live, by rw [used]; exact h.usedA, by rw [used]; exact h.usedB, h.reachA, h.reachB,
    h.allowedA, h.allowedB⟩

theorem MidTrade.swap (h : MidTrade sc c a b l s ph) : MidTrade sc c b a l s ph :=
  ⟨h.toCourse, h.live, h.usedB, h.usedA, h.reachB, h.reachA, h.allowedB, h.allowedA⟩

/-- What booking PnL and money on the legs keeps of the engine. -/
structure SameSeats (s s' : RiskEngine) : Prop where
  setting : s'.setting = s.setting
  mode : s'.marketMode = s.marketMode
  params : s'.params = s.params
  used : s'.isUsed = s.isUsed
  sides : s'.sides = s.sides
  position : ∀ i, (s.accounts i).SamePosition (s'.accounts i)

theorem SameSeats.refl (s : RiskEngine) : SameSeats s s :=
  ⟨rfl, rfl, rfl, rfl, rfl, fun _ => .refl _⟩

theorem SameSeats.trans {s₁ : RiskEngine} (h : SameSeats s s₁) (h' : SameSeats s₁ s') : SameSeats s s' :=
  ⟨h'.setting.trans h.setting, h'.mode.trans h.mode, h'.params.trans h.params, h'.used.trans h.used, h'.sides.trans h.sides,
    fun i => (h.position i).trans (h'.position i)⟩

theorem SameSeats.rebook {a' : Account} {t' : Totals} (h : (s.accounts i).SamePosition a') :
    SameSeats s (s.rebook i a' t') := by
  refine ⟨rfl, rfl, rfl, rfl, rfl, fun j => ?_⟩
  by_cases hj : j = i
  · subst hj; rw [RiskEngine.rebook_accounts, put_same]; exact h
  · rw [RiskEngine.rebook_accounts, put_other _ _ hj]; exact .refl _

theorem Booked.sameSeats {P : RiskEngine → Nat → Account → Totals → List Event → Prop}
    (hb : Booked P i s s' l') (hp : ∀ a' t', P s i a' t' l' → (s.accounts i).SamePosition a') :
    SameSeats s s' := by
  rcases hb with ⟨rfl, rfl⟩ | ⟨a', t', rfl, hP⟩
  · exact .refl _
  · exact .rebook (hp a' t' hP)

theorem SameSeats.effective (h : SameSeats s s') (i : Nat) : effectivePosQ s' i = effectivePosQ s i :=
  effectivePosQ_congr (h.position i) (fun d => by rw [h.sides]) fun d => by rw [h.sides]

/-- One leg takes its part of the slippage. -/
theorem MidTrade.slip {legs : List Nat} {δ v : Int} (h : MidTrade sc c a b l s ph)
    (leg : a ∈ legs) (same : ph.trading = [] ∨ ph.trading = legs)
    (pair : AdmissionPair s.params ctx.admitHMinShared ctx.admitHMaxShared)
    (instant : ctx.admitHMinShared = 0 → sc.instant) (hv : v = (s.accounts a).pnl + δ)
    (range : I128_MIN < (s.accounts a).pnl + δ) (hok : setPnlAdmitted a v ctx s = .ok ctx' s' l') :
    MidTrade sc c a b (l ++ l') s' { ph with trading := legs, owed := ph.owed + δ } ∧ SameSeats s s' ∧
      ctx.SameButSticky ctx' := by
  subst hv
  obtain ⟨a', t', rfl, rfl, hc, -, hset⟩ := setPnlAdmitted_spec hok h.live pair
  have hcourse := h.toCourse.step
    (.slipped legs h.usedA h.reachA h.allowedA h.live leg same instant range hset)
  exact ⟨h.next hcourse rfl rfl, .rebook hset.same.position, hc⟩

/-- The slippage of a trade is credited to one leg and debited to the other. -/
theorem MidTrade.settle {tradePnlA : Int} (h : MidTrade sc c a b l s ph) (trading : ph.trading = [])
    (owed : ph.owed = 0) (pair : AdmissionPair s.params ctx.admitHMinShared ctx.admitHMaxShared)
    (instant : ctx.admitHMinShared = 0 → sc.instant) :
    wp (settleTradePnl a b tradePnlA ctx) (fun ctx' s' l' =>
      MidTrade sc c a b l' s' { ph with trading := [a, b], owed := 0 } ∧ SameSeats s s' ∧
        ctx.SameButSticky ctx') (fun p => Fault.Sound (.plain p)) s l := by
  simp only [settleTradePnl, wp_bind, wp_read, wp_orErr, wp_rejectIf, Fault.sound_plain, implies_true,
    true_and]
  intro negPnl hneg pnlA hA hneA
  refine wp_plain fun ctx₁ s₁ l₁ hok pnlB hB hneB => wp_plain fun ctx₂ s₂ l₂ hok' => ?_
  obtain ⟨rfl, -⟩ := toI128_eq hneg
  obtain ⟨hA, hrA⟩ := checkedAddI128_range hA hneA
  obtain ⟨hB, hrB⟩ := checkedAddI128_range hB hneB
  obtain ⟨h₁, hs₁, hc₁⟩ := h.slip (by simp : a ∈ [a, b]) (.inl trading) pair instant hA hrA hok
  have pair₁ : AdmissionPair s₁.params ctx₁.admitHMinShared ctx₁.admitHMaxShared := by
    rw [hc₁, hs₁.params]; exact pair
  have instant₁ : ctx₁.admitHMinShared = 0 → sc.instant := by rw [hc₁]; exact instant
  obtain ⟨h₂, hs₂, hc₂⟩ :=
    h₁.swap.slip (by simp : b ∈ [a, b]) (.inr rfl) pair₁ instant₁ hB hrB hok'
  refine ⟨?_, hs₁.trans hs₂, ?_⟩
  · have hz : ph.owed + tradePnlA + -tradePnlA = 0 := by omega
    simpa only [hz] using h₂.swap
  · rw [hc₂, hc₁]; rfl

theorem MidTrade.booked (h : MidTrade sc c a b l s ph) (hb : Booked Entry a s s' l') :
    MidTrade sc c a b (l ++ l') s' ph ∧ SameSeats s s' := by
  have hs := hb.sameSeats fun _ _ e => e.exact.position
  exact ⟨h.next (h.toCourse.booked h.usedA h.reachA hb) hs.mode hs.used, hs⟩

theorem MidTrade.charged (h : MidTrade sc c a b l s ph) (hb : Booked Charged a s s' l') :
    MidTrade sc c a b (l ++ l') s' ph ∧ SameSeats s s' := by
  have hs := hb.sameSeats fun _ _ e => e.1.exact.position
  exact ⟨h.next (h.toCourse.charged h.usedA h.reachA (.inl h.allowedA) hb) hs.mode hs.used, hs⟩

/-- The fee of a trade is charged to both legs. -/
theorem MidTrade.chargeFee {fee : Nat} (h : MidTrade sc c a b l s ph) :
    wp (chargeTradeFee a b fee) (fun _ s' l' => MidTrade sc c a b l' s' ph ∧ SameSeats s s')
      (fun p => Fault.Sound (.plain p)) s l := by
  simp only [chargeTradeFee, wp_ite, wp_bind, wp_rejectIf, wp_pure, Fault.sound_plain, implies_true,
    true_and]
  refine ⟨fun _ _ => wp_plain fun r s₁ l₁ hok => ?_, fun _ => ⟨h, .refl s⟩⟩
  refine wp_plain fun r' s₂ l₂ hok' => ?_
  obtain ⟨h₁, hs₁⟩ := h.charged (chargeFeeToInsurance_spec hok (h.toCourse.fee h.usedA))
  obtain ⟨h₂, hs₂⟩ := h₁.swap.charged (chargeFeeToInsurance_spec hok' (h₁.toCourse.fee h₁.usedB))
  exact ⟨h₂.swap, hs₁.trans hs₂⟩

theorem Account.attachedTo_basis (x : Account) (sides : Side → SideState) (v : Int) :
    (x.attachedTo sides v).positionBasisQ = v := by
  unfold attachedTo
  cases h : sideOfI128 v with
  | none => exact (sideOfI128_eq_none.mp h).symm
  | some d => rfl

/-- Account `i` is settled and holds the effective position `eff`. -/
structure HoldsPosition (s : RiskEngine) (i : Nat) (eff : Int) : Prop where
  synced : (s.accounts i).Synced s.sides
  effective : effectivePosQ s i = some eff

theorem SameSeats.holds {eff : Int} (h : SameSeats s s') (held : HoldsPosition s i eff) : HoldsPosition s' i eff := by
  refine ⟨?_, (h.effective i).trans held.effective⟩
  rw [h.sides]
  exact held.synced.position (h.position i)

/-- Both legs are attached, and the planned open interest is written. -/
theorem attachLegs_spec (hplan : Planned s a b q plan) (ne : a ≠ b) (pos : 0 < q)
    (hok : attachLegs a b plan s = .ok () s' l) :
    Traded s s' a b q plan.oldEffA plan.oldEffB plan.oiAfter ∧ l = [] ∧
      (s'.accounts a).positionBasisQ = plan.newEffA ∧ (s'.accounts b).positionBasisQ = plan.newEffB := by
  set P : RiskEngine → List Event → Prop := fun s' l =>
    Traded s s' a b q plan.oldEffA plan.oldEffB plan.oiAfter ∧ l = [] ∧
      (s'.accounts a).positionBasisQ = plan.newEffA ∧ (s'.accounts b).positionBasisQ = plan.newEffB with hP
  refine wp_sound (Q := fun _ => P) hok ?_
  simp only [attachLegs, wp_bind, wp_writeSide]
  refine wp_ok fun _ s₁ l₁ h₁ => wp_ok fun _ s₂ l₂ h₂ => ?_
  obtain ⟨f, hA, rfl⟩ := attachEffectivePosition_spec h₁
  obtain ⟨g, hB, rfl⟩ := attachEffectivePosition_spec h₂
  rw [RiskEngine.setSide_long_short]
  have hnewA := hplan.newA
  have hnewB := hplan.newB
  refine ⟨⟨ne, pos, hplan.effA, hplan.effB, ⟨s₁, s₂, f, g, hnewA ▸ hA, hnewB ▸ hB, ?_⟩,
    hnewA ▸ hnewB ▸ hplan.after_eq, hplan.after_le, hplan.unblocked⟩, rfl, ?_, ?_⟩
  · refine congrArg s₂.withSides (funext fun d => ?_)
    cases d <;> rfl
  · show (s₂.accounts a).positionBasisQ = _
    rw [hB.eq, RiskEngine.reseat_accounts, put_other _ _ ne, hA.eq, RiskEngine.reseat_accounts, put_same,
      Account.attachedTo_basis]
  · show (s₂.accounts b).positionBasisQ = _
    rw [hB.eq, RiskEngine.reseat_accounts, put_same, Account.attachedTo_basis]

/-- The counters after two positions are attached, in whichever order. -/
theorem Attached.pair {s₁ : RiskEngine} {x y : Int} {f g : Side → Seats} (hA : Attached s s₁ a x f)
    (hB : Attached s₁ s' b y g) (ne : a ≠ b) (d : Side) :
    ((s'.sides d).storedPosCount : Int) + (s.accounts a).on d + (s.accounts b).on d =
      (s.sides d).storedPosCount + legsOn d x y := by
  have onA : ((s.accounts a).attachedTo s.sides x).on d = if sideOfI128 x = some d then 1 else 0 := by
    rw [Account.on, Account.attachedTo_side]
  have onB : ((s₁.accounts b).attachedTo s₁.sides y).on d = if sideOfI128 y = some d then 1 else 0 := by
    rw [Account.on, Account.attachedTo_side]
  have other : s₁.accounts b = s.accounts b := by
    rw [hA.eq]
    exact put_other _ _ ne.symm
  have middle : (s₁.sides d).storedPosCount = (f d).stored := by
    rw [hA.eq]
    rfl
  have last : (s'.sides d).storedPosCount = (g d).stored := by
    rw [hB.eq]
    rfl
  have first := hA.stored d
  have second := hB.stored d
  rw [onA] at first
  rw [onB, other, middle] at second
  rw [last]
  unfold legsOn
  split_ifs at * <;> omega

/-- The legs count by their effective positions as they are stored. -/
theorem Planned.legs_counted (h : Planned s a b q plan) (good : Good ⟨s, ph⟩) (live : s.marketMode = .live)
    (pending : ∀ d, ph.pending d = false) (usedA : s.isUsed a = true) (usedB : s.isUsed b = true)
    (wholeA : (s.accounts a).Whole s.sides) (wholeB : (s.accounts b).Whole s.sides) (ne : a ≠ b) (pos : 0 < q)
    (d : Side) : legsOn d plan.oldEffA plan.oldEffB = (s.accounts a).on d + (s.accounts b).on d := by
  have positions : Positions s ph := good.positions live
  have waiting := h.not_pending positions good.balanced pending usedA usedB ne pos
  have sideA := positions.seated.counted usedA waiting wholeA h.effA d
  have sideB := positions.seated.counted usedB waiting wholeB h.effB d
  simp only [legsOn, Account.on, sideA, sideB]
  split_ifs <;> rfl

/-- What a plan foresees is what is stored once both legs are attached. -/
theorem Planned.counts (h : Planned s a b q plan) (good : Good ⟨s, ph⟩) (live : s.marketMode = .live)
    (pending : ∀ d, ph.pending d = false) (usedA : s.isUsed a = true) (usedB : s.isUsed b = true)
    (wholeA : (s.accounts a).Whole s.sides) (wholeB : (s.accounts b).Whole s.sides)
    (traded : Traded s s' a b q plan.oldEffA plan.oldEffB plan.oiAfter) (d : Side) :
    (s'.sides d).storedPosCount = plan.countAfter s d := by
  have old := h.legs_counted good live pending usedA usedB wholeA wholeB traded.ne traded.pos d
  obtain ⟨s₁, s₂, f, g, hA, hB, rfl⟩ := traded.legs
  have stored := hA.pair hB traded.ne d
  rw [← h.newA, ← h.newB] at stored
  show ((s₂.sides d).storedPosCount : Int) = _
  rw [TradePlan.countAfter, old]
  omega

theorem Planned.same (h : Planned s a b q plan) (hs : SameSeats s s') : Planned s' a b q plan :=
  ⟨(hs.effective a).trans h.effA, (hs.effective b).trans h.effB, h.newA, h.newB, by rw [hs.sides]; exact h.after_eq,
    h.after_le, by rw [hs.sides]; exact h.unblocked⟩

/-- The legs are attached by a trade. -/
theorem MidTrade.attach (h : MidTrade sc c a b l s ph) (hplan : Planned s a b q plan) (ne : a ≠ b)
    (pos : 0 < q) (pending : ∀ d, ph.pending d = false) (closing : ph.closing = none)
    (trading : ph.trading = [a, b]) (touchedA : a ∈ ph.touched) (touchedB : b ∈ ph.touched)
    (syncedA : (s.accounts a).Synced s.sides) (syncedB : (s.accounts b).Synced s.sides)
    (wholeA : (s.accounts a).Whole s.sides) (wholeB : (s.accounts b).Whole s.sides)
    (capped : ∀ d, plan.countAfter s d ≤ s.params.maxActivePositionsPerSide) :
    wp (attachLegs a b plan) (fun _ s' l' => MidTrade sc c a b l' s' { ph with dirty := true } ∧
      s'.setting = s.setting ∧ s'.isUsed = s.isUsed ∧
      (s'.accounts a).positionBasisQ = plan.newEffA ∧ (s'.accounts b).positionBasisQ = plan.newEffB ∧
      HoldsPosition s' a plan.newEffA ∧ HoldsPosition s' b plan.newEffB)
      (fun p => Fault.Sound (.plain p)) s l := by
  refine wp_plain fun _ s₁ l₁ hok => ?_
  obtain ⟨ht, rfl, hA, hB⟩ := attachLegs_spec hplan ne pos hok
  have counts := hplan.counts h.good h.live pending h.usedA h.usedB wholeA wholeB ht
  have hc := h.toCourse.step (.traded h.usedA h.usedB h.reachA h.reachB h.allowedA h.allowedB touchedA
    touchedB h.live pending closing trading syncedA syncedB ht fun d => by
      have within := capped d
      rw [← counts d] at within
      exact_mod_cast within)
  obtain ⟨s₂, s₃, f, g, hs₂, hs₃, rfl⟩ := ht.legs
  have hframe : s₃.marketMode = s.marketMode ∧ s₃.setting = s.setting ∧ s₃.isUsed = s.isUsed := by
    rw [hs₃.eq, hs₂.eq]; exact ⟨rfl, rfl, rfl⟩
  have other : s₃.accounts a = s₂.accounts a := by
    rw [hs₃.eq]
    exact put_other _ _ ne
  have mult : ∀ d, 0 < (s.sides d).adlMult ∧ (s.sides d).adlMult ≤ ADL_ONE := fun d =>
    ⟨((h.good.positions h.live).side d).mult_pos, ((h.good.positions h.live).side d).mult_le⟩
  have mult₂ : ∀ d, 0 < (s₂.sides d).adlMult ∧ (s₂.sides d).adlMult ≤ ADL_ONE := by
    rw [hs₂.eq]
    exact mult
  have newA := hplan.newA
  have newB := hplan.newB
  refine ⟨h.next hc hframe.1 hframe.2.2, hframe.2.1, hframe.2.2, hA, hB, ⟨?_, ?_⟩, ⟨?_, ?_⟩⟩
  · show (s₃.accounts a).Synced _
    rw [other]
    exact hs₂.synced.1.congr fun d => (hs₃.synced.2 d).symm ▸ rfl
  · rw [newA, ← hs₂.effective mult]
    refine effectivePosQ_congr ?_ (fun d => ?_) fun d => ?_
    · show (s₂.accounts a).SamePosition (s₃.accounts a)
      rw [other]
      exact .refl _
    · rw [hs₃.eq]
      rfl
    · rw [hs₃.eq]
      rfl
  · exact hs₃.synced.1.congr fun _ => rfl
  · rw [newB, ← hs₃.effective mult₂]
    exact effectivePosQ_congr (.refl _) (fun _ => rfl) fun _ => rfl

/-- The margin check of a leg changes nothing. -/
theorem enforceOneSideMargin_same {oldEff newEff buffer pnl : Int} {fee : Nat}
    (hok : enforceOneSideMargin i price oldEff newEff buffer fee pnl s = .ok () s' l) :
    s' = s ∧ l = [] := by
  refine wp_sound (Q := fun _ s' l => s' = s ∧ l = []) hok ?_
  simp only [enforceOneSideMargin, wp_bind, wp_read, wp_ite, wp_expect, wp_rejectIf, wp_pure, wp_fail,
    implies_true, true_and, and_true, and_self]

/-- The flat-close guard holds where the legs were checked. -/
theorem checkLegs_spec {x y : Nat} {tradePnlA : Int}
    (hok : checkLegs a b price plan x y tradePnlA s = .ok () s' l) :
    s' = s ∧ l = [] ∧ ¬ (plan.newEffA = 0 ∧ (s.accounts a).pnl < 0) ∧
      ¬ (plan.newEffB = 0 ∧ (s.accounts b).pnl < 0) := by
  set P : RiskEngine → List Event → Prop := fun s' l =>
    s' = s ∧ l = [] ∧ ¬ (plan.newEffA = 0 ∧ (s.accounts a).pnl < 0) ∧
      ¬ (plan.newEffB = 0 ∧ (s.accounts b).pnl < 0) with hP
  refine wp_sound (Q := fun _ => P) hok ?_
  simp only [checkLegs, wp_bind, wp_read, wp_rejectIf, implies_true, true_and]
  refine fun hA hB => wp_ok fun _ s₁ l₁ h₁ => wp_ok fun _ s₂ l₂ h₂ => ?_
  obtain ⟨rfl, rfl⟩ := enforceOneSideMargin_same h₁
  obtain ⟨rfl, rfl⟩ := enforceOneSideMargin_same h₂
  exact ⟨rfl, rfl, hA, hB⟩

/-! ### The trade -/

theorem SameSeats.synced (h : SameSeats s s') (i : Nat) (ha : (s.accounts i).Synced s.sides) :
    (s'.accounts i).Synced s'.sides := by
  rw [h.sides]; exact ha.position (h.position i)

/-- The start of a trade: the market accrued and both legs touched. -/
def openTrade (a b oraclePrice nowSlot : Nat) (fundingRateE9 : Int) (admitHMin admitHMax : Nat) :
    Op InstructionContext := do
  accrueAndAnchor nowSlot oraclePrice fundingRateE9
  let ctx ← touchAccountLiveLocal a (.newWithAdmission admitHMin admitHMax)
  touchAccountLiveLocal b ctx

/-- What a trade brings to the margin checks of its legs. -/
structure TradeTerms where
  plan : TradePlan
  tradePnlA : Int
  feeImpactA : Nat
  feeImpactB : Nat
  ctx : InstructionContext

/-- A trade from its touches to its margin checks, with the fee of the parameters `p`. -/
def bookTrade (p : RiskParams) (a b oraclePrice : Nat) (sizeQ : Int) (execPrice : Nat)
    (ctx : InstructionContext) : Op TradeTerms := do
  endOfInstructionResets .new
  let plan ← planTrade a b oraclePrice sizeQ
  let tradePnlA ← orErr (computeTradePnl sizeQ (oraclePrice - execPrice)) .overflow
  let ctx ← settleTradePnl a b tradePnlA ctx
  attachLegs a b plan
  settleLosses a
  settleLosses b
  let fee ← expect (tradeFee p sizeQ execPrice)
  let (feeImpactA, feeImpactB) ← chargeTradeFee a b fee
  pure ⟨plan, tradePnlA, feeImpactA, feeImpactB, ctx⟩

/-- A trade is its start, its booking, the checks of its legs and the common end. -/
structure TradeParts (s s' : RiskEngine) (a b price now : Nat) (q : Int) (exec : Nat) (rate : Int)
    (hMin hMax : Nat) (ctx : InstructionContext) (s₁ : RiskEngine) (t : TradeTerms)
    (s₂ s₃ : RiskEngine) : Prop where
  pair : AdmissionPair s.params hMin hMax
  used : s.isUsed a = true ∧ s.isUsed b = true
  ne : a ≠ b
  pos : 0 < q
  live : s.marketMode = .live
  opened : Runs (openTrade a b price now rate hMin hMax) s ctx s₁
  booked : Runs (bookTrade s.params a b price q exec ctx) s₁ t s₂
  checked : Runs (checkLegs a b price t.plan t.feeImpactA t.feeImpactB t.tradePnlA) s₂ () s₂
  finalized : Runs (finalizeTouchedAccountsPostLive t.ctx) s₂ () s₃
  reset : Runs (endOfInstructionResets t.ctx) s₃ () s'

theorem executeTrade_parts {now exec hMin hMax : Nat} {rate : Int}
    (hok : executeTrade a b price now q exec rate hMin hMax s = .ok () s' l) :
    ∃ ctx s₁ t s₂ s₃, TradeParts s s' a b price now q exec rate hMin hMax ctx s₁ t s₂ s₃ := by
  set P : RiskEngine → Prop := fun s' =>
    ∃ ctx s₁ t s₂ s₃, TradeParts s s' a b price now q exec rate hMin hMax ctx s₁ t s₂ s₃ with hP
  refine wp_sound (Q := fun _ s' _ => P s') hok ?_
  simp only [executeTrade, validateAdmissionPair, wp_bind, wp_read, wp_lift, wp_rejectIf,
    wp_expect, wp_orErr, implies_true, true_and, not_not, not_or, Bool.not_eq_false, not_le]
  intro pair _ _ pos _ _ _ _ used ne live
  refine wp_ok fun _ s₀ l₀ accrue => wp_ok fun ctx₁ sa la touchA => wp_ok fun ctx s₁ lb touchB => ?_
  refine wp_ok fun _ r₁ k₁ reset => wp_ok fun plan r₂ k₂ hplan tradePnlA hpnl => ?_
  refine wp_ok fun ctx' r₃ k₃ settle => wp_ok fun _ r₄ k₄ attach => ?_
  refine wp_ok fun _ r₅ k₅ lossA => wp_ok fun _ r₆ k₆ lossB fee hfee => ?_
  refine wp_ok fun impact r₇ k₇ charge => wp_ok fun _ s₂ k₈ check => ?_
  refine wp_ok fun _ s₃ k₉ finalize => wp_ok fun _ s₄ k₁₀ reset' => wp_ok fun _ s₅ k₁₁ post => ?_
  obtain ⟨rfl, -⟩ := checkLegs_spec check
  obtain rfl := assertPublicPostconditions_same post
  refine ⟨ctx, s₁, ⟨plan, tradePnlA, impact.1, impact.2, ctx'⟩, s₂, s₃, pair, used, ne, pos, live, ?_, ?_,
    ⟨_, check⟩, ⟨_, finalize⟩, ⟨_, reset'⟩⟩
  · have opened : Runs (accrueAndAnchor now price rate) s () s₀ := ⟨_, accrue⟩
    exact opened.lift.bind (Runs.bind ⟨_, touchA⟩ ⟨_, touchB⟩)
  · have charged : Runs (chargeTradeFee a b fee) r₆ impact s₂ := ⟨_, charge⟩
    have lossesB : Runs (settleLosses b) r₅ () r₆ := ⟨_, lossB⟩
    have lossesA : Runs (settleLosses a) r₄ () r₅ := ⟨_, lossA⟩
    have attached : Runs (attachLegs a b plan) r₃ () r₄ := ⟨_, attach⟩
    have settled : Runs (settleTradePnl a b tradePnlA ctx) r₂ ctx' r₃ := ⟨_, settle⟩
    have pnl : Runs (orErr (computeTradePnl q (price - exec)) .overflow) r₂ tradePnlA r₂ :=
      runs_demand hpnl
    have fees : Runs (expect (tradeFee s.params q exec)) r₆ fee r₆ := runs_demand hfee
    exact Runs.bind ⟨_, reset⟩ (Runs.bind ⟨_, hplan⟩ (pnl.lift.bind (settled.lift.bind
      (attached.lift.bind (lossesA.lift.bind (lossesB.lift.bind (fees.lift.bind
        (charged.lift.bind (runs_pure _ _)))))))))

/-- Both legs of a trade touched, with no reset to come. -/
structure LegsTouched (sc : Scope) (c : Conf) (a b : Nat) (ctx : InstructionContext) (l : List Event)
    (s : RiskEngine) (ph : Phase) : Prop extends Between sc c ctx l s ph where
  calm : ph.pending = fun _ => false
  touchedA : a ∈ ph.touched
  touchedB : b ∈ ph.touched
  usedA : s.isUsed a = true
  usedB : s.isUsed b = true
  syncedA : (s.accounts a).Synced s.sides
  syncedB : (s.accounts b).Synced s.sides
  wholeA : (s.accounts a).Whole s.sides
  wholeB : (s.accounts b).Whole s.sides

/-- A trade opens by touching both of its legs. -/
theorem Good.openTrade {now hMin hMax : Nat} {rate : Int} (h : Good ⟨s, .idle⟩)
    (pair : AdmissionPair s.params hMin hMax) (instant : hMin = 0 → sc.instant) (fits : now ≤ U64_MAX)
    (reachA : sc.reach a) (reachB : sc.reach b) (ne : a ≠ b) :
    wp (Percolator.openTrade a b price now rate hMin hMax)
      (fun ctx s' l' => ∃ ph, LegsTouched sc ⟨s, .idle⟩ a b ctx l' s' ph) Fault.Sound s [] := by
  simp only [Percolator.openTrade, wp_bind, wp_lift]
  refine wp_mono (h.accrue sc pair instant fits) ?_ fun _ _ he => he
  rintro _ s₀ l₀ ⟨-, h₀⟩
  refine wp_mono (h₀.touch reachA) ?_ fun _ _ he => he
  rintro ctx₁ s₁ l₁ ⟨ph₁, h₁, hp₁, ha₁, -, ht₁⟩
  refine wp_mono (h₁.touch reachB) ?_ fun _ _ he => he
  rintro ctx₂ s₂ l₂ ⟨ph₂, h₂, hp₂, hb₂, hsub, ht₂⟩
  obtain ⟨usedA, -, touchedA⟩ := h₂.members a (hsub a ha₁)
  obtain ⟨usedB, -, touchedB⟩ := h₂.members b hb₂
  refine ⟨ph₂, h₂, ?_, touchedA, touchedB, usedA, usedB, ?_, ht₂.synced, ?_, ht₂.whole⟩
  · rw [h₂.pending, hp₂, hp₁]
    rfl
  · rw [ht₂.others a ne]
    exact ht₁.synced.congr ht₂.indices
  · rw [ht₂.others a ne]
    exact ht₁.whole.congr ht₂.epoch ht₂.mult

/-- The resets that a trade makes before its plan. -/
theorem LegsTouched.resets (h : LegsTouched sc c a b ctx l s ph) :
    wp (endOfInstructionResets .new) (fun _ s' l' => LegsTouched sc c a b ctx l' s' ph.settledDown ∧
      s'.accounts = s.accounts ∧ s'.setting = s.setting) Fault.Sound s l := by
  have hpos : Positions s ph := h.good.positions h.live
  refine wp_mono (h.toCourse.resets h.live h.closing h.calm.symm) ?_ fun _ _ he => he
  rintro _ s' l' ⟨hc, hr⟩
  have hframe : s'.marketMode = s.marketMode ∧ s'.isUsed = s.isUsed ∧ s'.params = s.params ∧
      s'.accounts = s.accounts ∧ s'.setting = s.setting := by
    rw [hr.eq]; exact ⟨rfl, rfl, rfl, rfl, rfl⟩
  obtain ⟨hmode, hused, hparams, haccounts, hsetting⟩ := hframe
  have hsynced : ∀ i, s.isUsed i = true → (s.accounts i).Synced s.sides →
      (s'.accounts i).Synced s'.sides := by
    intro i hi ha
    rw [haccounts]
    exact hr.synced _ (fun d hd => hpos.position i d hi hd) ha
  have hb : Between sc c ctx l' s' ph.settledDown :=
    h.carry hc hmode hused hparams (by rw [h.calm]; rfl) rfl rfl rfl fun _ hi => hi
  have hwhole : ∀ i, s.isUsed i = true → (s.accounts i).Whole s.sides → (s'.accounts i).Whole s'.sides := by
    intro i hi ha
    rw [haccounts]
    exact hr.whole _ (fun d hd => hpos.position i d hi hd) ha
  refine ⟨⟨hb, rfl, h.touchedA, h.touchedB, ?_, ?_, hsynced a h.usedA h.syncedA,
    hsynced b h.usedB h.syncedB, hwhole a h.usedA h.wholeA, hwhole b h.usedB h.wholeB⟩, haccounts, hsetting⟩
  · rw [hused]; exact h.usedA
  · rw [hused]; exact h.usedB

theorem RiskEngine.setting_params (h : s'.setting = s.setting) : s'.params = s.params := congrArg (·.1) h

/-- The buffer of account `i` above its requirement in `s`. -/
def Buffered (s : RiskEngine) (price i : Nat) (oldEff bufferPre : Int) : Prop :=
  ∃ req, mmReqAt s.params oldEff price = some req ∧
    bufferPre = accountEquityMaintRawWide (s.accounts i) - req

theorem planTrade_buffers (hok : planTrade a b price q s = .ok plan s' l) :
    Buffered s price a plan.oldEffA plan.bufferPreA ∧
      Buffered s price b plan.oldEffB plan.bufferPreB := by
  refine wp_sound (Q := fun plan _ _ => Buffered s price a plan.oldEffA plan.bufferPreA ∧
    Buffered s price b plan.oldEffB plan.bufferPreB) hok ?_
  simp only [planTrade, wp_bind, wp_read, wp_lift, wp_expect, wp_orErr, wp_rejectIf, wp_pure,
    implies_true, true_and]
  intro oldA _ oldB _ reqA hA reqB hB _ _ _ _ _ _ _ _ _ _ _ _ _ _
  refine wp_ok fun _ s₁ _ _ => ?_
  refine wp_ok fun after s₂ _ _ _ _ _ => ?_
  refine wp_ok fun _ _ _ _ => wp_ok fun _ _ _ _ => ?_
  exact ⟨⟨reqA, hA, rfl⟩, ⟨reqB, hB, rfl⟩⟩

/-- A trade up to its margin checks. -/
structure TradeBooked (sc : Scope) (c : Conf) (a b : Nat) (t : TradeTerms) (l : List Event)
    (s : RiskEngine) (ph : Phase) : Prop extends MidTrade sc c a b l s ph where
  pending : ph.pending = t.ctx.pendingReset
  closing : ph.closing = none
  trading : ph.trading = [a, b]
  owed : ph.owed = 0
  members : ∀ i ∈ t.ctx.touchedAccounts, s.isUsed i = true ∧ sc.reach i ∧ i ∈ ph.touched
  pair : AdmissionPair s.params t.ctx.admitHMinShared t.ctx.admitHMaxShared
  instant : t.ctx.admitHMinShared = 0 → sc.instant
  basisA : (s.accounts a).positionBasisQ = t.plan.newEffA
  basisB : (s.accounts b).positionBasisQ = t.plan.newEffB
  holdsA : HoldsPosition s a t.plan.newEffA
  holdsB : HoldsPosition s b t.plan.newEffB

theorem LegsTouched.bookTrade {p : RiskParams} {exec : Nat} (h : LegsTouched sc c a b ctx l s ph)
    (reachA : sc.reach a) (reachB : sc.reach b) (allowedA : sc.charges a) (allowedB : sc.charges b)
    (ne : a ≠ b) (pos : 0 < q) :
    wp (Percolator.bookTrade p a b price q exec ctx) (fun t s' l' => s'.setting = s.setting ∧
      Buffered s price a t.plan.oldEffA t.plan.bufferPreA ∧
      Buffered s price b t.plan.oldEffB t.plan.bufferPreB ∧
      ∃ ph', TradeBooked sc c a b t l' s' ph') Fault.Sound s l := by
  simp only [Percolator.bookTrade, wp_bind, wp_lift, wp_expect, wp_orErr, wp_pure, Fault.sound_plain,
    implies_true, true_and]
  refine wp_mono h.resets ?_ fun _ _ he => he
  rintro _ s₂ l₂ ⟨h₂, haccounts₂, hsetting₂⟩
  have hplanned : wp (Percolator.planTrade a b price q) _ Fault.Sound s₂ l₂ :=
    h₂.toCourse.planTrade h₂.live (fun d => congrFun h₂.calm d) h₂.usedA h₂.usedB ne
  refine wp_split (wp_mono hplanned (fun _ _ _ _ => trivial) fun _ _ he => he) fun plan s₃ l₃ hok => ?_
  obtain ⟨h₃, hs₃, hplan, capped⟩ := wp_at hplanned hok
  obtain ⟨bufferA, bufferB⟩ := planTrade_buffers hok
  intro tradePnlA _
  have hsides : ∀ d, (s₃.sides d).indices = (s₂.sides d).indices := fun d => by
    rw [hs₃, RiskEngine.withSides_sides, SideState.reopened_eq]; rfl
  have hframe : s₃.marketMode = s₂.marketMode ∧ s₃.isUsed = s₂.isUsed ∧ s₃.params = s₂.params ∧
      s₃.accounts = s₂.accounts ∧ s₃.setting = s₂.setting := by
    rw [hs₃]; exact ⟨rfl, rfl, rfl, rfl, rfl⟩
  obtain ⟨hmode, hused', hparams, haccounts, hsetting⟩ := hframe
  have m₃ : MidTrade sc c a b _ s₃ ph.settledDown :=
    ⟨h₃, hmode.trans h₂.live, by rw [hused']; exact h₂.usedA, by rw [hused']; exact h₂.usedB, reachA,
      reachB, allowedA, allowedB⟩
  have pair₃ : AdmissionPair s₃.params ctx.admitHMinShared ctx.admitHMaxShared := hparams ▸ h₂.pair
  refine wp_mono (m₃.settle h₂.trading h₂.owed pair₃ h₂.instant) ?_ fun _ _ he => he
  rintro ctx' s₄ l₄ ⟨m₄, hs₄, hc⟩
  have hsynced : ∀ i, (s₂.accounts i).Synced s₂.sides → (s₄.accounts i).Synced s₄.sides :=
    fun i hi => hs₄.synced i (haccounts ▸ hi.congr hsides)
  have hwhole : ∀ i, (s₂.accounts i).Whole s₂.sides → (s₄.accounts i).Whole s₄.sides := by
    intro i hi
    rw [hs₄.sides]
    refine Account.Whole.position ?_ (hs₄.position i)
    rw [haccounts]
    refine hi.congr (fun d => ?_) fun d => ?_
    · rw [hs₃, RiskEngine.withSides_sides, SideState.reopened_eq]
    · rw [hs₃, RiskEngine.withSides_sides, SideState.reopened_eq]
  have capped₄ : ∀ d, plan.countAfter s₄ d ≤ s₄.params.maxActivePositionsPerSide := by
    intro d
    rw [TradePlan.countAfter, hs₄.sides, hs₄.params]
    exact capped d
  refine wp_mono (m₄.attach (hplan.same hs₄) ne pos (fun d => congrFun h₂.calm d) h₂.closing rfl
    h₂.touchedA h₂.touchedB (hsynced a h₂.syncedA) (hsynced b h₂.syncedB) (hwhole a h₂.wholeA)
    (hwhole b h₂.wholeB) capped₄) ?_ fun _ _ he => he
  rintro _ s₅ l₅ ⟨m₅, hsetting₅, hused₅, hbasisA, hbasisB, holdsA, holdsB⟩
  refine wp_plain fun _ s₆ l₆ hok => wp_plain fun _ s₇ l₇ hok' fee _ => ?_
  obtain ⟨m₆, hs₆⟩ := m₅.booked (settleLosses_spec hok)
  obtain ⟨m₇, hs₇⟩ := m₆.swap.booked (settleLosses_spec hok')
  refine wp_mono m₇.swap.chargeFee ?_ fun _ _ he => he
  rintro r s₈ l₈ ⟨m₈, hs₈⟩
  have hs : SameSeats s₅ s₈ := (hs₆.trans hs₇).trans hs₈
  have used₈ : s₈.isUsed = s₂.isUsed := by rw [hs.used, hused₅, hs₄.used, hused']
  have setting₈ : s₈.setting = s₂.setting := by rw [hs.setting, hsetting₅, hs₄.setting, hsetting]
  have buffered : ∀ {i old buffer}, Buffered s₂ price i old buffer → Buffered s price i old buffer := by
    intro i old buffer hb
    unfold Buffered at *
    rwa [haccounts₂, RiskEngine.setting_params hsetting₂] at hb
  refine ⟨setting₈.trans hsetting₂, buffered bufferA, buffered bufferB, _, m₈, ?_, h₂.closing, rfl, rfl,
    ?_, ?_, ?_, ?_, ?_, hs.holds holdsA, hs.holds holdsB⟩
  · show ph.settledDown.pending = ctx'.pendingReset
    rw [h₂.pending, hc]
  · intro i hi
    rw [hc] at hi
    rw [used₈]
    exact h₂.members i hi
  · show AdmissionPair s₈.params ctx'.admitHMinShared ctx'.admitHMaxShared
    rw [RiskEngine.setting_params setting₈, hc]
    exact h₂.pair
  · show ctx'.admitHMinShared = 0 → _
    rw [hc]
    exact h₂.instant
  · exact (hs.position a).1.trans hbasisA
  · exact (hs.position b).1.trans hbasisB

/-- The checks of the legs end the trade between them. -/
theorem TradeBooked.checked {t : TradeTerms} (h : TradeBooked sc c a b t l s ph)
    (flatA : ¬ (t.plan.newEffA = 0 ∧ (s.accounts a).pnl < 0))
    (flatB : ¬ (t.plan.newEffB = 0 ∧ (s.accounts b).pnl < 0)) :
    Between sc c t.ctx l s { ph with trading := [] } := by
  have hc : Course sc c l s { ph with trading := [] } := by
    refine h.toCourse.quiet (.checked h.owed fun i hi hbasis => not_lt.mp fun hneg => ?_)
    rw [h.trading] at hi
    rcases List.mem_pair.mp hi with rfl | rfl
    · exact flatA ⟨h.basisA ▸ hbasis, hneg⟩
    · exact flatB ⟨h.basisB ▸ hbasis, hneg⟩
  exact ⟨hc, h.live, h.pending, h.closing, rfl, h.owed, h.members, h.pair, h.instant⟩

/-- The end of a Live instruction: the accounts finalized, the resets and the postconditions. -/
theorem Between.conclude (h : Between sc c ctx l s ph) :
    wp (finalizeTouchedAccountsPostLive ctx) (fun _ s l => wp (endOfInstructionResets ctx)
      (fun _ s l => wp assertPublicPostconditions (fun _ s' l' => Done sc c l' s') Fault.Sound s l)
      Fault.Sound s l) (fun p => Fault.Sound (.plain p)) s l := by
  refine wp_mono h.finalize ?_ fun _ _ he => he
  intro _ s₁ l₁ h₁
  refine wp_mono h₁.finish ?_ fun _ _ he => he
  rintro _ s₂ l₂ ⟨h₂, -⟩
  exact h₂.postconditions ⟨_, h₂, h₁.settledDown_atRest⟩

/-- A trade runs to rest, and no check of its state fails. -/
theorem Good.executeTrade {now exec hMin hMax : Nat} {rate : Int} (h : Good ⟨s, .idle⟩)
    (fits : now ≤ U64_MAX) (reachA : sc.reach a) (reachB : sc.reach b) (allowedA : sc.charges a)
    (allowedB : sc.charges b) (instant : hMin = 0 → sc.instant) :
    wp (Percolator.executeTrade a b price now q exec rate hMin hMax)
      (fun _ s' l' => Done sc ⟨s, .idle⟩ l' s') Fault.Sound s [] := by
  simp only [Percolator.executeTrade, validateAdmissionPair, wp_bind, wp_read, wp_lift, wp_rejectIf,
    wp_expect, wp_orErr, Fault.sound_plain, implies_true, true_and, not_not, not_or, Bool.not_eq_false,
    not_le]
  intro pair _ _ pos _ _ _ _ used ne live
  suffices w : wp (Percolator.openTrade a b price now rate hMin hMax) (fun ctx s₁ l₁ =>
      wp (Percolator.bookTrade s.params a b price q exec ctx) (fun t s₂ l₂ =>
        wp (checkLegs a b price t.plan t.feeImpactA t.feeImpactB t.tradePnlA) (fun _ s₃ l₃ =>
          wp (finalizeTouchedAccountsPostLive t.ctx) (fun _ s₄ l₄ =>
            wp (endOfInstructionResets t.ctx) (fun _ s₅ l₅ =>
              wp assertPublicPostconditions (fun _ s' l' => Done sc ⟨s, .idle⟩ l' s') Fault.Sound s₅ l₅)
            Fault.Sound s₄ l₄) (fun p => Fault.Sound (.plain p)) s₃ l₃)
          (fun p => Fault.Sound (.plain p)) s₂ l₂) Fault.Sound s₁ l₁) Fault.Sound s [] by
    simpa only [Percolator.openTrade, Percolator.bookTrade, wp_bind, wp_lift, wp_expect, wp_orErr,
      wp_pure, Fault.sound_plain, implies_true, true_and] using w
  refine wp_mono (h.openTrade pair instant fits reachA reachB ne) ?_ fun _ _ he => he
  rintro ctx s₁ l₁ ⟨ph₁, h₁⟩
  refine wp_mono (h₁.bookTrade reachA reachB allowedA allowedB ne pos) ?_ fun _ _ he => he
  rintro t s₂ l₂ ⟨-, -, -, ph₂, h₂⟩
  refine wp_plain fun _ s₃ l₃ hok => ?_
  obtain ⟨rfl, rfl, flatA, flatB⟩ := checkLegs_spec hok
  rw [List.append_nil]
  exact (h₂.checked flatA flatB).conclude

end Percolator
