import Percolator.Laws.Width
import Percolator.Machine.Runs

/-!
Margins: what the checks after a trade or a withdrawal say of the equity that
maintenance is judged by.

The lanes that open risk count less than the maintenance lane does, so an account
that passes one of them is solvent on its own books.
-/

namespace Percolator

open Effect

variable {s s' : RiskEngine} {i a b price : Nat} {q : Int} {l : List Event}

/-! ### Lanes -/

theorem projectEquity_eq {w : Int} (h : 0 ≤ projectEquity w) : projectEquity w = w := by
  unfold projectEquity toI128 at *
  split_ifs at * with hw
  · rfl
  · exact absurd h (by decide)

/-- The wide equity of an account with positive net equity is its net equity. -/
theorem accountEquityNet_eq {x : Account} (h : 0 < accountEquityNet x) :
    accountEquityNet x = accountEquityMaintRawWide x := by
  unfold accountEquityNet accountEquityMaintRaw at *
  rw [max_eq_right (by omega)]
  exact projectEquity_eq (by omega)

theorem mulDivFloorU128_le {x n d v : Nat} (h : mulDivFloorU128 x n d = some v) (le : n ≤ d) :
    v ≤ x := by
  unfold mulDivFloorU128 at h
  split_ifs at h
  obtain rfl : x * n / d = v := by simpa using h
  exact share_le x le

/-- The trade lane counts a part of the profit that the candidate's gain leaves, unless it
is blocked. -/
theorem accountEquityTradeOpenRaw_cases {c v : Int} (h : accountEquityTradeOpenRaw s i c = some v) :
    v = I128_MIN + 1 ∨ ∃ eff : Nat, eff ≤ i128ClampPos (s.accounts i).pnl - i128ClampPos c ∧
      v = projectEquity ((s.accounts i).capital +
        min ((checkedSubI128 (s.accounts i).pnl (i128ClampPos c)).getD (I128_MIN + 1)) 0 + eff -
        feeDebtU128Checked (s.accounts i).feeCredits) := by
  simp only [accountEquityTradeOpenRaw] at h
  split at h
  · left
    simpa using h.symm
  · right
    split_ifs at h
    · exact ⟨_, Nat.le_refl _, (Option.some.inj h).symm⟩
    · obtain ⟨eff, heff, hv⟩ := Option.bind_eq_some_iff.mp h
      exact ⟨eff, mulDivFloorU128_le heff (Nat.min_le_right _ _), (Option.some.inj hv).symm⟩

/-- What the trade lane counts is within the wide maintenance equity. -/
theorem accountEquityTradeOpenRaw_le {c v : Int} (low : I128_MIN < (s.accounts i).pnl) (pos : 0 ≤ v)
    (h : accountEquityTradeOpenRaw s i c = some v) :
    v ≤ accountEquityMaintRawWide (s.accounts i) := by
  rcases accountEquityTradeOpenRaw_cases h with rfl | ⟨eff, own, rfl⟩
  · exact absurd pos (by decide)
  · rw [projectEquity_eq pos]
    have lower : (checkedSubI128 (s.accounts i).pnl (i128ClampPos c)).getD (I128_MIN + 1) ≤
        (s.accounts i).pnl := by
      unfold checkedSubI128 toI128
      split_ifs
      · simp
      · exact low
    unfold accountEquityMaintRawWide
    unfold i128ClampPos at own
    omega

theorem effectiveMaturedPnl_le {e : Nat} (h : effectiveMaturedPnl s i = some e) :
    e ≤ (s.accounts i).releasedPos := by
  unfold effectiveMaturedPnl at h
  dsimp only at h
  split_ifs at h
  · obtain rfl := Option.some.inj h
    exact Nat.zero_le _
  · obtain ⟨-, rfl⟩ := wideMulDivFloorU128_eq h
    exact share_le _ haircutRatio_le.1

/-- What the withdrawal lane counts is within the wide maintenance equity. -/
theorem accountEquityWithdrawRaw_le {v : Int} (pos : 0 ≤ v)
    (h : accountEquityWithdrawRaw s i = some v) :
    v ≤ accountEquityMaintRawWide (s.accounts i) := by
  obtain ⟨eff, heff, hv⟩ := Option.bind_eq_some_iff.mp h
  obtain rfl := Option.some.inj hv
  rw [projectEquity_eq pos]
  have own := effectiveMaturedPnl_le heff
  unfold accountEquityMaintRawWide
  unfold Account.releasedPos i128ClampPos at own
  omega

/-! ### Requirements -/

/-- The initial requirement of a position, zero for a flat one. -/
def imReqAt (p : RiskParams) (eff : Int) (oraclePrice : Nat) : Option Nat :=
  if eff = 0 then some 0
  else (notionalOf eff.natAbs oraclePrice).bind (imReq p)

theorem notional_eq {eff : Int} (heff : effectivePosQ s i = some eff) (hne : eff ≠ 0) :
    notional s i price = notionalOf eff.natAbs price := by
  simp [notional, heff, hne]

/-- Maintenance compares the net equity with the requirement of the effective position. -/
theorem isAboveMaintenanceMargin_eq {eff : Int} (heff : effectivePosQ s i = some eff) :
    isAboveMaintenanceMargin s i price = (mmReqAt s.params eff price).map fun req : Nat =>
      decide (min (req : Int) I128_MAX < accountEquityNet (s.accounts i)) := by
  have none : min ((0 : Nat) : Int) I128_MAX = 0 := by decide
  unfold isAboveMaintenanceMargin mmReqAt
  by_cases h0 : eff = 0
  · simp only [heff, h0, if_true, Option.map_some, none]
    rfl
  · simp only [heff, notional_eq heff h0, h0, if_false]
    cases notionalOf eff.natAbs price with
    | none => simp [h0]
    | some n => cases hr : mmReq s.params n <;> simp [hr, h0]

/-- The check that opens risk compares the trade lane with the initial requirement. -/
theorem isAboveInitialMarginTradeOpen_eq {eff v c : Int} (heff : effectivePosQ s i = some eff)
    (hv : accountEquityTradeOpenRaw s i c = some v) :
    isAboveInitialMarginTradeOpen s i price c = (imReqAt s.params eff price).map fun req : Nat =>
      decide (min (req : Int) I128_MAX ≤ v) := by
  have none : min ((0 : Nat) : Int) I128_MAX = 0 := by decide
  unfold isAboveInitialMarginTradeOpen imReqAt
  by_cases h0 : eff = 0
  · simp only [heff, hv, h0, if_true, Option.map_some, none]
    rfl
  · simp only [heff, hv, notional_eq heff h0, h0, if_false]
    cases notionalOf eff.natAbs price with
    | none => simp [h0]
    | some n => cases hr : imReq s.params n <;> simp [hr, h0]

theorem isAboveMaintenanceMargin_some {ok : Bool} (h : isAboveMaintenanceMargin s i price = some ok) :
    ∃ eff req, effectivePosQ s i = some eff ∧ mmReqAt s.params eff price = some req ∧
      ok = decide (min (req : Int) I128_MAX < accountEquityNet (s.accounts i)) := by
  obtain ⟨eff, heff, -⟩ := Option.bind_eq_some_iff.mp h
  rw [isAboveMaintenanceMargin_eq heff] at h
  obtain ⟨req, hreq, hok⟩ := Option.map_eq_some_iff.mp h
  exact ⟨eff, req, heff, hreq, hok.symm⟩

theorem isAboveInitialMarginTradeOpen_some {ok : Bool} {c : Int}
    (h : isAboveInitialMarginTradeOpen s i price c = some ok) :
    ∃ eff req v, effectivePosQ s i = some eff ∧ imReqAt s.params eff price = some req ∧
      accountEquityTradeOpenRaw s i c = some v ∧ ok = decide (min (req : Int) I128_MAX ≤ v) := by
  obtain ⟨v, hv, h'⟩ := Option.bind_eq_some_iff.mp h
  obtain ⟨eff, heff, -⟩ := Option.bind_eq_some_iff.mp h'
  rw [isAboveInitialMarginTradeOpen_eq heff hv] at h
  obtain ⟨req, hreq, hok⟩ := Option.map_eq_some_iff.mp h
  exact ⟨eff, req, v, heff, hreq, hv, hok.symm⟩

theorem cappedReq_nonneg (req : Nat) : 0 ≤ min (req : Int) I128_MAX := by
  have : 0 ≤ I128_MAX := by decide
  omega

/-! ### The margin of one leg -/

/-- The wide equity of a leg that was allowed to open risk is not negative. -/
theorem opened_solvent {c : Int} (low : I128_MIN < (s.accounts i).pnl)
    (h : isAboveInitialMarginTradeOpen s i price c = some true) :
    0 ≤ accountEquityMaintRawWide (s.accounts i) := by
  obtain ⟨eff, req, v, -, -, hv, hok⟩ := isAboveInitialMarginTradeOpen_some h
  have enough := of_decide_eq_true hok.symm
  have pos : 0 ≤ v := (cappedReq_nonneg req).trans enough
  exact pos.trans (accountEquityTradeOpenRaw_le low pos hv)

/-- The wide equity of a healthy account is positive. -/
theorem healthy_solvent (h : isAboveMaintenanceMargin s i price = some true) :
    0 < accountEquityMaintRawWide (s.accounts i) := by
  obtain ⟨eff, req, -, -, hok⟩ := isAboveMaintenanceMargin_some h
  have enough := of_decide_eq_true hok.symm
  have pos : 0 < accountEquityNet (s.accounts i) := (cappedReq_nonneg req).trans_lt enough
  rwa [accountEquityNet_eq pos] at pos

/-- What passes the margin check of a leg is no deeper under water than before the trade,
the applied fee apart. -/
theorem enforceOneSideMargin_sound {oldEff newEff bufferPre c : Int} {fee : Nat} {s₁ : RiskEngine}
    (low : I128_MIN < (s.accounts i).pnl) (params : s.params = s₁.params)
    (buffer : Buffered s₁ price i oldEff bufferPre)
    (hok : enforceOneSideMargin i price oldEff newEff bufferPre fee c s = .ok () s' l) :
    min (accountEquityMaintRawWide (s₁.accounts i)) 0 ≤
      min (accountEquityMaintRawWide (s.accounts i) + fee) 0 := by
  obtain ⟨req, hreq, rfl⟩ := buffer
  set E := accountEquityMaintRawWide (s₁.accounts i) with hE
  set P : Prop := min E 0 ≤ min (accountEquityMaintRawWide (s.accounts i) + fee) 0 with hP
  refine wp_sound (Q := fun _ _ _ => P) hok ?_
  simp only [enforceOneSideMargin, wp_bind, wp_read, wp_ite, wp_expect, wp_rejectIf, wp_pure, wp_fail,
    implies_true, true_and, and_true, not_not, Bool.not_eq_false, params, hreq, Option.some.injEq]
  constructor
  · -- a flat close compares the two deficits itself
    rintro - _ rfl enough
    omega
  intro flat
  constructor
  · -- a leg that opens risk is solvent in the trade lane already
    intro _ ok hok' opened
    rw [opened] at hok'
    have := opened_solvent low hok'
    omega
  intro reducing ok hok'
  constructor
  · intro healthy
    rw [healthy] at hok'
    have := healthy_solvent hok'
    omega
  · -- a leg that only reduces risk compares its deficits as a flat close does
    rintro - ⟨-, smaller⟩ reqPost - reqPre hreqPre ⟨-, enough⟩
    have same : reqPre = req := by
      unfold mmReqAt at hreq
      rw [if_neg (by omega)] at hreq
      exact Option.some.inj (hreqPre.symm.trans hreq)
    omega

/-! ### Trades -/

section Trades

variable {now : UInt64} {exec hMin hMax : Nat} {rate : Int}

/-- The checks of the legs are the margin check of each. -/
theorem checkLegs_margins {plan : TradePlan} {x y : Nat} {tradePnlA : Int}
    (h : Runs (checkLegs a b price plan x y tradePnlA) s () s) :
    Runs (enforceOneSideMargin a price plan.oldEffA plan.newEffA plan.bufferPreA x tradePnlA) s () s ∧
      Runs (enforceOneSideMargin b price plan.oldEffB plan.newEffB plan.bufferPreB y (-tradePnlA)) s () s ∧
      ¬ (plan.newEffA = 0 ∧ (s.accounts a).pnl < 0) ∧ ¬ (plan.newEffB = 0 ∧ (s.accounts b).pnl < 0) := by
  obtain ⟨l, hok⟩ := h
  set P : Prop :=
    Runs (enforceOneSideMargin a price plan.oldEffA plan.newEffA plan.bufferPreA x tradePnlA) s () s ∧
      Runs (enforceOneSideMargin b price plan.oldEffB plan.newEffB plan.bufferPreB y (-tradePnlA)) s () s ∧
      ¬ (plan.newEffA = 0 ∧ (s.accounts a).pnl < 0) ∧ ¬ (plan.newEffB = 0 ∧ (s.accounts b).pnl < 0) with hP
  refine wp_sound (Q := fun _ _ _ => P) hok ?_
  simp only [checkLegs, wp_bind, wp_read, wp_rejectIf, implies_true, true_and]
  intro flatA flatB
  refine wp_ok fun _ s₁ l₁ h₁ => wp_ok fun _ s₂ l₂ h₂ => ?_
  obtain rfl := (enforceOneSideMargin_same h₁).1
  obtain rfl := (enforceOneSideMargin_same h₂).1
  exact ⟨⟨_, h₁⟩, ⟨_, h₂⟩, flatA, flatB⟩

/-- What the parts of a trade of a reachable market are, up to its margin checks. -/
theorem TradeParts.booked_at {ctx : InstructionContext} {s₁ s₂ s₃ : RiskEngine} {t : TradeTerms}
    (h : Reachable s)
    (parts : TradeParts s s' a b price now.toNat q exec rate hMin hMax ctx s₁ t s₂ s₃) :
    s₂.setting = s₁.setting ∧ Buffered s₁ price a t.plan.oldEffA t.plan.bufferPreA ∧
      Buffered s₁ price b t.plan.oldEffB t.plan.bufferPreB ∧
      ∃ l ph, TradeBooked (Instruction.executeTrade a b price now q exec rate hMin hMax).scope
        ⟨s, .idle⟩ a b t l s₂ ph := by
  obtain ⟨l₁, opened⟩ := parts.opened
  obtain ⟨l₂, booked⟩ := parts.booked
  set sc := (Instruction.executeTrade a b price now q exec rate hMin hMax).scope with hsc
  have opens : wp (Percolator.openTrade a b price now.toNat rate hMin hMax)
      (fun ctx s' l' => ∃ ph, LegsTouched sc ⟨s, .idle⟩ a b ctx l' s' ph) Fault.Sound s [] :=
    h.good.openTrade parts.pair id (slot_le now) (.inl rfl) (.inr rfl) parts.ne
  obtain ⟨ph₁, touched⟩ := wp_at opens opened
  have books : wp (Percolator.bookTrade s.params a b price q exec ctx) _ Fault.Sound s₁ _ :=
    touched.bookTrade (.inl rfl) (.inr rfl) (.inl rfl) (.inr rfl) parts.ne parts.pos
  obtain ⟨setting, bufferA, bufferB, ph₂, hb⟩ := wp_at books booked
  exact ⟨setting, bufferA, bufferB, _, ph₂, hb⟩

/-- No trade creates or deepens a bankruptcy: for both of its legs, what the equity is below
zero at the margin check, the applied fee apart, it already was after the touches. -/
theorem Reachable.trade_never_deepens {l : List Event} (h : Reachable s)
    (ok : (Instruction.executeTrade a b price now q exec rate hMin hMax).run s = .ok () s' l) :
    ∃ ctx s₁ t s₂ s₃, TradeParts s s' a b price now.toNat q exec rate hMin hMax ctx s₁ t s₂ s₃ ∧
      min (accountEquityMaintRawWide (s₁.accounts a)) 0 ≤
        min (accountEquityMaintRawWide (s₂.accounts a) + t.feeImpactA) 0 ∧
      min (accountEquityMaintRawWide (s₁.accounts b)) 0 ≤
        min (accountEquityMaintRawWide (s₂.accounts b) + t.feeImpactB) 0 := by
  obtain ⟨ctx, s₁, t, s₂, s₃, parts⟩ := executeTrade_parts ok
  obtain ⟨setting, bufferA, bufferB, l', ph, hb⟩ := parts.booked_at h
  have params := RiskEngine.setting_params setting
  have books := hb.good.books
  dsimp only at books
  obtain ⟨⟨la, marginA⟩, ⟨lb, marginB⟩, -⟩ := checkLegs_margins parts.checked
  refine ⟨ctx, s₁, t, s₂, s₃, parts, ?_, ?_⟩
  · exact enforceOneSideMargin_sound (books.pnl a hb.usedA) params bufferA marginA
  · exact enforceOneSideMargin_sound (books.pnl b hb.usedB) params bufferB marginB

theorem tradedMarket_trade_never_deepens : ∃ ctx s₁ t s₂ s₃,
    TradeParts tradedMarket ((Instruction.executeTrade 1 2 1000 110 20000000 1040 0 10 100).run
      tradedMarket).final 1 2 1000 110 20000000 1040 0 10 100 ctx s₁ t s₂ s₃ ∧
      min (accountEquityMaintRawWide (s₁.accounts 1)) 0 ≤
        min (accountEquityMaintRawWide (s₂.accounts 1) + t.feeImpactA) 0 := by
  obtain ⟨_, l, ok⟩ := Outcome.eq_ok
    (o := (Instruction.executeTrade 1 2 1000 110 20000000 1040 0 10 100).run tradedMarket)
    (by decide +kernel)
  obtain ⟨ctx, s₁, t, s₂, s₃, parts, leg, -⟩ := tradedMarket_reachable.trade_never_deepens ok
  exact ⟨ctx, s₁, t, s₂, s₃, parts, leg⟩

end Trades

end Percolator
