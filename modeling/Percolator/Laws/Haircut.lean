import Percolator.Base.Fund
import Percolator.Engine.Interface
import Percolator.Invariant.Good

/-!
The haircut: converting matured PnL is safe and fair in any order, the cap on a
flat conversion is exact, and the gain of a trade never supports the trade.

A market is two funds at once. Matured PnL claims the residual at the haircut of
a conversion, and all positive PnL claims it at the haircut of a trade.
-/

namespace Percolator

open Effect

variable {s s' s₁ s₂ : RiskEngine} {i : Nat} {l : List Event}

/-! ### Conversion -/

/-- The matured claims on the residual. -/
def RiskEngine.maturedFund (s : RiskEngine) : Fund := ⟨s.residual, s.pnlMaturedPosTot⟩

theorem haircutRatio_eq (h : 0 < s.pnlMaturedPosTot) :
    haircutRatio s = (s.maturedFund.covered, s.maturedFund.claims) := by
  unfold haircutRatio
  rw [if_neg (by omega)]
  rfl

/-- What the haircut leaves of `x` is what the claim is worth. -/
theorem haircut_worth {x y : Nat} (pos : 0 < x) (hx : x ≤ s.pnlMaturedPosTot)
    (h : wideMulDivFloorU128 x (haircutRatio s).1 (haircutRatio s).2 = some y) :
    y = s.maturedFund.worth x := by
  rw [haircutRatio_eq (by omega)] at h
  exact (wideMulDivFloorU128_eq h).2

/-- One conversion step: an account in use gives up `x` of its released PnL and is
credited `y`, which is `x` at the haircut then in force. -/
inductive Converts (s : RiskEngine) : Nat → RiskEngine → Prop
  | step {s' : RiskEngine} {l : List Event} (i x y : Nat) (used : s.isUsed i = true)
      (le : x ≤ (s.accounts i).releasedPos)
      (credit : wideMulDivFloorU128 x (haircutRatio s).1 (haircutRatio s).2 = some y)
      (ok : convertInto i x y s = .ok () s' l) : Converts s y s'

/-- A sequence of conversion steps and what it credited in total. -/
inductive Conversions (s : RiskEngine) : Nat → RiskEngine → Prop
  | none : Conversions s 0 s
  | next {s₁ s₂ : RiskEngine} {credited y : Nat} (before : Conversions s credited s₁)
      (step : Converts s₁ y s₂) : Conversions s (credited + y) s₂

/-- The explicit conversion of an account is such a step. -/
theorem convertAtHaircut_converts {x : Nat} (used : s.isUsed i = true)
    (hok : convertAtHaircut i x s = .ok () s' l) : ∃ y, Converts s y s' := by
  refine wp_sound (Q := fun _ s' _ => ∃ y, Converts s y s') hok ?_
  simp only [convertAtHaircut, wp_bind, wp_read, wp_rejectIf, wp_whenever, wp_expect, implies_true,
    true_and]
  intro hx
  have le : x ≤ (s.accounts i).releasedPos := by omega
  constructor
  · intro _ _ _ _ y hy
    apply wp_ok
    intro _ s' l h
    exact ⟨y, .step i x y used le hy h⟩
  · intro _ y hy
    apply wp_ok
    intro _ s' l h
    exact ⟨y, .step i x y used le hy h⟩

/-- What makes the haircut of a state a fair one. -/
structure Matched (s : RiskEngine) : Prop where
  backed : s.cTot + s.insuranceFund ≤ s.vault
  matured : s.pnlMaturedPosTot = ∑ i ∈ s.usedSlots, (s.accounts i).releasedPos

theorem converted_releasedPos {x y : Nat} (pos : 0 < x) (le : x ≤ (s.accounts i).releasedPos) :
    ((s.converted i x y).accounts i).releasedPos + x = (s.accounts i).releasedPos := by
  simp only [RiskEngine.converted, RiskEngine.rebook, put_same]
  unfold Account.releasedPos i128ClampPos at *
  simp only [Account.withCapital, Account.withPnl]
  omega

/-- A conversion step redeems a claim on the fund, and leaves a matched state. -/
theorem Converts.redeems {y : Nat} (h : Converts s y s') (m : Matched s) :
    Matched s' ∧ ∃ x, x ≤ s.maturedFund.claims ∧ y = s.maturedFund.worth x ∧
      s'.maturedFund = s.maturedFund.redeem x := by
  obtain ⟨i, x, y, used, -, credit, ok⟩ := h
  obtain ⟨pos, released, -, matured, rfl, -⟩ := convertInto_exact ok
  have hy := haircut_worth pos matured credit
  have hpaid : y ≤ s.residual := hy ▸ Fund.worth_le_assets (f := s.maturedFund) matured
  have backed := m.backed
  have fits : s.cTot + y + s.insuranceFund ≤ s.vault := by
    unfold RiskEngine.residual at hpaid
    omega
  refine ⟨⟨fits, ?_⟩, x, matured, hy, ?_⟩
  · have mem := RiskEngine.mem_usedSlots.mpr used
    have row := tally_put (f := Account.releasedPos) (t := s.accounts) mem
      (a := (s.converted i x y).accounts i)
    have moved := converted_releasedPos (y := y) pos released
    have whole : s.pnlMaturedPosTot = tally s.usedSlots s.accounts Account.releasedPos := m.matured
    have accounts : (s.converted i x y).accounts = put s.accounts i ((s.converted i x y).accounts i) := by
      simp [RiskEngine.converted, RiskEngine.rebook]
    show s.pnlMaturedPosTot - x = tally s.usedSlots (s.converted i x y).accounts Account.releasedPos
    rw [accounts]
    omega
  · unfold Fund.redeem
    rw [← hy]
    simp only [RiskEngine.residual, RiskEngine.converted, RiskEngine.rebook, RiskEngine.totals,
      RiskEngine.maturedFund, Fund.mk.injEq, and_true]
    omega

/-- A sequence of conversion steps refines a sequence of redemptions. -/
theorem Conversions.redeemed {c : Nat} (h : Conversions s c s') (m : Matched s) :
    Matched s' ∧ Fund.Redeemed s.maturedFund c s'.maturedFund := by
  induction h with
  | none => exact ⟨m, .none⟩
  | next before step ih =>
      obtain ⟨m₁, redeemed⟩ := ih
      obtain ⟨m₂, x, le, rfl, moved⟩ := step.redeems m₁
      refine ⟨m₂, ?_⟩
      rw [moved]
      exact redeemed.next x le

/-- The haircuts of two states, cross-multiplied. -/
theorem haircutRatio_mono (shrink : s₂.pnlMaturedPosTot ≤ s₁.pnlMaturedPosTot)
    (h : Fund.Sounder s₁.maturedFund s₂.maturedFund) :
    (haircutRatio s₁).1 * (haircutRatio s₂).2 ≤ (haircutRatio s₂).1 * (haircutRatio s₁).2 := by
  rcases Nat.eq_zero_or_pos s₂.pnlMaturedPosTot with h₂ | h₂
  · have full : haircutRatio s₂ = (1, 1) := if_pos h₂
    have below : (haircutRatio s₁).1 ≤ (haircutRatio s₁).2 := by
      unfold haircutRatio
      split_ifs
      · exact Nat.le_refl 1
      · exact Nat.min_le_right _ _
    rw [full]
    omega
  · rw [haircutRatio_eq h₂, haircutRatio_eq (h₂.trans_le shrink)]
    exact h

/-- The effective matured PnL of the accounts in use adds up to at most the residual. -/
theorem Matched.effective_le (m : Matched s) (fits : s.pnlMaturedPosTot ≤ U128_MAX) :
    ∃ e : Nat → Nat, (∀ i ∈ s.usedSlots, effectiveMaturedPnl s i = some (e i)) ∧
      ∑ i ∈ s.usedSlots, e i ≤ s.residual := by
  refine ⟨fun i => s.maturedFund.worth (s.accounts i).releasedPos, ?_, ?_⟩
  · intro i hi
    have le : (s.accounts i).releasedPos ≤ s.pnlMaturedPosTot := by
      rw [m.matured]
      exact le_tally (f := Account.releasedPos) hi
    unfold effectiveMaturedPnl
    dsimp only
    split_ifs with h0
    · simp [h0, Fund.worth]
    · have below := Fund.worth_le s.maturedFund (s.accounts i).releasedPos
      have claims : s.maturedFund.claims = s.pnlMaturedPosTot := rfl
      rw [haircutRatio_eq (by omega)]
      unfold wideMulDivFloorU128
      unfold Fund.worth at *
      dsimp only
      rw [if_neg (by omega)]
  · exact Fund.tally_worth_le (f := s.maturedFund) (g := Account.releasedPos)
      (Nat.le_of_eq m.matured.symm)

/-- Conversions in any order, at any moment of the sequence and at any later one: what
they credit comes out of the residual, capital and insurance stay covered, the haircut
never falls, and the effective matured PnL of all accounts is within the residual. -/
theorem Conversions.fair {c₁ c₂ : Nat} (backed : s.cTot + s.insuranceFund ≤ s.vault)
    (matured : s.pnlMaturedPosTot = ∑ i ∈ s.usedSlots, (s.accounts i).releasedPos)
    (width : s.pnlMaturedPosTot ≤ U128_MAX) (earlier : Conversions s c₁ s₁)
    (later : Conversions s₁ c₂ s₂) :
    c₁ + c₂ ≤ s.residual ∧ s₂.cTot + s₂.insuranceFund ≤ s₂.vault ∧
      (haircutRatio s₁).1 * (haircutRatio s₂).2 ≤ (haircutRatio s₂).1 * (haircutRatio s₁).2 ∧
      ∃ e : Nat → Nat, (∀ i ∈ s₂.usedSlots, effectiveMaturedPnl s₂ i = some (e i)) ∧
        ∑ i ∈ s₂.usedSlots, e i ≤ s₂.residual := by
  obtain ⟨m₁, redeemed₁⟩ := earlier.redeemed ⟨backed, matured⟩
  obtain ⟨m₂, redeemed₂⟩ := later.redeemed m₁
  obtain ⟨paid₁, shrink₁, -⟩ := redeemed₁.sound
  obtain ⟨paid₂, shrink₂, sounder⟩ := redeemed₂.sound
  refine ⟨?_, m₂.backed, haircutRatio_mono shrink₂ sounder, ?_⟩
  · have : s.maturedFund.assets = s.residual := rfl
    omega
  · apply m₂.effective_le
    exact (shrink₂.trans shrink₁).trans width

/-- Two accounts with 60 and 40 of matured PnL, and a residual of 30 behind them. -/
def stressedMarket : RiskEngine :=
  { tradedMarket with
    vault := tradedMarket.cTot + tradedMarket.insuranceFund + 30
    pnlPosTot := 100, pnlMaturedPosTot := 100
    accounts := put (put tradedMarket.accounts 1 ((tradedMarket.accounts 1).withPnl 60)) 2
      ((tradedMarket.accounts 2).withPnl 40) }

theorem stressedMarket_fair : ∃ s₁ s₂, 15 + 7 ≤ stressedMarket.residual ∧
    s₂.cTot + s₂.insuranceFund ≤ s₂.vault ∧
    (haircutRatio s₁).1 * (haircutRatio s₂).2 ≤ (haircutRatio s₂).1 * (haircutRatio s₁).2 := by
  obtain ⟨_, l, ok⟩ := Outcome.eq_ok (o := convertInto 1 50 15 stressedMarket) (by decide +kernel)
  obtain ⟨_, l', ok'⟩ := Outcome.eq_ok
    (o := convertInto 2 25 7 (convertInto 1 50 15 stressedMarket).final) (by decide +kernel)
  have step : Converts stressedMarket 15 (convertInto 1 50 15 stressedMarket).final :=
    .step 1 50 15 (by decide +kernel) (by decide +kernel) (by decide +kernel) ok
  have step' : Converts (convertInto 1 50 15 stressedMarket).final 7
      (convertInto 2 25 7 (convertInto 1 50 15 stressedMarket).final).final :=
    .step 2 25 7 (by decide +kernel) (by decide +kernel) (by decide +kernel) ok'
  have fair := Conversions.fair (by decide +kernel) (by decide +kernel) (by decide +kernel)
    (Conversions.none.next step) (Conversions.none.next step')
  refine ⟨(convertInto 1 50 15 stressedMarket).final, _, ?_, fair.2.1, fair.2.2.1⟩
  simpa using fair.1

/-! ### The cap on a flat conversion -/

/-- An account with positive raw equity can convert `x` without going negative exactly
when `x` is within the cap. -/
theorem maxSafeFlatConversionReleased_exact {xCap hNum hDen : Nat}
    (equity : 0 < accountEquityMaintRaw (s.accounts i)) (le : hNum ≤ hDen) (pos : 0 < hDen)
    (fits : (accountEquityMaintRaw (s.accounts i)).toNat * hDen / (hDen - hNum) ≤ U128_MAX) :
    ∃ m, maxSafeFlatConversionReleased s i xCap hNum hDen = some m ∧ ∀ x : Nat, x ≤ m ↔
      x ≤ xCap ∧ 0 ≤ accountEquityMaintRaw (s.accounts i) - x + (x * hNum / hDen : Nat) := by
  obtain ⟨e, he⟩ := Int.eq_ofNat_of_zero_le (Int.le_of_lt equity)
  simp only [maxSafeFlatConversionReleased, he, Int.toNat_natCast] at *
  rcases Nat.eq_zero_or_pos xCap with rfl | hcap
  · refine ⟨0, if_pos (.inl rfl), fun x => ?_⟩
    constructor
    · intro hx
      obtain rfl : x = 0 := by omega
      simp
    · intro hx
      exact hx.1
  rw [if_neg (by omega)]
  rcases Nat.lt_or_eq_of_le le with hlt | rfl
  · -- the closed form inverts the rounded rate
    refine ⟨min xCap (e * hDen / (hDen - hNum)), ?_, fun x => ?_⟩
    · rw [if_neg (by omega)]
      unfold wideMulDivFloorU128
      rw [if_neg (by omega)]
      rfl
    · rw [le_min_iff, le_loss_bound hlt]
      generalize x * hNum / hDen = worth
      omega
  · -- nothing is lost at a haircut of one
    refine ⟨xCap, by rw [if_pos (.inr rfl)], fun x => ?_⟩
    rw [Nat.mul_div_cancel x pos]
    omega

theorem stressedMarket_maxSafe_exact :
    ∃ m, maxSafeFlatConversionReleased stressedMarket 1 60 30 100 = some m ∧ ∀ x : Nat, x ≤ m ↔
      x ≤ 60 ∧ 0 ≤ accountEquityMaintRaw (stressedMarket.accounts 1) - x + (x * 30 / 100 : Nat) :=
  maxSafeFlatConversionReleased_exact (by decide +kernel) (by decide) (by decide) (by decide +kernel)

/-! ### The gain of a trade -/

/-- All positive claims on the residual. -/
def RiskEngine.positiveFund (s : RiskEngine) : Fund := ⟨s.residual, s.pnlPosTot⟩

/-- The positive PnL of account `i` that `account_equity_trade_open_raw` counts
when there is no candidate trade. -/
def countedPnl (s : RiskEngine) (i : Nat) : Nat :=
  i128ClampPos (s.accounts i).pnl * min s.residual s.pnlPosTot / s.pnlPosTot

/-- The state with `g` more PnL on account `i`, and in the aggregate. -/
def RiskEngine.withGain (s : RiskEngine) (i g : Nat) : RiskEngine :=
  s.rebook i ((s.accounts i).withPnl ((s.accounts i).pnl + g))
    { s.totals with
      pnlPosTot := s.pnlPosTot - i128ClampPos (s.accounts i).pnl +
        i128ClampPos ((s.accounts i).pnl + g) }

/-- The equity of the trade lane, with the own gain of the candidate taken out. -/
theorem accountEquityTradeOpenRaw_eq {p : Int} {g : Nat} (pnl : (s.accounts i).pnl = p + g)
    (low : I128_MIN ≤ p) (high : p ≤ I128_MAX)
    (tot : i128ClampPos (s.accounts i).pnl ≤ s.pnlPosTot)
    (fits : s.pnlPosTot - i128ClampPos (s.accounts i).pnl + i128ClampPos p ≤ U128_MAX) :
    accountEquityTradeOpenRaw s i g =
      (let open' := s.pnlPosTot - i128ClampPos (s.accounts i).pnl + i128ClampPos p
       (if open' = 0 then some (i128ClampPos p)
        else mulDivFloorU128 (i128ClampPos p) (min s.residual open') open').bind fun counted =>
        some (projectEquity ((s.accounts i).capital + min p 0 + counted -
          feeDebtU128Checked (s.accounts i).feeCredits))) := by
  have gain : i128ClampPos (g : Int) = g := by
    unfold i128ClampPos
    omega
  have own : i128ClampPos (s.accounts i).pnl - g = i128ClampPos p := by
    unfold i128ClampPos
    omega
  have loss : checkedSubI128 (s.accounts i).pnl g = some p := by
    unfold checkedSubI128 toI128
    have back : (s.accounts i).pnl - g = p := by omega
    rw [back, if_pos ⟨low, high⟩]
  simp only [accountEquityTradeOpenRaw, gain, own, loss, checkedSub, if_pos tot, Option.bind_some,
    checkedAddU128, if_pos fits, Option.getD_some]
  split_ifs <;> rfl

/-- With no candidate trade the positive PnL counted is the account's share of the residual. -/
theorem accountEquityTradeOpenRaw_counted {v : Int}
    (tot : i128ClampPos (s.accounts i).pnl ≤ s.pnlPosTot) (width : s.pnlPosTot ≤ U128_MAX)
    (low : I128_MIN ≤ (s.accounts i).pnl) (high : (s.accounts i).pnl ≤ I128_MAX)
    (h : accountEquityTradeOpenRaw s i 0 = some v) :
    v = projectEquity ((s.accounts i).capital + min (s.accounts i).pnl 0 + countedPnl s i -
      feeDebtU128Checked (s.accounts i).feeCredits) := by
  have whole : s.pnlPosTot - i128ClampPos (s.accounts i).pnl + i128ClampPos (s.accounts i).pnl =
      s.pnlPosTot := Nat.sub_add_cancel tot
  have hv := accountEquityTradeOpenRaw_eq (g := 0) (p := (s.accounts i).pnl) (by simp) low high tot
    (by rw [whole]; exact width)
  rw [whole] at hv
  rw [Nat.cast_zero, h] at hv
  obtain ⟨counted, hc, hv⟩ := Option.bind_eq_some_iff.mp hv.symm
  obtain rfl : counted = countedPnl s i := by
    unfold countedPnl
    split_ifs at hc with h0
    · obtain rfl : i128ClampPos (s.accounts i).pnl = counted := by simpa using hc
      have none : i128ClampPos (s.accounts i).pnl = 0 := by omega
      simp [none]
    · unfold mulDivFloorU128 at hc
      split_ifs at hc
      simpa using hc.symm
  simpa using hv.symm

/-- A trade's own gain never supports the trade: the equity it is judged by is the one
before the gain. And what that equity counts of the positive PnL of all accounts together
is within the residual. -/
theorem tradeOpen_neutral {g : Nat} (used : s.isUsed i = true)
    (aggregate : s.pnlPosTot = ∑ j ∈ s.usedSlots, i128ClampPos (s.accounts j).pnl)
    (range : ∀ j ∈ s.usedSlots, I128_MIN ≤ (s.accounts j).pnl ∧ (s.accounts j).pnl ≤ I128_MAX)
    (width : s.pnlPosTot ≤ U128_MAX) :
    accountEquityTradeOpenRaw (s.withGain i g) i g = accountEquityTradeOpenRaw s i 0 ∧
      (∀ j ∈ s.usedSlots, ∀ v, accountEquityTradeOpenRaw s j 0 = some v →
        v = projectEquity ((s.accounts j).capital + min (s.accounts j).pnl 0 + countedPnl s j -
          feeDebtU128Checked (s.accounts j).feeCredits)) ∧
      ∑ j ∈ s.usedSlots, countedPnl s j ≤ s.residual := by
  have within : ∀ j ∈ s.usedSlots, i128ClampPos (s.accounts j).pnl ≤ s.pnlPosTot := by
    intro j hj
    rw [aggregate]
    exact le_tally (t := s.accounts) (f := fun a => i128ClampPos a.pnl) hj
  have mem := RiskEngine.mem_usedSlots.mpr used
  obtain ⟨low, high⟩ := range i mem
  refine ⟨?_, ?_, ?_⟩
  · have tot := within i mem
    have whole : s.pnlPosTot - i128ClampPos (s.accounts i).pnl + i128ClampPos (s.accounts i).pnl =
        s.pnlPosTot := Nat.sub_add_cancel tot
    have before := accountEquityTradeOpenRaw_eq (s := s) (i := i) (g := 0)
      (p := (s.accounts i).pnl) (by simp) low high tot (by rw [whole]; exact width)
    have pnl' : ((s.withGain i g).accounts i).pnl = (s.accounts i).pnl + g := by
      simp [RiskEngine.withGain]
    have tot' : (s.withGain i g).pnlPosTot =
        s.pnlPosTot - i128ClampPos (s.accounts i).pnl + i128ClampPos ((s.accounts i).pnl + g) := rfl
    have after := accountEquityTradeOpenRaw_eq (s := s.withGain i g) (i := i) pnl' low high
      (by rw [tot', pnl']; omega) (by rw [tot', pnl']; omega)
    have rest : (s.withGain i g).pnlPosTot - i128ClampPos ((s.withGain i g).accounts i).pnl =
        s.pnlPosTot - i128ClampPos (s.accounts i).pnl := by
      rw [tot', pnl']
      omega
    rw [Nat.cast_zero] at before
    rw [after, rest, before]
    simp only [RiskEngine.withGain, RiskEngine.rebook, RiskEngine.residual, RiskEngine.totals,
      put_same, Account.withPnl]
  · intro j hj v hv
    exact accountEquityTradeOpenRaw_counted (within j hj) width (range j hj).1 (range j hj).2 hv
  · exact Fund.tally_worth_le (f := s.positiveFund) (t := s.accounts)
      (g := fun a => i128ClampPos a.pnl) (Nat.le_of_eq aggregate.symm)

theorem stressedMarket_gain_neutral :
    accountEquityTradeOpenRaw (stressedMarket.withGain 1 25) 1 25 =
      accountEquityTradeOpenRaw stressedMarket 1 0 :=
  (tradeOpen_neutral (by decide +kernel) (by decide +kernel) (by decide +kernel)
    (by decide +kernel)).1

end Percolator
