import Percolator.Laws.Haircut

/-!
Widths: within the live caps, the helpers that scale PnL panic exactly when one
of three bounds between fields of the state fails.

The wide helper serves the haircut of matured PnL, which therefore never
panics. The schedule and the trade lane use the native one, and the quotient of
the flat-conversion cap is made before it is capped.
-/

namespace Percolator

open Effect

variable {s : RiskEngine} {i : Nat}

/-- A Live state within the caps on PnL, the aggregate and the vault, with covered
seniors and reserves of valid shape. -/
structure Capped (s : RiskEngine) : Prop where
  live : s.marketMode = .live
  pnl : ∀ i ∈ s.usedSlots, (s.accounts i).pnl ≤ MAX_ACCOUNT_POSITIVE_PNL
  aggregate : s.pnlPosTot ≤ MAX_PNL_POS_TOT
  vault : s.vault ≤ MAX_VAULT_TVL
  backed : s.cTot + s.insuranceFund ≤ s.vault
  shape : ∀ i ∈ s.usedSlots, ReserveShape s.params (s.accounts i)

/-- None of the four helpers panics on account `i`, whatever the candidate trade or
the amount to convert. -/
structure PanicFree (s : RiskEngine) (i : Nat) : Prop where
  warmup : ¬ ∃ s', advanceProfitWarmup i s = .fault .panic s'
  trade : ∀ candidateTradePnl, accountEquityTradeOpenRaw s i candidateTradePnl ≠ none
  matured : effectiveMaturedPnl s i ≠ none
  conversion : ∀ xCap,
    maxSafeFlatConversionReleased s i xCap (haircutRatio s).1 (haircutRatio s).2 ≠ none

/-- The schedule of an account runs at `now`, and is too old for what it anchors. -/
def Account.Overruns (a : Account) (now : Nat) : Prop :=
  a.schedPresent = true ∧ a.schedStartSlot ≤ now ∧ now < a.schedStartSlot + a.schedHorizon ∧
    U128_MAX < a.schedAnchorQ * (now - a.schedStartSlot)

/-- The bounds on the fields of account `i`: how old its schedule may be for what it
anchors, how much profit the residual may face, and how much equity a haircut near one. -/
structure WithinWidth (s : RiskEngine) (i : Nat) : Prop where
  schedule : ¬ (s.accounts i).Overruns s.currentSlot
  profit : i128ClampPos (s.accounts i).pnl ≤ s.pnlPosTot →
    i128ClampPos (s.accounts i).pnl * min s.residual s.pnlPosTot ≤ U128_MAX
  equity : 0 < accountEquityMaintRaw (s.accounts i) → s.residual < s.pnlMaturedPosTot →
    (accountEquityMaintRaw (s.accounts i)).toNat * s.pnlMaturedPosTot <
      (U128_MAX + 1) * (s.pnlMaturedPosTot - s.residual)

/-! ### The schedule -/

theorem mulDivFloorU128_none_iff {a b d : Nat} (h : 0 < d) :
    mulDivFloorU128 a b d = none ↔ U128_MAX < a * b := by
  unfold mulDivFloorU128
  split_ifs with hc
  · simp only [true_iff]
    omega
  · simp only [false_iff]
    omega

theorem schedTotal_none_iff {anchor elapsed horizon : Nat} (h : 0 < horizon) :
    schedTotal anchor elapsed horizon = none ↔ elapsed < horizon ∧ U128_MAX < anchor * elapsed := by
  unfold schedTotal
  split_ifs with hle
  · simp only [false_iff]
    omega
  · rw [mulDivFloorU128_none_iff h]
    omega

/-- The faults of a release are errors, not panics. -/
theorem releaseSched_no_panic {r : Nat} {l : List Event} :
    wp (releaseSched i r) (fun _ _ _ => True) (fun e _ => e ≠ .panic) s l := by
  simp [releaseSched]

/-- A pending bucket is promoted with a schedule of no age. -/
theorem Account.promoted_overruns {a : Account} {now : Nat} :
    (a.promoted now).Overruns now ↔ a.Overruns now := by
  unfold Account.promoted
  split_ifs with h
  · constructor
    · rintro ⟨-, -, -, high⟩
      simp only [Account.promotePending, Nat.sub_self, Nat.mul_zero] at high
      omega
    · rintro ⟨present, -⟩
      exact absurd present (by rw [h.1]; exact Bool.false_ne_true)
  · rfl

/-- Advancing the warmup panics exactly when the schedule that runs is too old for its anchor. -/
theorem advanceProfitWarmup_panics_iff (shape : ReserveShape s.params (s.accounts i)) :
    (∃ s', advanceProfitWarmup i s = .fault .panic s') ↔ (s.accounts i).Overruns s.currentSlot := by
  have buckets := (reserveShape_iff.mp shape).1
  have check := reserveShapeCheck_iff.mpr shape
  rw [← Account.promoted_overruns]
  have promoted : Buckets s.params ((s.accounts i).promoted s.currentSlot) := buckets.promoted
  constructor
  · rintro ⟨s', fault⟩
    by_contra within
    have quiet : wp (advanceProfitWarmup i) (fun _ _ _ => True) (fun e _ => e ≠ .panic) s [] := by
      simp only [advanceProfitWarmup, validateReserveShape, wp_bind, wp_read, wp_rejectIf, wp_ite,
        wp_pure, wp_writeAccount, wp_expect, ne_eq, reduceCtorEq, not_false_eq_true, implies_true,
        true_and, and_true, RiskEngine.setAccount_accounts, put_same,
        RiskEngine.setAccount_currentSlot]
      intro _ _ present start horizon
      constructor
      · intro none
        obtain ⟨running, high⟩ := (schedTotal_none_iff (by omega)).mp none
        exact absurd ⟨by simpa using present, by omega, by omega, high⟩ within
      · intro _ _ _
        exact releaseSched_no_panic
    exact wp_sound_fault fault quiet rfl
  · rintro ⟨present, start, running, high⟩
    have reserved : (s.accounts i).reservedPnl ≠ 0 := by
      intro none
      have empty := (promoted.empty (by rw [Account.promoted_reservedPnl]; exact none)).1
      rw [present] at empty
      cases empty
    have stuck : wp (advanceProfitWarmup i) (fun _ _ _ => False) (fun e _ => e = .panic) s [] := by
      simp only [advanceProfitWarmup, validateReserveShape, wp_bind, wp_read, wp_rejectIf, wp_ite,
        wp_pure, wp_writeAccount, wp_expect, RiskEngine.setAccount_accounts, put_same,
        RiskEngine.setAccount_currentSlot, check, reserved, present, reduceCtorEq, false_implies,
        true_and, not_false_eq_true, true_implies, Bool.true_eq_false]
      have none : schedTotal ((s.accounts i).promoted s.currentSlot).schedAnchorQ
          (s.currentSlot - ((s.accounts i).promoted s.currentSlot).schedStartSlot)
          ((s.accounts i).promoted s.currentSlot).schedHorizon = none :=
        (schedTotal_none_iff (by omega)).mpr ⟨by omega, high⟩
      refine ⟨fun h => absurd start (by omega), fun _ => ⟨fun h => absurd running (by omega), fun _ => ?_⟩⟩
      rw [none]
      simp
    obtain ⟨e, s', fault, rfl⟩ := wp_faults stuck
    exact ⟨s', fault⟩

/-! ### The trade lane -/

/-- The trade lane panics on one product: the profit left without the candidate's gain, with
what backs all profit. -/
theorem accountEquityTradeOpenRaw_none_iff {c : Int} :
    accountEquityTradeOpenRaw s i c = none ↔
      i128ClampPos (s.accounts i).pnl ≤ s.pnlPosTot ∧
      s.pnlPosTot - i128ClampPos (s.accounts i).pnl +
        (i128ClampPos (s.accounts i).pnl - i128ClampPos c) ≤ U128_MAX ∧
      U128_MAX < (i128ClampPos (s.accounts i).pnl - i128ClampPos c) * min s.residual
        (s.pnlPosTot - i128ClampPos (s.accounts i).pnl +
          (i128ClampPos (s.accounts i).pnl - i128ClampPos c)) := by
  simp only [accountEquityTradeOpenRaw]
  generalize i128ClampPos (s.accounts i).pnl = pos
  generalize pos - i128ClampPos c = own
  unfold checkedSub checkedAddU128
  by_cases htot : pos ≤ s.pnlPosTot
  · rw [if_pos htot, Option.bind_some]
    generalize s.pnlPosTot - pos + own = opened
    by_cases hfits : opened ≤ U128_MAX
    · rw [if_pos hfits]
      rcases Nat.eq_zero_or_pos opened with rfl | hpos
      · simp
      · dsimp only
        rw [if_neg (by omega)]
        simp only [htot, hfits, true_and, ← mulDivFloorU128_none_iff hpos]
        cases mulDivFloorU128 own (min s.residual opened) opened with
        | none => simp
        | some v => simp
    · rw [if_neg hfits]
      simp [hfits]
  · rw [if_neg htot]
    simp [htot]

/-- The equity of the trade lane exists for every candidate exactly when the product of the
account's profit with what backs all profit fits. -/
theorem accountEquityTradeOpenRaw_total_iff (aggregate : s.pnlPosTot ≤ MAX_PNL_POS_TOT) :
    (∀ candidateTradePnl, accountEquityTradeOpenRaw s i candidateTradePnl ≠ none) ↔
      (i128ClampPos (s.accounts i).pnl ≤ s.pnlPosTot →
        i128ClampPos (s.accounts i).pnl * min s.residual s.pnlPosTot ≤ U128_MAX) := by
  have width : MAX_PNL_POS_TOT ≤ U128_MAX := by decide
  constructor
  · intro total tot
    by_contra wide
    apply total 0
    rw [accountEquityTradeOpenRaw_none_iff]
    have none : i128ClampPos 0 = 0 := rfl
    rw [none, Nat.sub_zero, Nat.sub_add_cancel tot]
    exact ⟨tot, by omega, by omega⟩
  · intro profit candidate fails
    obtain ⟨tot, -, wide⟩ := accountEquityTradeOpenRaw_none_iff.mp fails
    -- a gain only takes away from both factors
    have product : (i128ClampPos (s.accounts i).pnl - i128ClampPos candidate) * min s.residual
        (s.pnlPosTot - i128ClampPos (s.accounts i).pnl +
          (i128ClampPos (s.accounts i).pnl - i128ClampPos candidate)) ≤
        i128ClampPos (s.accounts i).pnl * min s.residual s.pnlPosTot := by
      apply Nat.mul_le_mul (Nat.sub_le _ _)
      apply min_le_min_left
      omega
    have := profit tot
    omega

/-! ### The haircut of matured PnL -/

theorem haircutRatio_le : (haircutRatio s).1 ≤ (haircutRatio s).2 ∧ 0 < (haircutRatio s).2 := by
  unfold haircutRatio
  split_ifs with h
  · exact ⟨Nat.le_refl 1, Nat.one_pos⟩
  · exact ⟨Nat.min_le_right _ _, Nat.pos_of_ne_zero h⟩

/-- The wide helper never fails on a haircut. -/
theorem effectiveMaturedPnl_total (pnl : (s.accounts i).pnl ≤ MAX_ACCOUNT_POSITIVE_PNL) :
    effectiveMaturedPnl s i ≠ none := by
  obtain ⟨below, pos⟩ := haircutRatio_le (s := s)
  have width : (MAX_ACCOUNT_POSITIVE_PNL : Int) ≤ U128_MAX := by decide
  have released : (s.accounts i).releasedPos ≤ U128_MAX := by
    unfold Account.releasedPos i128ClampPos
    omega
  have share := share_le (s.accounts i).releasedPos below
  unfold effectiveMaturedPnl wideMulDivFloorU128
  dsimp only
  split_ifs with none bad
  · exact Option.some_ne_none _
  · omega
  · exact Option.some_ne_none _

/-! ### The cap on a flat conversion -/

/-- The cap exists for every amount exactly when its quotient fits. -/
theorem maxSafeFlatConversionReleased_total_iff :
    (∀ xCap, maxSafeFlatConversionReleased s i xCap (haircutRatio s).1 (haircutRatio s).2 ≠ none) ↔
      (0 < accountEquityMaintRaw (s.accounts i) → s.residual < s.pnlMaturedPosTot →
        (accountEquityMaintRaw (s.accounts i)).toNat * s.pnlMaturedPosTot <
          (U128_MAX + 1) * (s.pnlMaturedPosTot - s.residual)) := by
  have stressed : s.residual < s.pnlMaturedPosTot →
      haircutRatio s = (s.residual, s.pnlMaturedPosTot) := by
    intro h
    unfold haircutRatio
    rw [if_neg (by omega), Nat.min_eq_left (Nat.le_of_lt h)]
  constructor
  · intro total equity short
    by_contra wide
    apply total 1
    rw [stressed short]
    simp only [maxSafeFlatConversionReleased]
    rw [if_neg (by omega), if_neg (by omega)]
    have high : U128_MAX + 1 ≤ (accountEquityMaintRaw (s.accounts i)).toNat * s.pnlMaturedPosTot /
        (s.pnlMaturedPosTot - s.residual) := by
      rw [Nat.le_div_iff_mul_le (by omega)]
      omega
    unfold wideMulDivFloorU128
    rw [if_pos (.inr high)]
    rfl
  · intro within xCap
    simp only [maxSafeFlatConversionReleased]
    split_ifs with none full
    · exact Option.some_ne_none _
    · exact Option.some_ne_none _
    · have short : s.residual < s.pnlMaturedPosTot := by
        by_contra covered
        apply full
        right
        unfold haircutRatio
        split_ifs
        · rfl
        · exact Nat.min_eq_right (by omega)
      have fits := (Nat.div_lt_iff_lt_mul (by omega)).mpr (within (by omega) short)
      rw [stressed short]
      unfold wideMulDivFloorU128
      dsimp only
      rw [if_neg (by omega)]
      exact Option.some_ne_none _

/-! ### All of them -/

/-- Within the caps no helper panics exactly when every account is within the widths. -/
theorem Capped.panicFree_iff (capped : Capped s) :
    (∀ i ∈ s.usedSlots, PanicFree s i) ↔ ∀ i ∈ s.usedSlots, WithinWidth s i := by
  constructor
  · intro free i hi
    obtain ⟨warmup, trade, -, conversion⟩ := free i hi
    constructor
    · rw [← advanceProfitWarmup_panics_iff (capped.shape i hi)]
      exact warmup
    · exact (accountEquityTradeOpenRaw_total_iff capped.aggregate).mp trade
    · exact maxSafeFlatConversionReleased_total_iff.mp conversion
  · intro within i hi
    obtain ⟨schedule, profit, equity⟩ := within i hi
    constructor
    · rw [advanceProfitWarmup_panics_iff (capped.shape i hi)]
      exact schedule
    · exact (accountEquityTradeOpenRaw_total_iff capped.aggregate).mpr profit
    · exact effectiveMaturedPnl_total (capped.pnl i hi)
    · exact maxSafeFlatConversionReleased_total_iff.mpr equity

instance Account.overrunsDecidable (a : Account) (now : Nat) : Decidable (a.Overruns now) :=
  inferInstanceAs (Decidable (_ ∧ _ ∧ _ ∧ _))

theorem stressedMarket_panicFree : PanicFree stressedMarket 1 := by
  have shape : ∀ i ∈ stressedMarket.usedSlots,
      reserveShapeCheck stressedMarket.params (stressedMarket.accounts i) = true := by decide +kernel
  have capped : Capped stressedMarket :=
    ⟨by decide +kernel, by decide +kernel, by decide +kernel, by decide +kernel, by decide +kernel,
      fun i hi => reserveShapeCheck_iff.mp (shape i hi)⟩
  have schedule : ∀ i ∈ stressedMarket.usedSlots,
      ¬ (stressedMarket.accounts i).Overruns stressedMarket.currentSlot := by decide +kernel
  have profit : ∀ i ∈ stressedMarket.usedSlots, i128ClampPos (stressedMarket.accounts i).pnl *
      min stressedMarket.residual stressedMarket.pnlPosTot ≤ U128_MAX := by decide +kernel
  have equity : ∀ i ∈ stressedMarket.usedSlots,
      (accountEquityMaintRaw (stressedMarket.accounts i)).toNat * stressedMarket.pnlMaturedPosTot <
        (U128_MAX + 1) * (stressedMarket.pnlMaturedPosTot - stressedMarket.residual) := by
    decide +kernel
  have within : ∀ i ∈ stressedMarket.usedSlots, WithinWidth stressedMarket i := by
    intro i hi
    exact ⟨schedule i hi, fun _ => profit i hi, fun _ _ => equity i hi⟩
  exact capped.panicFree_iff.mpr within 1 (by decide +kernel)

/-- A market at its caps with a warmup horizon of ten million slots: account 1 has the
largest PnL, all but one unit of it in a schedule halfway through, and account 2 has as
much matured PnL as the residual. -/
def brimmingMarket : RiskEngine :=
  { tradedMarket with
    params := { tradedMarket.params with hMax := 10000000 }
    currentSlot := 5000101
    vault := MAX_VAULT_TVL
    pnlPosTot := MAX_ACCOUNT_POSITIVE_PNL + (MAX_VAULT_TVL - (tradedMarket.cTot + tradedMarket.insuranceFund))
    pnlMaturedPosTot := 1 + (MAX_VAULT_TVL - (tradedMarket.cTot + tradedMarket.insuranceFund))
    accounts := put (put tradedMarket.accounts 1
      { ((tradedMarket.accounts 1).withPnl MAX_ACCOUNT_POSITIVE_PNL).openSched
          (MAX_ACCOUNT_POSITIVE_PNL - 1) 101 10000000 with
        reservedPnl := MAX_ACCOUNT_POSITIVE_PNL - 1 }) 2
      ((tradedMarket.accounts 2).withPnl
        (MAX_VAULT_TVL - (tradedMarket.cTot + tradedMarket.insuranceFund) : Nat)) }

theorem brimmingMarket_panics : Capped brimmingMarket ∧ 1 ∈ brimmingMarket.usedSlots ∧
    (∃ s', advanceProfitWarmup 1 brimmingMarket = .fault .panic s') ∧
    accountEquityTradeOpenRaw brimmingMarket 1 0 = none ∧
    maxSafeFlatConversionReleased brimmingMarket 1 1 (haircutRatio brimmingMarket).1
      (haircutRatio brimmingMarket).2 = none := by
  have shape : ∀ i ∈ brimmingMarket.usedSlots,
      reserveShapeCheck brimmingMarket.params (brimmingMarket.accounts i) = true := by decide +kernel
  have capped : Capped brimmingMarket :=
    ⟨by decide +kernel, by decide +kernel, by decide +kernel, by decide +kernel, by decide +kernel,
      fun i hi => reserveShapeCheck_iff.mp (shape i hi)⟩
  have used : 1 ∈ brimmingMarket.usedSlots := by decide +kernel
  have overruns : (brimmingMarket.accounts 1).Overruns brimmingMarket.currentSlot := by decide +kernel
  refine ⟨capped, used, ?_, by decide +kernel, by decide +kernel⟩
  exact (advanceProfitWarmup_panics_iff (capped.shape 1 used)).mpr overruns

end Percolator
