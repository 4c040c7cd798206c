import Percolator.Laws.Accrual
import Percolator.Laws.Finalization
import Percolator.Laws.Margin

/-!
Voluntary actions: what a withdrawal beside an open position and a trade that adds risk
leave behind holds its initial requirement, and a liquidation at the same price and slot
finds it healthy unless the two requirements coincide and the equity equals them.

The checks are made before the instruction ends. What follows them, the finalization, the
payment and the resets, moves equity by the payment alone and keeps the effective position
or drops it; and a touch of a settled account with positive equity changes neither.
-/

namespace Percolator

open Effect

variable {s s₁ s' : RiskEngine} {i a b price mm im amount : Nat} {eff q : Int} {whole : Bool} {l : List Event}
  {ph : Phase} {ctx : InstructionContext}

/-! ### Standing -/

/-- Every account keeps its position and its equity, and the market its setting. -/
structure SameStanding (s s' : RiskEngine) : Prop where
  setting : s'.setting = s.setting
  sides : s'.sides = s.sides
  used : s'.isUsed = s.isUsed
  position : ∀ i, (s.accounts i).SamePosition (s'.accounts i)
  equity : ∀ i, accountEquityMaintRawWide (s'.accounts i) = accountEquityMaintRawWide (s.accounts i)

theorem SameStanding.refl (s : RiskEngine) : SameStanding s s := ⟨rfl, rfl, rfl, fun _ => .refl _, fun _ => rfl⟩

theorem SameStanding.trans (h : SameStanding s s₁) (h' : SameStanding s₁ s') : SameStanding s s' :=
  ⟨h'.setting.trans h.setting, h'.sides.trans h.sides, h'.used.trans h.used, fun i => (h.position i).trans (h'.position i),
    fun i => (h'.equity i).trans (h.equity i)⟩

theorem SameStanding.effective (h : SameStanding s s') (i : Nat) : effectivePosQ s' i = effectivePosQ s i :=
  effectivePosQ_congr (h.position i) (fun d => by rw [h.sides]) fun d => by rw [h.sides]

/-- Converting profit and paying fee debt leaves the equity of an account as it is. -/
theorem Account.finalizedAs_equity (x : Account) :
    accountEquityMaintRawWide (x.finalizedAs whole) = accountEquityMaintRawWide x := by
  have le_capital : (x.wholeConverted whole).debtPay ≤ (x.wholeConverted whole).capital := x.debtPay_le
  have le_debt : (x.wholeConverted whole).debtPay ≤ (-x.feeCredits).toNat := Nat.min_le_left _ _
  simp only [accountEquityMaintRawWide, finalizedAs, wholeConverted, withCapital, withPnl, withFeeCredits,
    feeDebtU128Checked] at *
  omega

theorem RiskEngine.finalizedAs_standing (s : RiskEngine) (i : Nat) : SameStanding s (s.finalizedAs whole i) := by
  rw [RiskEngine.finalizedAs_eq]
  refine ⟨rfl, rfl, rfl, fun j => ?_, fun j => ?_⟩
  · rw [RiskEngine.rebook_accounts, put_apply]
    split_ifs with same
    · subst same
      exact ⟨rfl, rfl, rfl, rfl, rfl⟩
    · exact .refl _
  · rw [RiskEngine.rebook_accounts, put_apply]
    split_ifs with same
    · subst same
      exact (s.accounts j).finalizedAs_equity
    · rfl

/-- A finalization changes the standing of nobody. -/
theorem Finalizable.standing (h : Finalizable ph s)
    (hok : finalizeTouchedAccountsPostLive ctx s = .ok () s' l) : SameStanding s s' ∧ Finalizable ph s' := by
  obtain ⟨all, kept, standing⟩ := forEach_fold (f := finalizeTouched s.isWhole)
    (g := RiskEngine.finalizedAs s.isWhole) (I := fun t => Regime s.isWhole ph t ∧ SameStanding s t)
    (fun i t h => ⟨(h.1.finalize i).1, (h.1.finalize i).2, h.2.trans (t.finalizedAs_standing i)⟩)
    ⟨h.regime, .refl s⟩
  unfold finalizeTouchedAccountsPostLive at hok
  rw [bind_eq_ok] at hok
  obtain ⟨_, _, _, _, read, rest, -⟩ := hok
  obtain ⟨rfl, rfl, -⟩ := Outcome.ok.inj read
  obtain ⟨-, rfl, -⟩ := Outcome.ok.inj (all.symm.trans rest)
  exact ⟨standing, kept.toFinalizable⟩

/-! ### Holding the initial requirement -/

/-- Account `i` holds the initial requirement `im` of its position, beside the maintenance
requirement `mm`, and some equity. -/
structure Margined (s : RiskEngine) (i price : Nat) (eff : Int) (mm im : Nat) : Prop where
  effective : effectivePosQ s i = some eff
  maintenance : mmReqAt s.params eff price = some mm
  initial : imReqAt s.params eff price = some im
  order : mm ≤ im
  fits : (im : Int) ≤ I128_MAX
  covered : (im : Int) ≤ accountEquityMaintRawWide (s.accounts i)
  positive : 0 < accountEquityMaintRawWide (s.accounts i)

/-- The initial requirement of an open position is positive, an `i128`, and at least the
maintenance requirement. -/
theorem RiskParams.Valid.requirements {p : RiskParams} {slab : Nat} (valid : p.Valid slab) (open' : eff ≠ 0)
    (h : imReqAt p eff price = some im) :
    0 < im ∧ (im : Int) ≤ I128_MAX ∧ ∃ mm, mmReqAt p eff price = some mm ∧ mm ≤ im := by
  unfold imReqAt mmReqAt at *
  rw [if_neg open'] at h ⊢
  obtain ⟨n, hn, him⟩ := Option.bind_eq_some_iff.mp h
  obtain ⟨share, hshare, him⟩ := Option.bind_eq_some_iff.mp him
  obtain rfl : max share p.minNonzeroImReq = im := Option.some.inj him
  obtain ⟨-, rfl⟩ := mulDivFloorU128_eq hshare
  have wide : n * p.initialMarginBps ≤ U128_MAX := by
    by_contra wide
    unfold mulDivFloorU128 at hshare
    rw [if_pos (.inr (not_le.mp wide))] at hshare
    cases hshare
  have bps := valid.maintenance_le
  have less : n * p.maintenanceMarginBps ≤ n * p.initialMarginBps := Nat.mul_le_mul_left n bps
  have floors := valid.mmReq_lt
  have deposit := valid.imReq_le.trans valid.deposit_le
  refine ⟨by omega, ?_, max (n * p.maintenanceMarginBps / 10000) p.minNonzeroMmReq, ?_, ?_⟩
  · have wide := Nat.div_le_div_right (c := 10000) wide
    simp only [MAX_VAULT_TVL, U128_MAX, I128_MAX] at *
    omega
  · have fits : mulDivFloorU128 n p.maintenanceMarginBps 10000 = some (n * p.maintenanceMarginBps / 10000) :=
      if_neg (by omega)
    simp [hn, mmReq, marginReq, fits]
  · have := Nat.div_le_div_right (c := 10000) less
    omega

/-- Equity that covers the initial requirement of an open position. -/
theorem Margined.of_covered {slab : Nat} (valid : s.params.Valid slab) (open' : eff ≠ 0)
    (heff : effectivePosQ s i = some eff) (him : imReqAt s.params eff price = some im)
    (covered : (im : Int) ≤ accountEquityMaintRawWide (s.accounts i)) :
    ∃ mm, Margined s i price eff mm im := by
  obtain ⟨pos, fits, mm, hmm, order⟩ := valid.requirements open' him
  exact ⟨mm, heff, hmm, him, order, fits, covered, by omega⟩

theorem Margined.standing (h : Margined s i price eff mm im) (same : SameStanding s s') :
    Margined s' i price eff mm im := by
  have params := RiskEngine.setting_params same.setting
  refine ⟨(same.effective i).trans h.effective, params ▸ h.maintenance, params ▸ h.initial, h.order, h.fits, ?_, ?_⟩
  · rw [same.equity]
    exact h.covered
  · rw [same.equity]
    exact h.positive

/-- The maintenance check of an account that holds its initial requirement. -/
theorem Margined.above (h : Margined s i price eff mm im)
    (small : accountEquityMaintRawWide (s.accounts i) ≤ I128_MAX) :
    isAboveMaintenanceMargin s i price =
      some (decide ((mm : Int) < accountEquityMaintRawWide (s.accounts i))) := by
  have fits : toI128 (accountEquityMaintRawWide (s.accounts i)) =
      some (accountEquityMaintRawWide (s.accounts i)) := by
    refine if_pos ⟨?_, small⟩
    have := h.positive
    unfold I128_MIN
    omega
  have net : accountEquityNet (s.accounts i) = accountEquityMaintRawWide (s.accounts i) := by
    unfold accountEquityNet accountEquityMaintRaw projectEquity
    rw [fits]
    exact max_eq_right h.positive.le
  have capped : min (mm : Int) I128_MAX = mm := by
    have := h.order
    have := h.fits
    omega
  rw [isAboveMaintenanceMargin_eq h.effective, h.maintenance, net, Option.map_some, capped]

/-! ### The checks -/

/-- The check of a withdrawal leaves the initial requirement covered after the payment. -/
theorem checkWithdrawMargin_covers {slab : Nat} (valid : s.params.Valid slab)
    (within : (amount : Int) ≤ I128_MAX) (hok : checkWithdrawMargin i amount price s = .ok () s' l) :
    ∃ eff, effectivePosQ s i = some eff ∧ (eff ≠ 0 → ∃ im, imReqAt s.params eff price = some im ∧
      (im : Int) ≤ accountEquityMaintRawWide (s.accounts i) - amount) := by
  set P : Prop := ∃ eff, effectivePosQ s i = some eff ∧ (eff ≠ 0 → ∃ im, imReqAt s.params eff price = some im ∧
    (im : Int) ≤ accountEquityMaintRawWide (s.accounts i) - amount) with hP
  refine wp_sound (Q := fun _ _ _ => P) hok ?_
  simp only [checkWithdrawMargin, wp_bind, wp_read, wp_expect, wp_whenever, wp_rejectIf, implies_true,
    true_and, not_lt]
  intro eff heff
  refine ⟨fun open' v hv im him enough => ⟨eff, heff, fun _ => ?_⟩,
    fun closed => ⟨eff, heff, fun open' => absurd open' closed⟩⟩
  rw [notional_eq heff open'] at him
  have him : imReqAt s.params eff price = some im := by
    unfold imReqAt
    rw [if_neg open']
    exact him
  obtain ⟨pos, fits, -⟩ := valid.requirements open' him
  rw [asI128, if_pos fits, asI128, if_pos within] at enough
  have small : v ≤ I128_MAX := by
    obtain ⟨e, -, hv⟩ := Option.bind_eq_some_iff.mp hv
    obtain rfl := Option.some.inj hv
    unfold projectEquity
    cases hw : toI128 _ with
    | none => decide
    | some w => exact (toI128_eq hw).1 ▸ (toI128_eq hw).2.2
  have covered : (im : Int) + amount ≤ v := by
    unfold saturatingSubI128 at enough
    simp only [I128_MIN, I128_MAX] at *
    omega
  have counted := accountEquityWithdrawRaw_le (by omega) hv
  exact ⟨im, him, by omega⟩

/-- A leg of a trade adds risk, or flips its side. -/
def RiskIncreasing (oldEff newEff : Int) : Prop :=
  oldEff.natAbs < newEff.natAbs ∨ (0 < oldEff ∧ newEff < 0) ∨ (oldEff < 0 ∧ 0 < newEff)

theorem RiskIncreasing.open {oldEff newEff : Int} (h : RiskIncreasing oldEff newEff) : newEff ≠ 0 := by
  rcases h with more | ⟨-, short⟩ | ⟨-, long⟩
  · omega
  · exact short.ne
  · exact long.ne'

/-- The margin check of a leg that adds risk covers the initial requirement. -/
theorem enforceOneSideMargin_covers {oldEff newEff bufferPre c : Int} {fee : Nat}
    (low : I128_MIN < (s.accounts i).pnl) (adds : RiskIncreasing oldEff newEff)
    (hok : enforceOneSideMargin i price oldEff newEff bufferPre fee c s = .ok () s' l) :
    ∃ eff im, effectivePosQ s i = some eff ∧ imReqAt s.params eff price = some im ∧
      min (im : Int) I128_MAX ≤ accountEquityMaintRawWide (s.accounts i) := by
  set P : Prop := ∃ eff im, effectivePosQ s i = some eff ∧ imReqAt s.params eff price = some im ∧
    min (im : Int) I128_MAX ≤ accountEquityMaintRawWide (s.accounts i) with hP
  refine wp_sound (Q := fun _ _ _ => P) hok ?_
  simp only [enforceOneSideMargin, wp_bind, wp_read, wp_ite, wp_expect, wp_rejectIf, wp_pure, wp_fail,
    implies_true, true_and, and_true, Bool.not_eq_false]
  refine ⟨fun closed => absurd closed adds.open, fun _ => ⟨fun _ ok hok' opened => ?_, fun calm => ?_⟩⟩
  rotate_left
  · rcases adds with more | flip | flip
    · exact absurd (.inl more) calm
    · exact absurd (.inr (.inl flip)) calm
    · exact absurd (.inr (.inr (.inl flip))) calm
  rw [opened] at hok'
  obtain ⟨eff, im, v, heff, him, hv, enough⟩ := isAboveInitialMarginTradeOpen_some hok'
  have enough := of_decide_eq_true enough.symm
  exact ⟨eff, im, heff, him, enough.trans
    (accountEquityTradeOpenRaw_le low ((cappedReq_nonneg im).trans enough) hv)⟩

/-! ### The end of an instruction -/

theorem payOut_standing (hle : amount ≤ (s.accounts i).capital) (hok : payOut i amount s = .ok () s' l) :
    s'.setting = s.setting ∧ s'.sides = s.sides ∧ s'.isUsed = s.isUsed ∧
      (∀ j, (s.accounts j).SamePosition (s'.accounts j)) ∧
      accountEquityMaintRawWide (s'.accounts i) = accountEquityMaintRawWide (s.accounts i) - amount := by
  set P : RiskEngine → Prop := fun s' => s'.setting = s.setting ∧ s'.sides = s.sides ∧ s'.isUsed = s.isUsed ∧
    (∀ j, (s.accounts j).SamePosition (s'.accounts j)) ∧
    accountEquityMaintRawWide (s'.accounts i) = accountEquityMaintRawWide (s.accounts i) - amount with hP
  refine wp_sound (Q := fun _ s' _ => P s') hok ?_
  simp only [payOut, wp_bind, wp_read, wp_orErr, wp_update, implies_true, true_and]
  refine wp_ok fun _ s₁ l₁ h₁ v hv => ?_
  obtain ⟨c, rfl, rfl, hc⟩ := setCapital_spec h₁
  refine ⟨rfl, rfl, rfl, fun j => ?_, ?_⟩
  · show (s.accounts j).SamePosition (put s.accounts i _ j)
    rw [put_apply]
    split_ifs with same
    · subst same
      exact ⟨rfl, rfl, rfl, rfl, rfl⟩
    · exact .refl _
  · show accountEquityMaintRawWide (put s.accounts i _ i) = _
    rw [put_same]
    unfold accountEquityMaintRawWide
    simp only [Account.withCapital_capital, Account.withCapital_pnl, Account.withCapital_feeCredits]
    omega

/-- A reset leaves an effective position as it is, or nothing of it. -/
theorem effectivePosQ_reset {oi : Side → Nat} {marks : Side → Bool}
    (pos : ∀ d, sideOfI128 (s.accounts i).positionBasisQ = some d → PositionOk (s.sides d) (s.accounts i)) :
    effectivePosQ (s.withSides fun d => ((s.sides d).withOi (oi d)).finalized (marks d)) i = effectivePosQ s i ∨
      effectivePosQ (s.withSides fun d => ((s.sides d).withOi (oi d)).finalized (marks d)) i = some 0 := by
  unfold effectivePosQ
  simp only [RiskEngine.withSides_accounts, RiskEngine.withSides_sides]
  cases side : sideOfI128 (s.accounts i).positionBasisQ with
  | none => exact .inl rfl
  | some d =>
      dsimp only
      by_cases drains : ((s.sides d).withOi (oi d)).Drains (marks d)
      · -- the position is of the epoch before
        obtain ⟨-, epoch⟩ | ⟨waiting, -⟩ := (pos d side).epoch
        · right
          rw [SideState.finalized, if_pos drains, SideState.reopened_eq]
          refine if_pos (.inl ?_)
          show _ ≠ (s.sides d).adlEpoch + 1
          omega
        · exact absurd waiting drains.2
      · left
        rw [SideState.finalized, if_neg drains, SideState.reopened_eq]
        rfl

theorem endOfInstructionResets_sides (hok : endOfInstructionResets ctx s = .ok () s' l) :
    ∃ (oi : Side → Nat) (marks : Side → Bool),
      s' = s.withSides fun d => ((s.sides d).withOi (oi d)).finalized (marks d) := by
  set P : RiskEngine → Prop := fun s' => ∃ (oi : Side → Nat) (marks : Side → Bool),
    s' = s.withSides fun d => ((s.sides d).withOi (oi d)).finalized (marks d) with hP
  refine wp_sound (Q := fun _ s' _ => P s') hok ?_
  simp only [endOfInstructionResets, wp_bind, wp_lift]
  refine wp_ok fun ctx' s₁ l₁ scheduled => wp_ok fun _ s₂ l₂ finalized => ?_
  obtain ⟨oi, rfl, -, -⟩ := scheduleEndOfInstructionResets_spec scheduled
  obtain ⟨rfl, -, -⟩ := finalizeEndOfInstructionResets_spec finalized
  exact ⟨oi, ctx'.pendingReset, rfl⟩

theorem Between.resets_accounts {sc : Scope} {c : Conf} (hb : Between sc c ctx l s ph)
    (run : Runs (endOfInstructionResets ctx) s () s') : s'.accounts = s.accounts := by
  obtain ⟨l', hok⟩ := run
  obtain ⟨-, reset⟩ := wp_at hb.finish hok
  rw [reset.eq]
  rfl

/-- The resets leave an account its margin. -/
theorem Margined.resets {sc : Scope} {c : Conf} (h : Margined s i price eff mm im) (hb : Between sc c ctx l s ph)
    (used : s.isUsed i = true) (synced : (s.accounts i).Synced s.sides)
    (run : Runs (endOfInstructionResets ctx) s () s') :
    (∃ eff mm im, Margined s' i price eff mm im) ∧ (s'.accounts i).Synced s'.sides ∧ s'.setting = s.setting ∧
      s'.isUsed = s.isUsed := by
  obtain ⟨l', hok⟩ := run
  have positions : Positions s ph := hb.good.positions hb.live
  have pos := fun d => positions.position i d used
  obtain ⟨-, reset⟩ := wp_at hb.finish hok
  have settled := reset.synced _ pos synced
  obtain ⟨oi, marks, rfl⟩ := endOfInstructionResets_sides hok
  refine ⟨?_, settled, rfl, rfl⟩
  rcases @effectivePosQ_reset s i oi marks pos with same | gone
  · exact ⟨eff, mm, im, same.trans h.effective, h.maintenance, h.initial, h.order, h.fits, h.covered, h.positive⟩
  · refine ⟨0, 0, 0, gone, rfl, rfl, Nat.le_refl 0, by decide, ?_, h.positive⟩
    exact_mod_cast h.positive.le

/-! ### The next touch -/

theorem Account.lossPaid_equity (x : Account) :
    accountEquityMaintRawWide x.lossPaid = accountEquityMaintRawWide x := by
  have le_capital : x.lossPay ≤ x.capital := Nat.min_le_right _ _
  simp only [accountEquityMaintRawWide, lossPaid, withCapital, withPnl]
  omega

/-- A loss is left only where capital is not. -/
theorem Account.lossPaid_solvent {x : Account} (pos : 0 < accountEquityMaintRawWide x) : 0 ≤ x.lossPaid.pnl := by
  unfold accountEquityMaintRawWide at pos
  show 0 ≤ x.pnl + (x.lossPay : Int)
  unfold lossPay
  omega

theorem computeKfPnlDelta_same (absBasis den : Nat) (k f : Int) :
    computeKfPnlDelta absBasis k k f f den = some 0 := by
  have zero : toI256 0 = some 0 := by decide
  have product : U256.checkedMul 0 FUNDING_DEN = some 0 := by decide
  simp [computeKfPnlDelta, computeKfPnlDeltaWide, I256.checkedSub, I256.checkedAdd, I256.fromU256OrOverflow,
    zero, product]

/-- Settling an account that is settled already leaves it as it is, or drops a position that
was not effective. -/
theorem Account.Synced.settledBy (synced : (s.accounts i).Synced s.sides) (heff : effectivePosQ s i = some eff) :
    (s.cores i).settledBy s.sides = s.cores i ∨
      (s.cores i).settledBy s.sides = (s.cores i).flat ∧ eff = 0 := by
  have basis : (s.cores i).positionBasisQ = (s.accounts i).positionBasisQ := rfl
  unfold Account.settledBy
  rw [basis]
  cases side : sideOfI128 (s.accounts i).positionBasisQ with
  | none => exact .inl rfl
  | some d =>
      dsimp only
      have indices := synced d side
      have none : (s.cores i).settlement (s.sides d) = some 0 := by
        show computeKfPnlDelta _ (s.accounts i).adlKSnap ((s.sides d).indices (s.accounts i).adlEpochSnap).1
          (s.accounts i).fSnap ((s.sides d).indices (s.accounts i).adlEpochSnap).2 _ = some 0
        rw [indices]
        exact computeKfPnlDelta_same _ _ _ _
      have same : (s.cores i).withPnl ((s.cores i).pnl + 0) = s.cores i := by
        rw [add_zero]
        rfl
      rw [none, Option.getD_some, same]
      split_ifs with current
      · left
        obtain ⟨epoch, -⟩ := current
        have epoch : (s.accounts i).adlEpochSnap = (s.sides d).adlEpoch := epoch
        rw [SideState.indices, if_pos epoch, Prod.mk.injEq] at indices
        obtain ⟨kSnap, fSnap⟩ := indices
        rw [kSnap, fSnap, ← epoch]
        rfl
      · refine .inr ⟨rfl, ?_⟩
        simp only [effectivePosQ, side] at heff
        split_ifs at heff with stale
        · exact (Option.some.inj heff).symm
        · obtain ⟨epoch, -⟩ := not_or.mp stale
          obtain ⟨n, hn, heff⟩ := Option.bind_eq_some_iff.mp heff
          have zero : n = 0 := by
            obtain ⟨-, rfl⟩ := mulDivFloorU128_eq hn
            exact Nat.eq_zero_of_not_pos fun pos => current ⟨not_not.mp epoch, pos⟩
          subst zero
          rw [if_neg (by decide)] at heff
          cases d <;> exact (Option.some.inj heff).symm

/-- Touching a settled account changes neither its equity nor its effective position. -/
theorem Margined.touched {ctx' : InstructionContext} (h : Margined s i price eff mm im)
    (synced : (s.accounts i).Synced s.sides)
    (pair : AdmissionPair s.params ctx.admitHMinShared ctx.admitHMaxShared)
    (hok : touchAccountLiveLocal i ctx s = .ok ctx' s' l) : Margined s' i price eff mm im ∧
      accountEquityMaintRawWide (s'.accounts i) = accountEquityMaintRawWide (s.accounts i) := by
  have moved := touch_moved hok pair
  have core : s'.cores i = s.touchedAccount i := by
    rw [moved.cores, put_same]
  have settled := synced.settledBy h.effective
  -- the settlement realizes nothing, and the losses are paid
  have worth : accountEquityMaintRawWide ((s.cores i).settledBy s.sides) =
      accountEquityMaintRawWide (s.accounts i) := by
    rcases settled with same | ⟨flat, -⟩
    · rw [same]
      rfl
    · rw [flat]
      rfl
  have solvent : 0 ≤ (s.settledAccount i).pnl := Account.lossPaid_solvent (worth ▸ h.positive)
  have kept : s.touchedAccount i = s.settledAccount i := by
    have none : s.writtenOff i = 0 := by
      unfold RiskEngine.writtenOff
      split_ifs
      · omega
      · rfl
    unfold RiskEngine.touchedAccount
    rw [none, if_neg (Nat.lt_irrefl 0)]
  have equity : accountEquityMaintRawWide (s'.accounts i) = accountEquityMaintRawWide (s.accounts i) := by
    show accountEquityMaintRawWide (s'.cores i) = _
    rw [core, kept]
    exact (Account.lossPaid_equity _).trans worth
  have effective : effectivePosQ s' i = some eff := by
    have position : (s'.cores i).SamePosition (((s.cores i).settledBy s.sides).clearReserve) := by
      rw [core, kept]
      exact ⟨rfl, rfl, rfl, rfl, rfl⟩
    rcases settled with same | ⟨flat, rfl⟩
    · rw [same] at position
      refine Eq.trans ?_ h.effective
      have back : (s.accounts i).SamePosition (s'.accounts i) := by
        obtain ⟨h1, h2, h3, h4, h5⟩ := position
        exact ⟨h1.symm, h2.symm, h3.symm, h4.symm, h5.symm⟩
      refine effectivePosQ_congr back (fun d => ?_) fun d => ?_
      · obtain ⟨n, m, hd⟩ := moved.sides d
        rw [hd]
        rfl
      · obtain ⟨n, m, hd⟩ := moved.sides d
        rw [hd]
        rfl
    · rw [flat] at position
      exact effectivePosQ_flat position.1.symm
  have params : s'.params = s.params := moved.params
  refine ⟨⟨effective, ?_, ?_, h.order, h.fits, ?_, ?_⟩, equity⟩
  · rw [params]
    exact h.maintenance
  · rw [params]
    exact h.initial
  · rw [equity]
    exact h.covered
  · rw [equity]
    exact h.positive

theorem Moved.setting {cores : Nat → Account} {dust : Side → Nat} {loss : Nat} (h : Moved s s' cores dust loss) :
    s'.setting = s.setting := by
  rw [h.frame]
  rfl

/-- A position that its settlement leaves has a share in the open interest. -/
theorem Account.settledBy_open {x : Account} {sides : Side → SideState} {d : Side}
    (side : sideOfI128 (x.settledBy sides).positionBasisQ = some d) :
    0 < (x.settledBy sides).floorShare d (sides d) := by
  unfold settledBy at *
  cases before : sideOfI128 x.positionBasisQ with
  | none =>
      simp only [before] at side
      cases side
  | some e =>
      by_cases current : x.adlEpochSnap = (sides e).adlEpoch ∧
          0 < x.positionBasisQ.natAbs * (sides e).adlMult / x.adlABasis
      · simp only [before, if_pos current] at side ⊢
        obtain rfl : e = d := Option.some.inj (before.symm.trans side)
        unfold floorShare
        rw [if_pos ⟨side, rfl⟩]
        exact current.2
      · simp only [before, if_neg current] at side
        cases side

/-- A position that a touch leaves is effective. -/
theorem touch_open {ctx' : InstructionContext} (hok : touchAccountLiveLocal i ctx s = .ok ctx' s' l)
    (pair : AdmissionPair s.params ctx.admitHMinShared ctx.admitHMaxShared) (positions : Positions s' ph)
    (used : s'.isUsed i = true) (open' : (s'.accounts i).positionBasisQ ≠ 0)
    (heff : effectivePosQ s' i = some eff) : eff ≠ 0 := by
  have moved := touch_moved hok pair
  obtain ⟨d, side⟩ : ∃ d, sideOfI128 (s'.accounts i).positionBasisQ = some d := by
    cases side : sideOfI128 (s'.accounts i).positionBasisQ with
    | none => exact absurd (sideOfI128_eq_none.mp side) open'
    | some d => exact ⟨d, rfl⟩
  have component := effectivePosQ_component heff (positions.position i d used side).bound fun e he =>
    ⟨(positions.side e).mult_le, (positions.position i e used he).basis_pos⟩
  rw [side] at component
  -- the touched account has the position of its settlement
  obtain ⟨basis, aBasis, -, -, epoch⟩ : ((s.cores i).settledBy s.sides).SamePosition (s'.accounts i) := by
    show ((s.cores i).settledBy s.sides).SamePosition (s'.cores i)
    rw [moved.cores, put_same]
    unfold RiskEngine.touchedAccount
    split_ifs
    · exact ⟨rfl, rfl, rfl, rfl, rfl⟩
    · exact ⟨rfl, rfl, rfl, rfl, rfl⟩
  have share : 0 < (s'.accounts i).floorShare d (s'.sides d) := by
    obtain ⟨n, m, hd⟩ := moved.sides d
    have settled := Account.settledBy_open (basis ▸ side)
    unfold Account.floorShare at *
    rw [basis, aBasis, epoch, hd]
    exact settled
  cases d <;> simp only [Side.sign] at component <;> omega

/-! ### A liquidation in the same slot -/

section Liquidation

variable {slot hMin hMax : Nat} {now : UInt64} {rate : Int}

/-- The market has accrued to the slot and the price. -/
structure AccruedAt (s : RiskEngine) (slot price : Nat) : Prop where
  live : s.marketMode = .live
  current : s.currentSlot = slot
  market : s.lastMarketSlot = slot
  price_eq : s.lastOraclePrice = price

theorem AccruedAt.congr (h : AccruedAt s slot price) (same : s'.setting = s.setting) : AccruedAt s' slot price := by
  simp only [RiskEngine.setting, Prod.mk.injEq] at same
  obtain ⟨-, mode, current, market, last⟩ := same
  exact ⟨mode.trans h.live, current.trans h.current, market.trans h.market, last.trans h.price_eq⟩

theorem accrueAndAnchor_at (hok : accrueAndAnchor slot price rate s = .ok () s' l) :
    AccruedAt s' slot price ∧ s'.params = s.params := by
  refine wp_sound (Q := fun _ s' _ => AccruedAt s' slot price ∧ s'.params = s.params) hok ?_
  simp only [accrueAndAnchor, wp_bind, wp_update]
  refine wp_ok fun _ s₁ l₁ accrued => ?_
  obtain ⟨allowed, ⟨slots, last, rfl⟩ | ⟨k, f, -, rfl⟩⟩ := accrueMarketTo_inv accrued
  · have market : s.lastMarketSlot = slot := by
      have := allowed.market_le
      omega
    exact ⟨⟨allowed.live, rfl, market, last⟩, rfl⟩
  · exact ⟨⟨allowed.live, rfl, rfl, rfl⟩, rfl⟩

/-- Accruing again to the same slot and price changes nothing. -/
theorem AccruedAt.again (h : AccruedAt s slot price) (hok : accrueAndAnchor slot price rate s = .ok () s' l) :
    s' = s := by
  have same : s.withCurrentSlot slot = s := by
    rw [← h.current]
    rfl
  refine wp_sound (Q := fun _ s' _ => s' = s) hok ?_
  simp only [accrueAndAnchor, wp_bind, wp_update]
  refine wp_ok fun _ s₁ l₁ accrued => ?_
  obtain ⟨-, ⟨-, -, rfl⟩ | ⟨k, f, moves, -⟩⟩ := accrueMarketTo_inv accrued
  · rw [same, same]
  · exact absurd ⟨by rw [h.market, Nat.sub_self], h.price_eq⟩ moves.moved

/-- No liquidation of account `i` at the price and slot goes through. -/
def Spared (s : RiskEngine) (i slot price : Nat) : Prop :=
  ∀ policy rate hMin hMax result s' l,
    liquidateAtOracle i slot price policy rate hMin hMax s = .ok result s' l → result = false

/-- A healthy account is left alone by the liquidation routine. -/
theorem liquidateAtOracleInternal_healthy {policy : LiquidationPolicy} {r : Bool × InstructionContext}
    (healthy : isAboveMaintenanceMargin s i price = some true)
    (hok : liquidateAtOracleInternal i price policy ctx s = .ok r s' l) : r.1 = false := by
  refine wp_sound (Q := fun r _ _ => r.1 = false) hok ?_
  simp only [liquidateAtOracleInternal, wp_bind, wp_read, wp_ite, wp_pure, wp_lift, wp_rejectIf, wp_expect,
    implies_true, true_and]
  intro _ _ eff heff
  cases sideOfI128 eff with
  | none => simp only [wp_pure]
  | some d =>
      simp only [wp_bind, wp_lift, wp_expect, wp_ite, wp_pure, implies_true, true_and]
      intro ok hok'
      obtain rfl : true = ok := Option.some.inj (healthy.symm.trans hok')
      exact fun unhealthy => absurd rfl unhealthy

/-- An account with more than its maintenance requirement, settled in the slot of the market. -/
theorem Margined.spared (h : Margined s i price eff mm im) (at' : AccruedAt s slot price)
    (synced : (s.accounts i).Synced s.sides) (small : accountEquityMaintRawWide (s.accounts i) ≤ I128_MAX)
    (room : (mm : Int) < accountEquityMaintRawWide (s.accounts i)) :
    isAboveMaintenanceMargin s i price = some true ∧ Spared s i slot price := by
  have healthy {t : RiskEngine} (h : Margined t i price eff mm im)
      (same : accountEquityMaintRawWide (t.accounts i) = accountEquityMaintRawWide (s.accounts i)) :
      isAboveMaintenanceMargin t i price = some true := by
    rw [h.above (by omega), same]
    exact congrArg some (decide_eq_true room)
  refine ⟨healthy h rfl, ?_⟩
  intro policy rate hMin hMax result s' l hok
  refine wp_sound (Q := fun result _ _ => result = false) hok ?_
  simp only [liquidateAtOracle, validateAdmissionPair, wp_bind, wp_read, wp_lift, wp_rejectIf, implies_true,
    true_and, not_not]
  intro pair _ _
  refine wp_ok fun _ s₁ l₁ accrued => ?_
  obtain rfl := at'.again accrued
  refine wp_ok fun ctx s₂ l₂ touched => wp_ok fun r s₃ l₃ liquidated => ?_
  obtain ⟨margined, equity⟩ := h.touched synced pair touched
  have spared := liquidateAtOracleInternal_healthy (healthy margined equity) liquidated
  refine wp_ok fun _ _ _ _ => wp_ok fun _ _ _ _ => wp_ok fun _ _ _ _ => ?_
  exact spared

end Liquidation

/-! ### Withdrawals and trades -/

section Voluntary

variable {now : UInt64} {hMin hMax exec : Nat} {rate : Int}

/-- Account `i` holds its initial requirement; unless its equity equals both of its requirements at
once it is above maintenance, and no liquidation at the price and slot goes through. -/
def KeptSafe (s : RiskEngine) (i slot price : Nat) : Prop :=
  ∃ eff mm im, Margined s i price eff mm im ∧
    (¬ (accountEquityNet (s.accounts i) = im ∧ mm = im) →
      isAboveMaintenanceMargin s i price = some true ∧ Spared s i slot price)

theorem Margined.keptSafe (h : Margined s i price eff mm im) (reached : Reachable s) (used : s.isUsed i = true)
    {slot : Nat} (at' : AccruedAt s slot price) (synced : (s.accounts i).Synced s.sides) :
    KeptSafe s i slot price := by
  have small := reached.profits.equity_le reached.good.books at'.live used
  refine ⟨eff, mm, im, h, fun apart => h.spared at' synced small ?_⟩
  have positive := h.positive
  have net : accountEquityNet (s.accounts i) = accountEquityMaintRawWide (s.accounts i) := by
    unfold accountEquityNet accountEquityMaintRaw projectEquity toI128
    rw [if_pos ⟨by unfold I128_MIN; omega, small⟩]
    exact max_eq_right positive.le
  have order := h.order
  have covered := h.covered
  rw [net] at apart
  omega

/-- An account that holds its margin when the instruction comes to its resets is kept safe. -/
theorem Margined.ended {sc : Scope} {c : Conf} {slot : Nat} (h : Margined s i price eff mm im)
    (reached : Reachable s') (hb : Between sc c ctx l s ph) (used : s.isUsed i = true)
    (synced : (s.accounts i).Synced s.sides) (at' : AccruedAt s slot price)
    (run : Runs (endOfInstructionResets ctx) s () s') : KeptSafe s' i slot price := by
  obtain ⟨⟨eff', mm', im', margined⟩, synced', setting, used'⟩ := h.resets hb used synced run
  refine margined.keptSafe reached ?_ (at'.congr setting) synced'
  rw [used']
  exact used

/-- The parts of a withdrawal. -/
structure WithdrawParts (s s' : RiskEngine) (i amount price slot : Nat) (rate : Int) (hMin hMax : Nat)
    (ctx : InstructionContext) (s₀ s₁ s₂ s₃ : RiskEngine) : Prop where
  pair : AdmissionPair s.params hMin hMax
  accrued : Runs (accrueAndAnchor slot price rate) s () s₀
  touched : Runs (touchAccountLiveLocal i (.newWithAdmission hMin hMax)) s₀ ctx s₁
  finalized : Runs (finalizeTouchedAccountsPostLive ctx) s₁ () s₂
  funded : amount ≤ (s₂.accounts i).capital
  checked : Runs (checkWithdrawMargin i amount price) s₂ () s₂
  paid : Runs (payOut i amount) s₂ () s₃
  reset : Runs (endOfInstructionResets ctx) s₃ () s'

theorem withdraw_parts {slot : Nat} (hok : withdraw i amount price slot rate hMin hMax s = .ok () s' l) :
    ∃ ctx s₀ s₁ s₂ s₃, WithdrawParts s s' i amount price slot rate hMin hMax ctx s₀ s₁ s₂ s₃ := by
  set P : RiskEngine → Prop := fun s' =>
    ∃ ctx s₀ s₁ s₂ s₃, WithdrawParts s s' i amount price slot rate hMin hMax ctx s₀ s₁ s₂ s₃ with hP
  refine wp_sound (Q := fun _ s' _ => P s') hok ?_
  simp only [withdraw, validateAdmissionPair, wp_bind, wp_read, wp_lift, wp_rejectIf, implies_true, true_and,
    not_not, not_lt]
  intro pair _ _ _
  refine wp_ok fun _ s₀ l₀ accrued => wp_ok fun ctx s₁ l₁ touched => wp_ok fun _ s₂ l₂ finalized => ?_
  intro funded _
  refine wp_ok fun _ s₃ l₃ checked => wp_ok fun _ s₄ l₄ paid => wp_ok fun _ s₅ l₅ reset => ?_
  refine wp_ok fun _ s₆ l₆ post => ?_
  obtain ⟨rfl, -⟩ := checkWithdrawMargin_spec checked
  obtain rfl := assertPublicPostconditions_same post
  exact ⟨ctx, s₀, s₁, s₃, s₄, pair, ⟨_, accrued⟩, ⟨_, touched⟩, ⟨_, finalized⟩, funded, ⟨_, checked⟩,
    ⟨_, paid⟩, ⟨_, reset⟩⟩

/-- The part of an instruction that finalizes keeps its course. -/
theorem Between.finalizable {sc : Scope} (h : Between sc ⟨s₀, .idle⟩ ctx l s ph) (reached : Reachable s₀) :
    Finalizable ph s := by
  have vacant : Vacant s :=
    h.run.invariant (I := fun c => Vacant c.engine) (fun _ _ _ vacant step => vacant.step step) reached.vacant
  exact ⟨h.good, h.run.profits reached.profits, vacant, h.live⟩

/-- A withdrawal beside an open position keeps the account safe. -/
theorem Reachable.withdraw_keeps_safe (h : Reachable s)
    (ok : (Instruction.withdraw i amount price now rate hMin hMax).run s = .ok () s' l)
    (open' : (s'.accounts i).positionBasisQ ≠ 0) : KeptSafe s' i now.toNat price := by
  obtain ⟨ctx, s₀, s₁, s₂, s₃, parts⟩ := withdraw_parts ok
  obtain ⟨l₀, accrued⟩ := parts.accrued
  obtain ⟨l₁, touched⟩ := parts.touched
  obtain ⟨l₂, finalized⟩ := parts.finalized
  obtain ⟨l₃, paid⟩ := parts.paid
  obtain ⟨l₄, checked⟩ := parts.checked
  set sc := (Instruction.withdraw i amount price now rate hMin hMax).scope with hsc
  -- the course up to the margin check
  have accrue := wp_at (h.good.accrue sc parts.pair id (slot_le now)) accrued
  obtain ⟨-, between₀⟩ := accrue
  have pair₀ := between₀.pair
  obtain ⟨ph, between₁, -, member, -, touchedBy⟩ := wp_at (between₀.touch (i := i) rfl) touched
  obtain ⟨standing, -⟩ := (between₁.finalizable h).standing finalized
  have between₂ := wp_at between₁.finalize finalized
  have used := (between₁.members i member).1
  have between₃ := between₂.charged (between₂.members i member).1 rfl ⟨rfl, trivial⟩ (payOut_spec paid parts.funded)
  obtain ⟨setting₃, sides₃, used₃, position₃, equity₃⟩ := payOut_standing parts.funded paid
  have timely : Timely s₂ := between₂.good.timely
  -- the position is effective, and its margin was checked
  have books := between₂.good.books
  have capital := books.capital_le (between₂.members i member).1
  have positions := between₁.good.positions between₁.live
  have basis := ((standing.position i).trans (position₃ i)).1
  rw [between₃.resets_accounts parts.reset, basis] at open'
  have within : (amount : Int) ≤ I128_MAX := by
    have := parts.funded
    have := books.backed
    have := books.vault_le
    simp only [MAX_VAULT_TVL, I128_MAX] at *
    omega
  obtain ⟨eff, heff, covers⟩ := checkWithdrawMargin_covers timely.params within checked
  have hne : eff ≠ 0 := touch_open touched pair₀ positions used open' ((standing.effective i).symm.trans heff)
  obtain ⟨im, him, covered⟩ := covers hne
  have at₃ : AccruedAt s₃ now.toNat price :=
    (((accrueAndAnchor_at accrued).1.congr (touch_moved touched pair₀).setting).congr standing.setting).congr setting₃
  have heff₃ : effectivePosQ s₃ i = some eff := by
    rw [effectivePosQ_congr (position₃ i) (fun d => by rw [sides₃]) fun d => by rw [sides₃], heff]
  have params₃ := RiskEngine.setting_params setting₃
  obtain ⟨mm, margined⟩ := Margined.of_covered (params₃ ▸ timely.params) hne heff₃ (params₃ ▸ him)
    (equity₃ ▸ covered)
  have synced₃ : (s₃.accounts i).Synced s₃.sides := by
    rw [sides₃, standing.sides]
    exact (touchedBy.synced.position (standing.position i)).position (position₃ i)
  have reached : Reachable s' := h.performed (.committed ok)
  exact margined.ended reached between₃ (between₃.members i member).1 synced₃ at₃ parts.reset

/-- Opening a trade brings the market to its slot and price. -/
theorem Good.openTrade_at {ctx : InstructionContext} (h : Good ⟨s, .idle⟩) (pair : AdmissionPair s.params hMin hMax)
    (hok : Percolator.openTrade a b price now.toNat rate hMin hMax s = .ok ctx s' l) : AccruedAt s' now.toNat price := by
  set sc : Scope := ⟨fun _ => True, fun _ => True, True, True, True, True⟩ with hsc
  refine wp_sound (Q := fun _ s' _ => AccruedAt s' now.toNat price) hok ?_
  simp only [Percolator.openTrade, wp_bind, wp_lift]
  refine wp_ok fun _ s₀ l₀ accrued => wp_ok fun ctx₁ s₁ l₁ first => wp_ok fun ctx₂ s₂ l₂ second => ?_
  obtain ⟨-, between₀⟩ := wp_at (h.accrue sc pair (fun _ => trivial) (slot_le now)) accrued
  obtain ⟨ph, between₁, -⟩ := wp_at (between₀.touch (i := a) trivial) first
  exact ((accrueAndAnchor_at accrued).1.congr (touch_moved first between₀.pair).setting).congr
    (touch_moved second between₁.pair).setting

/-- A leg that adds risk passes its check with its margin. -/
theorem Margined.of_check {slab fee : Nat} {oldEff newEff bufferPre c : Int} (valid : s.params.Valid slab)
    (low : I128_MIN < (s.accounts i).pnl) (holds : HoldsPosition s i newEff) (adds : RiskIncreasing oldEff newEff)
    (check : Runs (enforceOneSideMargin i price oldEff newEff bufferPre fee c) s () s) :
    ∃ mm im, Margined s i price newEff mm im := by
  obtain ⟨l, hok⟩ := check
  obtain ⟨eff, im, heff, him, covered⟩ := enforceOneSideMargin_covers low adds hok
  obtain rfl : newEff = eff := Option.some.inj (holds.effective.symm.trans heff)
  have fits := (valid.requirements adds.open him).2.1
  rw [min_eq_left fits] at covered
  obtain ⟨mm, margined⟩ := Margined.of_covered valid adds.open heff him covered
  exact ⟨mm, im, margined⟩

/-- A trade keeps every leg safe whose risk it increased or whose side it flipped. -/
theorem Reachable.trade_keeps_safe (h : Reachable s)
    (ok : (Instruction.executeTrade a b price now q exec rate hMin hMax).run s = .ok () s' l) :
    ∃ ctx s₁ t s₂ s₃, TradeParts s s' a b price now.toNat q exec rate hMin hMax ctx s₁ t s₂ s₃ ∧
      (RiskIncreasing t.plan.oldEffA t.plan.newEffA → KeptSafe s' a now.toNat price) ∧
      (RiskIncreasing t.plan.oldEffB t.plan.newEffB → KeptSafe s' b now.toNat price) := by
  obtain ⟨ctx, s₁, t, s₂, s₃, parts⟩ := executeTrade_parts ok
  obtain ⟨setting, -, -, l', ph, booked⟩ := parts.booked_at h
  obtain ⟨l₁, opened⟩ := parts.opened
  obtain ⟨l₂, finalized⟩ := parts.finalized
  obtain ⟨marginA, marginB, flatA, flatB⟩ := checkLegs_margins parts.checked
  have books : Books s₂ := booked.good.books
  have timely : Timely s₂ := booked.good.timely
  have between₂ := booked.checked flatA flatB
  obtain ⟨standing, -⟩ := (between₂.finalizable h).standing finalized
  have between₃ := wp_at between₂.finalize finalized
  have at₃ : AccruedAt s₃ now.toNat price :=
    ((h.good.openTrade_at parts.pair opened).congr setting).congr standing.setting
  have reached : Reachable s' := h.performed (.committed ok)
  have leg {i : Nat} {eff mm im} (used : s₂.isUsed i = true) (synced : (s₂.accounts i).Synced s₂.sides)
      (margined : Margined s₂ i price eff mm im) : KeptSafe s' i now.toNat price := by
    have used₃ : s₃.isUsed i = true := (congrFun standing.used i).trans used
    refine (margined.standing standing).ended reached between₃ used₃ ?_ at₃ parts.reset
    rw [standing.sides]
    exact synced.position (standing.position i)
  refine ⟨ctx, s₁, t, s₂, s₃, parts, fun adds => ?_, fun adds => ?_⟩
  · obtain ⟨mm, im, margined⟩ := Margined.of_check timely.params (books.pnl a booked.usedA) booked.holdsA adds marginA
    exact leg booked.usedA booked.holdsA.synced margined
  · obtain ⟨mm, im, margined⟩ := Margined.of_check timely.params (books.pnl b booked.usedB) booked.holdsB adds marginB
    exact leg booked.usedB booked.holdsB.synced margined

/-- No voluntary action leaves an account that can be liquidated, unless its equity equals both
of its requirements at once: not a withdrawal beside an open position, and not a trade for a leg
whose risk it increased or whose side it flipped. -/
theorem Reachable.voluntary_keeps_safe (h : Reachable s) :
    (∀ {i amount price : Nat} {now : UInt64} {rate : Int} {hMin hMax : Nat} {s' : RiskEngine} {l : List Event},
      (Instruction.withdraw i amount price now rate hMin hMax).run s = .ok () s' l →
        (s'.accounts i).positionBasisQ ≠ 0 → KeptSafe s' i now.toNat price) ∧
    (∀ {a b price : Nat} {now : UInt64} {q : Int} {exec : Nat} {rate : Int} {hMin hMax : Nat} {s' : RiskEngine}
      {l : List Event}, (Instruction.executeTrade a b price now q exec rate hMin hMax).run s = .ok () s' l →
        ∃ ctx s₁ t s₂ s₃, TradeParts s s' a b price now.toNat q exec rate hMin hMax ctx s₁ t s₂ s₃ ∧
          (RiskIncreasing t.plan.oldEffA t.plan.newEffA → KeptSafe s' a now.toNat price) ∧
          (RiskIncreasing t.plan.oldEffB t.plan.newEffB → KeptSafe s' b now.toNat price)) := by
  constructor
  · intro i amount price now rate hMin hMax s' l ok open'
    exact h.withdraw_keeps_safe ok open'
  · intro a b price now q exec rate hMin hMax s' l ok
    exact h.trade_keeps_safe ok

theorem tradedMarket_voluntary_keeps_safe :
    KeptSafe ((Instruction.withdraw 1 90000 1000 101 0 10 100).run tradedMarket).final 1 101 1000 ∧
      ∃ ctx s₁ t s₂ s₃, TradeParts tradedMarket ((Instruction.executeTrade 1 2 1000 101 20000000 1000 0 10 100).run
        tradedMarket).final 1 2 1000 101 20000000 1000 0 10 100 ctx s₁ t s₂ s₃ := by
  obtain ⟨withdrawals, trades⟩ := tradedMarket_reachable.voluntary_keeps_safe
  constructor
  · obtain ⟨_, l, ok⟩ := Outcome.eq_ok
      (o := (Instruction.withdraw 1 90000 1000 101 0 10 100).run tradedMarket) (by decide +kernel)
    have safe := withdrawals ok (by decide +kernel)
    exact safe
  · obtain ⟨_, l, ok⟩ := Outcome.eq_ok
      (o := (Instruction.executeTrade 1 2 1000 101 20000000 1000 0 10 100).run tradedMarket) (by decide +kernel)
    obtain ⟨ctx, s₁, t, s₂, s₃, parts, -⟩ := trades ok
    exact ⟨ctx, s₁, t, s₂, s₃, parts⟩

/-- The market of a trade with the two margin ratios equal. -/
def tightMarket : RiskEngine :=
  performAll (freshEngine 4 { sampleParams with maintenanceMarginBps := 1000 } 100 1000)
    [.deposit 1 100000 101, .deposit 2 100000 101, .executeTrade 1 2 1000 101 50000000 1000 0 10 100]

theorem tightMarket_reachable : Reachable tightMarket := by
  have initial : Initial (freshEngine 4 { sampleParams with maintenanceMarginBps := 1000 } 100 1000) :=
    ⟨sampleMarket, { sampleParams with maintenanceMarginBps := 1000 }, 100, 1000, [], rfl⟩
  have fresh : Reachable (freshEngine 4 { sampleParams with maintenanceMarginBps := 1000 } 100 1000) :=
    ⟨_, _, initial, .refl _⟩
  exact fresh.performAll _

/-- A withdrawal down to the very requirement leaves an account that a liquidation in the same
slot and at the same price closes. -/
theorem tightMarket_withdraw_liquidated : Reachable tightMarket ∧ ∃ s' l s'' l',
    (Instruction.withdraw 1 94950 1000 101 0 10 100).run tightMarket = .ok () s' l ∧
      (s'.accounts 1).positionBasisQ ≠ 0 ∧ isAboveMaintenanceMargin s' 1 1000 = some false ∧
      liquidateAtOracle 1 101 1000 .fullClose 0 10 100 s' = .ok true s'' l' := by
  obtain ⟨_, l, ok⟩ := Outcome.eq_ok
    (o := (Instruction.withdraw 1 94950 1000 101 0 10 100).run tightMarket) (by decide +kernel)
  obtain ⟨l', liquidated⟩ := Outcome.eq_ok_of_value
    (o := liquidateAtOracle 1 101 1000 .fullClose 0 10 100
      ((Instruction.withdraw 1 94950 1000 101 0 10 100).run tightMarket).final) (a := true) (by decide +kernel)
  exact ⟨tightMarket_reachable, _, l, _, l', ok, by decide +kernel, by decide +kernel, liquidated⟩

end Voluntary

end Percolator
