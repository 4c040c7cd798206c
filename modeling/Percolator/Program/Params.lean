import Percolator.Engine.Slots
import Percolator.Program.Instruction
import Percolator.Wide.U256

/-!
The parameters of a market: the wrapper's validation of what a creator sends,
against the assertions of the engine's `init_in_place`.

The wrapper multiplies the two funding products in checked `u128`s, the engine
in `U256`s.
-/

namespace Percolator.Program

variable {p : RiskParamsArgs}

def MAX_MARGIN_BPS : Nat := 10000
def MAX_TRADING_FEE_BPS : Nat := 10000
def MAX_LIQUIDATION_FEE_BPS : Nat := 10000

/-- `into_engine_params`. -/
def RiskParamsArgs.intoEngineParams (p : RiskParamsArgs) : RiskParams where
  maintenanceMarginBps := p.maintenanceMarginBps.toNat
  initialMarginBps := p.initialMarginBps.toNat
  tradingFeeBps := p.tradingFeeBps.toNat
  maxAccounts := p.maxAccounts.toNat
  maxCrankStalenessSlots := p.maxCrankStalenessSlots.toNat
  liquidationFeeBps := p.liquidationFeeBps.toNat
  liquidationFeeCap := p.liquidationFeeCap.toNat
  minLiquidationAbs := p.minLiquidationAbs.toNat
  minInitialDeposit := p.minInitialDeposit.toNat
  minNonzeroMmReq := p.minNonzeroMmReq.toNat
  minNonzeroImReq := p.minNonzeroImReq.toNat
  insuranceFloor := p.insuranceFloor.toNat
  hMin := p.hMin.toNat
  hMax := p.hMax.toNat
  resolvePriceDeviationBps := p.resolvePriceDeviationBps.toNat
  maxAccrualDtSlots := p.maxAccrualDtSlots.toNat
  maxAbsFundingE9PerSlot := p.maxAbsFundingE9PerSlot.toNat
  minFundingLifetimeSlots := p.minFundingLifetimeSlots.toNat
  maxActivePositionsPerSide := p.maxActivePositionsPerSide.toNat

/-- `return Err(InvalidRiskParams)` if `c` holds. -/
def refuse (c : Prop) [Decidable c] : Except PercolatorError Unit :=
  if c then .error .invalidRiskParams else .ok ()

/-- `ADL_ONE * MAX_ORACLE_PRICE * rate * slots` in checked `u128`s. -/
def fundingProduct (rate slots : U64) : Option Nat :=
  (((checkedMulU128 ADL_ONE MAX_ORACLE_PRICE).bind fun v => checkedMulU128 v rate.toNat).bind
    fun v => checkedMulU128 v slots.toNat)

/-- The match on a funding product. -/
def refuseUnlessI128 (product : Option Nat) : Except PercolatorError Unit :=
  match product with
  | some v => if (v : Int) ≤ I128_MAX then .ok () else .error .invalidRiskParams
  | none => .error .invalidRiskParams

/-- `validate_risk_params` for a slab of `slab` accounts (`MAX_ACCOUNTS`). -/
def validateRiskParams (slab : Nat) (p : RiskParamsArgs) (initOraclePrice : U64) :
    Except PercolatorError Unit := do
  refuse (initOraclePrice.toNat = 0 ∨ initOraclePrice.toNat > MAX_ORACLE_PRICE)
  refuse (p.maxAccounts.toNat = 0 ∨ p.maxAccounts.toNat > slab)
  refuse (p.maxActivePositionsPerSide.toNat = 0 ∨
    p.maxActivePositionsPerSide.toNat > p.maxAccounts.toNat)
  refuse (p.initialMarginBps.toNat = 0)
  refuse (p.maintenanceMarginBps.toNat > p.initialMarginBps.toNat)
  refuse (p.initialMarginBps.toNat > MAX_MARGIN_BPS ∨
    p.tradingFeeBps.toNat > MAX_TRADING_FEE_BPS ∨
    p.liquidationFeeBps.toNat > MAX_LIQUIDATION_FEE_BPS)
  refuse (p.minNonzeroMmReq.toNat = 0 ∨ p.minNonzeroMmReq.toNat ≥ p.minNonzeroImReq.toNat ∨
    p.minNonzeroImReq.toNat > p.minInitialDeposit.toNat)
  refuse (p.minInitialDeposit.toNat = 0 ∨ p.minInitialDeposit.toNat > MAX_VAULT_TVL)
  refuse (p.minLiquidationAbs.toNat > p.liquidationFeeCap.toNat ∨
    p.liquidationFeeCap.toNat > MAX_PROTOCOL_FEE_ABS)
  refuse (p.insuranceFloor.toNat > MAX_VAULT_TVL)
  refuse (p.hMin.toNat > p.hMax.toNat ∨ p.hMax.toNat = 0)
  refuse (p.resolvePriceDeviationBps.toNat > MAX_RESOLVE_PRICE_DEVIATION_BPS)
  refuse (p.maxAccrualDtSlots.toNat = 0)
  refuse (p.maxAbsFundingE9PerSlot.toNat > MAX_ABS_FUNDING_E9_PER_SLOT)
  refuse (p.minFundingLifetimeSlots.toNat < p.maxAccrualDtSlots.toNat)
  refuseUnlessI128 (fundingProduct p.maxAbsFundingE9PerSlot p.maxAccrualDtSlots)
  refuseUnlessI128 (fundingProduct p.maxAbsFundingE9PerSlot p.minFundingLifetimeSlots)

/-! ### The funding products -/

/-- The two products of `validate_params`, over the limbs of `U256`. -/
def productFits (rate slots : U64) : Except Wide.Halt Bool := do
  let adl := Wide.U256.fromU128 (BitVec.ofNat 128 ADL_ONE)
  let px := Wide.U256.fromU128 (BitVec.ofNat 128 MAX_ORACLE_PRICE)
  let rate := Wide.U256.fromU128 (rate.setWidth 128)
  let slots := Wide.U256.fromU128 (slots.setWidth 128)
  let i128Max := Wide.U256.fromU128 (BitVec.ofNat 128 (2 ^ 127 - 1))
  let some p1 ← adl.checkedMul px | return false
  let some p2 ← p1.checkedMul rate | return false
  let some p3 ← p2.checkedMul slots | return false
  return !i128Max.lt p3

/-- The exact inequality of a funding product. -/
def Funded (rate slots : U64) : Prop :=
  (ADL_ONE * MAX_ORACLE_PRICE * rate.toNat * slots.toNat : Int) ≤ I128_MAX

instance (rate slots : U64) : Decidable (Funded rate slots) := by unfold Funded; infer_instance

theorem funded_iff {rate slots : U64} :
    Funded rate slots ↔ 10 ^ 27 * rate.toNat * slots.toNat ≤ 2 ^ 127 - 1 := by
  have cast : (ADL_ONE * MAX_ORACLE_PRICE * rate.toNat * slots.toNat : Int) =
      ((10 ^ 27 * rate.toNat * slots.toNat : Nat) : Int) := by
    push_cast
    rfl
  rw [Funded, cast, I128_MAX]
  omega

private theorem checkedMul_fits {x y : Wide.U256} (fits : x.value * y.value ≤ U256_MAX) :
    ∃ z, x.checkedMul y = .ok (some z) ∧ z.value = x.value * y.value := by
  obtain ⟨r, run, product⟩ := Wide.U256.checkedMul_spec x y
  rw [U256.checkedMul, if_pos fits] at product
  cases r with
  | none => cases product
  | some z => exact ⟨z, run, Option.some.inj product⟩

/-- No product of the 64-bit fields leaves 256 bits, so the engine decides the
inequality exactly. -/
theorem productFits_eq (rate slots : U64) :
    productFits rate slots = .ok (decide (Funded rate slots)) := by
  have hrate := rate.isLt
  have hslots := slots.isLt
  have wideRate : (Wide.U256.fromU128 (rate.setWidth 128)).value = rate.toNat := by
    rw [Wide.U256.value_fromU128, BitVec.toNat_setWidth]
    omega
  have wideSlots : (Wide.U256.fromU128 (slots.setWidth 128)).value = slots.toNat := by
    rw [Wide.U256.value_fromU128, BitVec.toNat_setWidth]
    omega
  have base : (Wide.U256.fromU128 (BitVec.ofNat 128 ADL_ONE)).value *
      (Wide.U256.fromU128 (BitVec.ofNat 128 MAX_ORACLE_PRICE)).value = 10 ^ 27 := by
    rw [Wide.U256.value_fromU128, Wide.U256.value_fromU128]
    rfl
  have bound : (Wide.U256.fromU128 (BitVec.ofNat 128 (2 ^ 127 - 1))).value = 2 ^ 127 - 1 := by
    rw [Wide.U256.value_fromU128]
    rfl
  have two : 10 ^ 27 * rate.toNat ≤ 10 ^ 27 * 2 ^ 64 := Nat.mul_le_mul_left _ hrate.le
  have three : 10 ^ 27 * rate.toNat * slots.toNat ≤ 10 ^ 27 * 2 ^ 64 * 2 ^ 64 :=
    Nat.mul_le_mul two hslots.le
  obtain ⟨p1, run₁, value₁⟩ := checkedMul_fits (base.le.trans (by decide))
  rw [base] at value₁
  obtain ⟨p2, run₂, value₂⟩ := checkedMul_fits (x := p1)
    (y := Wide.U256.fromU128 (rate.setWidth 128)) (by
      rw [value₁, wideRate]
      exact two.trans (by decide))
  rw [value₁, wideRate] at value₂
  obtain ⟨p3, run₃, value₃⟩ := checkedMul_fits (x := p2)
    (y := Wide.U256.fromU128 (slots.setWidth 128)) (by
      rw [value₂, wideSlots]
      exact three.trans (by decide))
  rw [value₂, wideSlots] at value₃
  have decides : (!(Wide.U256.fromU128 (BitVec.ofNat 128 (2 ^ 127 - 1))).lt p3) =
      decide (Funded rate slots) := by
    rw [Bool.eq_iff_iff, Bool.not_eq_true', ← Bool.not_eq_true, Wide.U256.lt_iff, bound, value₃,
      decide_eq_true_eq, funded_iff]
    omega
  show (Wide.U256.checkedMul _ _ >>= _) = _
  rw [run₁]
  show (p1.checkedMul _ >>= _) = _
  rw [run₂]
  show (p2.checkedMul _ >>= _) = _
  rw [run₃]
  exact congrArg Except.ok decides

theorem refuseUnlessI128_some {v : Nat} :
    refuseUnlessI128 (some v) = .ok () ↔ v ≤ 2 ^ 127 - 1 := by
  have cast : (v : Int) ≤ I128_MAX ↔ v ≤ 2 ^ 127 - 1 := by
    rw [I128_MAX]
    omega
  rw [refuseUnlessI128, ← cast]
  by_cases fits : (v : Int) ≤ I128_MAX
  · simp [fits]
  · simp [fits]

/-- A product that leaves 128 bits is above `i128::MAX` all the more. -/
theorem refuseUnlessI128_iff {rate slots : U64} (pos : slots.toNat ≠ 0) :
    refuseUnlessI128 (fundingProduct rate slots) = .ok () ↔ Funded rate slots := by
  rw [funded_iff]
  have base : checkedMulU128 ADL_ONE MAX_ORACLE_PRICE = some (10 ^ 27) := by decide
  unfold fundingProduct checkedMulU128 at *
  rw [base, Option.bind_some]
  have grows : 10 ^ 27 * rate.toNat ≤ 10 ^ 27 * rate.toNat * slots.toNat :=
    Nat.le_mul_of_pos_right _ (Nat.pos_of_ne_zero pos)
  by_cases two : 10 ^ 27 * rate.toNat ≤ U128_MAX
  · rw [if_pos two, Option.bind_some]
    by_cases three : 10 ^ 27 * rate.toNat * slots.toNat ≤ U128_MAX
    · rw [if_pos three]
      exact refuseUnlessI128_some
    · rw [if_neg three]
      simp only [refuseUnlessI128, reduceCtorEq, false_iff, U128_MAX] at three ⊢
      omega
  · rw [if_neg two]
    simp only [refuseUnlessI128, Option.bind_none, reduceCtorEq, false_iff, U128_MAX] at two ⊢
    omega

/-! ### The validation -/

theorem refuse_bind {c : Prop} [Decidable c] {m : Except PercolatorError Unit} :
    (refuse c >>= fun _ => m) = .ok () ↔ ¬ c ∧ m = .ok () := by
  unfold refuse
  split
  · rename_i holds
    constructor
    · intro h
      cases h
    · intro h
      exact absurd holds h.1
  · rename_i fails
    exact ⟨fun h => ⟨fails, h⟩, fun h => h.2⟩

theorem refuseUnlessI128_bind {product : Option Nat} {m : Except PercolatorError Unit} :
    (refuseUnlessI128 product >>= fun _ => m) = .ok () ↔
      refuseUnlessI128 product = .ok () ∧ m = .ok () := by
  cases h : refuseUnlessI128 product with
  | error e =>
      constructor
      · intro h
        cases h
      · rintro ⟨h, -⟩
        cases h
  | ok u => exact ⟨fun h => ⟨rfl, h⟩, fun h => h.2⟩

/-- What the wrapper accepts: valid parameters, a price in range and a margin. -/
theorem validateRiskParams_iff {slab : Nat} {price : U64} :
    validateRiskParams slab p price = .ok () ↔
      p.initialMarginBps ≠ 0 ∧ p.intoEngineParams.Valid slab ∧
        price.toNat ≠ 0 ∧ price.toNat ≤ MAX_ORACLE_PRICE := by
  have margin : p.initialMarginBps ≠ 0 ↔ p.initialMarginBps.toNat ≠ 0 := by
    rw [not_iff_not, ← BitVec.toNat_inj]
    rfl
  rw [margin]
  unfold validateRiskParams
  simp only [refuse_bind, refuseUnlessI128_bind]
  constructor
  · rintro ⟨price, capacity, active, margin, order, caps, floors, deposit, fees, insurance, horizon,
      deviation, window, rate, lifetime, envelope, total⟩
    rw [refuseUnlessI128_iff window] at envelope
    rw [refuseUnlessI128_iff (by omega)] at total
    simp only [MAX_MARGIN_BPS, MAX_TRADING_FEE_BPS, MAX_LIQUIDATION_FEE_BPS] at caps
    refine ⟨margin, ?_, by omega, by omega⟩
    constructor
    case envelope => exact envelope
    case lifetime => exact total
    all_goals
      simp only [RiskParamsArgs.intoEngineParams]
      omega
  · rintro ⟨margin, valid, price₁, price₂⟩
    have window : p.maxAccrualDtSlots.toNat ≠ 0 := valid.accrualDt_pos.ne'
    have lifetime : p.minFundingLifetimeSlots.toNat ≠ 0 := (valid.accrualDt_pos.trans_le valid.lifetime_ge).ne'
    rw [refuseUnlessI128_iff window, refuseUnlessI128_iff lifetime]
    obtain ⟨⟩ := valid
    simp only [RiskParamsArgs.intoEngineParams] at *
    simp only [MAX_MARGIN_BPS, MAX_TRADING_FEE_BPS, MAX_LIQUIDATION_FEE_BPS]
    refine ⟨by omega, by omega, by omega, by omega, by omega, by omega, by omega, by omega,
      by omega, by omega, by omega, by omega, by omega, by omega, by omega, ?_, ?_⟩
    · assumption
    · assumption

/-- `init_in_place` panics unless the parameters are valid and the price is in range. -/
theorem initInPlace_panics_iff {q : RiskParams} {initSlot price : Nat} {s : RiskEngine} :
    (∃ s', initInPlace q initSlot price s = .fault .panic s') ↔
      ¬ (q.Valid s.maxAccounts ∧ price ≠ 0 ∧ price ≤ MAX_ORACLE_PRICE) := by
  rw [← RiskParams.check_iff]
  constructor
  · rintro ⟨s', panics⟩ ⟨checked, low, high⟩
    refine Effect.wp_sound_fault (Q := fun _ _ _ => True) (E := fun _ _ => False) (l := []) panics ?_
    simp only [initInPlace, validateParams, Effect.wp_bind, Effect.wp_read, Effect.wp_failIf,
      Effect.wp_update]
    refine ⟨fun unchecked => ?_, fun _ => ⟨fun out => ?_, fun _ => trivial⟩⟩
    · exact absurd (checked.symm.trans unchecked) (by decide)
    · omega
  · intro refused
    obtain ⟨e, s', faults, rfl⟩ := Effect.wp_faults (m := initInPlace q initSlot price) (s := s)
        (E := fun e _ => e = .panic) (by
      simp only [initInPlace, validateParams, Effect.wp_bind, Effect.wp_read, Effect.wp_failIf,
        Effect.wp_update, implies_true, true_and]
      intro checked inRange
      rw [Bool.not_eq_false] at checked
      exact refused ⟨checked, by omega, by omega⟩)
    exact ⟨s', faults⟩

/-- The wrapper refuses what the engine would panic on, and zero initial margin, and nothing
else; the engine's 256-bit products decide the inequalities of its assertions. -/
theorem validateRiskParams_exact (p : RiskParamsArgs) (price : U64) (initSlot : Nat)
    (s : RiskEngine) :
    (validateRiskParams s.maxAccounts p price = .ok () ↔
      p.initialMarginBps ≠ 0 ∧
        ¬ ∃ s', initInPlace p.intoEngineParams initSlot price.toNat s = .fault .panic s') ∧
    productFits p.maxAbsFundingE9PerSlot p.maxAccrualDtSlots =
      .ok (decide (Funded p.maxAbsFundingE9PerSlot p.maxAccrualDtSlots)) ∧
    productFits p.maxAbsFundingE9PerSlot p.minFundingLifetimeSlots =
      .ok (decide (Funded p.maxAbsFundingE9PerSlot p.minFundingLifetimeSlots)) := by
  refine ⟨?_, productFits_eq _ _, productFits_eq _ _⟩
  rw [initInPlace_panics_iff, not_not, validateRiskParams_iff]

end Percolator.Program
