import Percolator.Base.Binary
import Percolator.Wide.U256

/-!
`I256`: two's complement on four little-endian `u64` limbs. As for `U256`, each
operation of the source is followed by what it does to the value.
-/

namespace Percolator
namespace Wide

/-- `I256`. -/
structure I256 where
  limb0 : U64
  limb1 : U64
  limb2 : U64
  limb3 : U64
deriving DecidableEq, Repr

namespace I256

/-- `from_lo_hi`. -/
def fromLoHi (lo hi : U128) : I256 where
  limb0 := lo.setWidth 64
  limb1 := (lo >>> 64).setWidth 64
  limb2 := hi.setWidth 64
  limb3 := (hi >>> 64).setWidth 64

def ZERO : I256 := ⟨0, 0, 0, 0⟩
def ONE : I256 := ⟨1, 0, 0, 0⟩
def MIN : I256 := ⟨0, 0, 0, 1 <<< 63⟩

/-- `lo_u128`. -/
def loU128 (x : I256) : U128 := x.limb0.setWidth 128 ||| x.limb1.setWidth 128 <<< 64

/-- `hi_u128`. -/
def hiU128 (x : I256) : U128 := x.limb2.setWidth 128 ||| x.limb3.setWidth 128 <<< 64

/-- `from_i128`. -/
def fromI128 (v : U128) : I256 := fromLoHi v (if v.toInt < 0 then BitVec.allOnes 128 else 0)

/-- `from_u128`. -/
def fromU128 (v : U128) : I256 := fromLoHi v 0

/-- `try_into_i128`: the high word must be the sign extension of the low one. -/
def tryIntoI128 (x : I256) : Option U128 :=
  let loSignExt : U128 := if x.loU128.toInt < 0 then BitVec.allOnes 128 else 0
  if x.hiU128 = loSignExt then some x.loU128 else none

/-- `is_zero`. -/
def isZero (x : I256) : Bool :=
  decide (x.limb0 = 0 ∧ x.limb1 = 0 ∧ x.limb2 = 0 ∧ x.limb3 = 0)

/-- `is_negative`. -/
def isNegative (x : I256) : Bool := decide (x.limb3 >>> 63 ≠ 0)

/-- The words of `-x`: every bit inverted, and one added. -/
def negated (x : I256) : U128 × U128 :=
  let (negLo, carry) := overflowingAdd (~~~ x.loU128) 1
  (negLo, ~~~ x.hiU128 + ofFlag carry)

/-- `abs_u256`, which asserts that `self` is not `MIN`. -/
def absU256 (x : I256) : Except Halt U256 :=
  if x.isNegative then
    if x = MIN then .error .panic else .ok (U256.new x.negated.1 x.negated.2)
  else .ok (U256.new x.loU128 x.hiU128)

/-- The words of a sum, with the carry of the low ones. -/
def sumWords (x y : I256) : I256 :=
  let (lo, carry) := overflowingAdd x.loU128 y.loU128
  let (hi, _) := overflowingAdd x.hiU128 y.hiU128
  let (hi, _) := overflowingAdd hi (ofFlag carry)
  fromLoHi lo hi

/-- The words of a difference, with the borrow of the low ones. -/
def differenceWords (x y : I256) : I256 :=
  let (lo, borrow) := overflowingSub x.loU128 y.loU128
  let (hi, _) := overflowingSub x.hiU128 y.hiU128
  let (hi, _) := overflowingSub hi (ofFlag borrow)
  fromLoHi lo hi

/-- `checked_add`. -/
def checkedAdd (x y : I256) : Option I256 :=
  let result := sumWords x y
  if x.isNegative = y.isNegative ∧ result.isNegative ≠ x.isNegative then none else some result

/-- `checked_neg`. -/
def checkedNeg (x : I256) : Option I256 :=
  if x = MIN then none else some (fromLoHi x.negated.1 x.negated.2)

/-- `checked_sub`: the sum with the negation, and word by word where there is none. -/
def checkedSub (x y : I256) : Option I256 :=
  match y.checkedNeg with
  | some n => x.checkedAdd n
  | none =>
      let result := differenceWords x y
      if x.isNegative ≠ true ∧ result.isNegative ≠ x.isNegative then none else some result

/-- `from_u256_or_overflow`. -/
def fromU256OrOverflow (v : U256) : Option I256 :=
  if v.hi >>> 127 ≠ 0 then none else some (fromLoHi v.lo v.hi)

/-- `min_mag` of `checked_mul_i256`: `2^127` on the low word, not `2^255`. -/
def minMag : U256 := ((U256.fromU128 0).checkedAdd (U256.fromU128 (1 <<< 127))).getD U256.MAX

/-- `checked_mul_i256`: the product of the magnitudes with the sign put back. -/
def checkedMulI256 (x y : I256) : Except Halt (Option I256) := do
  if x.isZero ∨ y.isZero then return some ZERO
  if x = MIN then return if y = ONE then some MIN else none
  if y = MIN then return if x = ONE then some MIN else none
  let absA ← x.absU256
  let absB ← y.absU256
  let some product ← absA.checkedMul absB | return none
  if x.isNegative ≠ y.isNegative then
    if product = minMag then return some MIN
    if U256.lt minMag product then return none
    let some pos := fromU256OrOverflow product | return none
    return pos.checkedNeg
  else return fromU256OrOverflow product

/-! ### Values -/

/-- The four limbs read as an unsigned number. -/
def raw (x : I256) : Nat := x.loU128.toNat + 2 ^ 128 * x.hiU128.toNat

/-- The number that an `I256` stands for. -/
def value (x : I256) : Int := if x.isNegative then (x.raw : Int) - 2 ^ 256 else x.raw

@[simp] theorem loU128_fromLoHi (lo hi : U128) : (fromLoHi lo hi).loU128 = lo := U256.lo_new lo hi

@[simp] theorem hiU128_fromLoHi (lo hi : U128) : (fromLoHi lo hi).hiU128 = hi := U256.hi_new lo hi

theorem toNat_loU128 (x : I256) : x.loU128.toNat = x.limb0.toNat + 2 ^ 64 * x.limb1.toNat :=
  U256.toNat_pair _ _

theorem toNat_hiU128 (x : I256) : x.hiU128.toNat = x.limb2.toNat + 2 ^ 64 * x.limb3.toNat :=
  U256.toNat_pair _ _

@[simp] theorem raw_fromLoHi (lo hi : U128) :
    (fromLoHi lo hi).raw = lo.toNat + 2 ^ 128 * hi.toNat := by
  rw [raw, loU128_fromLoHi, hiU128_fromLoHi]

theorem raw_lt (x : I256) : x.raw < 2 ^ 256 := by
  have hl := x.loU128.isLt
  have hh := x.hiU128.isLt
  unfold raw
  omega

theorem isNegative_iff (x : I256) : x.isNegative = true ↔ 2 ^ 255 ≤ x.raw := by
  have h0 := x.limb0.isLt
  have h1 := x.limb1.isLt
  have h2 := x.limb2.isLt
  simp only [isNegative, decide_eq_true_eq, ne_eq, ← BitVec.toNat_inj, BitVec.toNat_ushiftRight,
    Nat.shiftRight_eq_div_pow, BitVec.ofNat_eq_ofNat, BitVec.toNat_ofNat, Nat.zero_mod, raw,
    toNat_loU128, toNat_hiU128]
  omega

/-- The two readings of the limbs, by the sign bit. -/
theorem value_cases (x : I256) :
    (x.isNegative = true ∧ 2 ^ 255 ≤ x.raw ∧ x.value = (x.raw : Int) - 2 ^ 256) ∨
      (x.isNegative = false ∧ x.raw < 2 ^ 255 ∧ x.value = x.raw) := by
  by_cases h : x.isNegative = true
  · exact Or.inl ⟨h, (isNegative_iff x).mp h, if_pos h⟩
  · exact Or.inr ⟨by simpa using h, Nat.lt_of_not_le fun hc => h ((isNegative_iff x).mpr hc),
      if_neg h⟩

theorem isNegative_eq (x : I256) : x.isNegative = decide (x.value < 0) := by
  have hr := x.raw_lt
  rcases value_cases x with ⟨h, _, hv⟩ | ⟨h, _, hv⟩ <;> rw [h, hv, eq_comm]
  · exact decide_eq_true (by omega)
  · exact decide_eq_false (by omega)

theorem value_bounds (x : I256) : I256_MIN ≤ x.value ∧ x.value ≤ I256_MAX := by
  have hr := x.raw_lt
  unfold I256_MIN I256_MAX
  rcases value_cases x with ⟨_, _, hv⟩ | ⟨_, _, hv⟩ <;> omega

theorem raw_inj {x y : I256} (h : x.raw = y.raw) : x = y := by
  have x0 := x.limb0.isLt
  have x1 := x.limb1.isLt
  have x2 := x.limb2.isLt
  have y0 := y.limb0.isLt
  have y1 := y.limb1.isLt
  have y2 := y.limb2.isLt
  simp only [raw, toNat_loU128, toNat_hiU128] at h
  obtain ⟨a, b, c, d⟩ := x
  obtain ⟨a', b', c', d'⟩ := y
  simp only [I256.mk.injEq, ← BitVec.toNat_inj] at *
  omega

theorem value_inj {x y : I256} (h : x.value = y.value) : x = y := by
  have hx := x.raw_lt
  have hy := y.raw_lt
  apply raw_inj
  rcases value_cases x with ⟨_, _, vx⟩ | ⟨_, _, vx⟩ <;>
    rcases value_cases y with ⟨_, _, vy⟩ | ⟨_, _, vy⟩ <;> omega

/-- A number in range is the value of the limbs that are congruent to it. -/
theorem value_eq {x : I256} {v : Int} (hmin : -2 ^ 255 ≤ v) (hmax : v < 2 ^ 255)
    (h : (x.raw : Int) = v ∨ (x.raw : Int) = v + 2 ^ 256) : x.value = v := by
  have hr := x.raw_lt
  rcases value_cases x with ⟨_, _, hv⟩ | ⟨_, _, hv⟩ <;> rcases h with h | h <;> omega

@[simp] theorem value_zero : ZERO.value = 0 := rfl
@[simp] theorem value_one : ONE.value = 1 := rfl
@[simp] theorem value_min : MIN.value = I256_MIN := rfl

theorem eq_min_iff (x : I256) : x = MIN ↔ x.value = I256_MIN :=
  ⟨fun h => by rw [h, value_min], fun h => value_inj (by rw [h, value_min])⟩

theorem eq_one_iff (x : I256) : x = ONE ↔ x.value = 1 :=
  ⟨fun h => by rw [h, value_one], fun h => value_inj (by rw [h, value_one])⟩

theorem isZero_iff (x : I256) : x.isZero = true ↔ x.value = 0 := by
  have zero : x.isZero = true ↔ x = ZERO := by
    obtain ⟨a, b, c, d⟩ := x
    simp [isZero, ZERO]
  exact zero.trans ⟨fun h => by rw [h, value_zero], fun h => value_inj (by rw [h, value_zero])⟩

/-! ### Conversions -/

theorem toInt_cases (v : U128) :
    (v.toInt < 0 ∧ 2 ^ 127 ≤ v.toNat ∧ v.toInt = (v.toNat : Int) - 2 ^ 128) ∨
      (¬ v.toInt < 0 ∧ v.toNat < 2 ^ 127 ∧ v.toInt = v.toNat) := by
  have h := v.isLt
  rw [BitVec.toInt_eq_toNat_cond]
  split <;> omega

@[simp] theorem fromI128_value (v : U128) : (fromI128 v).value = v.toInt := by
  have h := v.isLt
  have hraw := raw_fromLoHi v (if v.toInt < 0 then BitVec.allOnes 128 else 0)
  change (fromI128 v).raw = _ at hraw
  rcases toInt_cases v with ⟨hs, _, hv⟩ | ⟨hs, _, hv⟩
  · rw [if_pos hs, BitVec.toNat_allOnes] at hraw
    apply value_eq <;> omega
  · rw [if_neg hs, toNat_zero] at hraw
    apply value_eq <;> omega

@[simp] theorem fromU128_value (v : U128) : (fromU128 v).value = v.toNat := by
  have h := v.isLt
  have hraw : (fromU128 v).raw = v.toNat := by simp [fromU128]
  apply value_eq <;> omega

theorem tryIntoI128_spec (x : I256) :
    x.tryIntoI128.map BitVec.toInt = Percolator.I256.tryIntoI128 x.value := by
  have hl := x.loU128.isLt
  have hh := x.hiU128.isLt
  have range : x.hiU128 = (if x.loU128.toInt < 0 then BitVec.allOnes 128 else 0) ↔
      I128_MIN ≤ x.value ∧ x.value ≤ I128_MAX := by
    have hr : x.raw = x.loU128.toNat + 2 ^ 128 * x.hiU128.toNat := rfl
    unfold I128_MIN I128_MAX
    rw [← BitVec.toNat_inj]
    rcases toInt_cases x.loU128 with ⟨hs, _, _⟩ | ⟨hs, _, _⟩ <;>
      rcases value_cases x with ⟨_, _, hv⟩ | ⟨_, _, hv⟩
    all_goals
      first
        | rw [if_pos hs, BitVec.toNat_allOnes]
        | rw [if_neg hs, toNat_zero]
      omega
  unfold tryIntoI128 Percolator.I256.tryIntoI128 toI128
  by_cases h : x.hiU128 = if x.loU128.toInt < 0 then BitVec.allOnes 128 else 0
  · have inside := range.mp h
    rw [if_pos h, if_pos inside, Option.map_some]
    have hr : x.raw = x.loU128.toNat + 2 ^ 128 * x.hiU128.toNat := rfl
    unfold I128_MIN I128_MAX at inside
    congr 1
    rcases toInt_cases x.loU128 with ⟨_, _, hs⟩ | ⟨_, _, hs⟩ <;>
      rcases value_cases x with ⟨_, _, hv⟩ | ⟨_, _, hv⟩ <;> omega
  · rw [if_neg h, if_neg fun hc => h (range.mpr hc), Option.map_none]

/-- The words of the negation. -/
theorem raw_negated (x : I256) :
    (x.raw = 0 ∧ x.negated.1.toNat + 2 ^ 128 * x.negated.2.toNat = 0) ∨
      (x.raw ≠ 0 ∧ x.negated.1.toNat + 2 ^ 128 * x.negated.2.toNat + x.raw = 2 ^ 256) := by
  have hl := x.loU128.isLt
  have hh := x.hiU128.isLt
  have low := overflowingAdd_spec (~~~ x.loU128) 1
  have vlow : (~~~ x.loU128).toNat = 2 ^ 128 - 1 - x.loU128.toNat := BitVec.toNat_not
  have vhigh : (~~~ x.hiU128).toNat = 2 ^ 128 - 1 - x.hiU128.toNat := BitVec.toNat_not
  have bound := (overflowingAdd (~~~ x.loU128) 1).1.isLt
  have carry := Bool.toNat_le (overflowingAdd (~~~ x.loU128) 1).2
  have high : (~~~ x.hiU128 + ofFlag (overflowingAdd (~~~ x.loU128) 1).2).toNat =
      (2 ^ 128 - 1 - x.hiU128.toNat + (overflowingAdd (~~~ x.loU128) 1).2.toNat) % 2 ^ 128 := by
    rw [BitVec.toNat_add, vhigh, toNat_ofFlag]
  have hr : x.raw = x.loU128.toNat + 2 ^ 128 * x.hiU128.toNat := rfl
  rw [vlow, toNat_one] at low
  simp only [negated, high]
  omega

/-- `abs_u256` is the magnitude, and its assertion fails on `MIN` only. -/
theorem absU256_spec {x : I256} (h : x.value ≠ I256_MIN) :
    ∃ u, x.absU256 = .ok u ∧ u.value = x.value.natAbs := by
  unfold absU256
  rcases value_cases x with ⟨hn, _, hv⟩ | ⟨hn, _, hv⟩
  · rw [if_pos hn, if_neg fun hc => h ((eq_min_iff x).mp hc)]
    refine ⟨_, rfl, ?_⟩
    rw [U256.value_new]
    have := raw_negated x
    omega
  · rw [if_neg (by rw [hn]; exact Bool.false_ne_true)]
    refine ⟨_, rfl, ?_⟩
    rw [U256.value_new, hv]
    rfl

theorem fromU256OrOverflow_spec (v : U256) :
    (fromU256OrOverflow v).map value = Percolator.I256.fromU256OrOverflow v.value := by
  have hl := v.lo.isLt
  have hh := v.hi.isLt
  have hv : v.value = v.lo.toNat + 2 ^ 128 * v.hi.toNat := rfl
  have top : v.hi >>> 127 ≠ 0 ↔ 2 ^ 127 ≤ v.hi.toNat := by
    rw [ne_eq, ← BitVec.toNat_inj, BitVec.toNat_ushiftRight, Nat.shiftRight_eq_div_pow, toNat_zero]
    omega
  unfold fromU256OrOverflow Percolator.I256.fromU256OrOverflow toI256
  by_cases h : v.hi >>> 127 ≠ 0
  · have := top.mp h
    rw [if_pos h, if_neg (by unfold I256_MIN I256_MAX; omega), Option.map_none]
  · have : ¬ 2 ^ 127 ≤ v.hi.toNat := fun hc => h (top.mpr hc)
    rw [if_neg h, if_pos (by unfold I256_MIN I256_MAX; omega), Option.map_some]
    congr 1
    apply value_eq <;> [skip; skip; rw [raw_fromLoHi]] <;> omega

/-! ### Sums and differences -/

/-- The words of a sum are right modulo `2 ^ 256`. -/
theorem raw_sumWords (x y : I256) : ∃ k : Nat, (sumWords x y).raw + 2 ^ 256 * k = x.raw + y.raw := by
  have low := overflowingAdd_spec x.loU128 y.loU128
  have high := overflowingAdd_spec x.hiU128 y.hiU128
  have carried := overflowingAdd_spec (overflowingAdd x.hiU128 y.hiU128).1
    (ofFlag (overflowingAdd x.loU128 y.loU128).2)
  rw [toNat_ofFlag] at carried
  refine ⟨(overflowingAdd x.hiU128 y.hiU128).2.toNat +
    (overflowingAdd (overflowingAdd x.hiU128 y.hiU128).1
      (ofFlag (overflowingAdd x.loU128 y.loU128).2)).2.toNat, ?_⟩
  simp only [sumWords, raw_fromLoHi]
  unfold raw
  omega

/-- The words of a difference are right modulo `2 ^ 256`. -/
theorem raw_differenceWords (x y : I256) :
    ∃ k : Nat, (differenceWords x y).raw + y.raw = x.raw + 2 ^ 256 * k := by
  have low := overflowingSub_spec x.loU128 y.loU128
  have high := overflowingSub_spec x.hiU128 y.hiU128
  have borrowed := overflowingSub_spec (overflowingSub x.hiU128 y.hiU128).1
    (ofFlag (overflowingSub x.loU128 y.loU128).2)
  rw [toNat_ofFlag] at borrowed
  refine ⟨(overflowingSub x.hiU128 y.hiU128).2.toNat +
    (overflowingSub (overflowingSub x.hiU128 y.hiU128).1
      (ofFlag (overflowingSub x.loU128 y.loU128).2)).2.toNat, ?_⟩
  simp only [differenceWords, raw_fromLoHi]
  unfold raw
  omega

/-- The sign test of `checked_add` finds the sums that are out of range. -/
theorem checkedAdd_spec (x y : I256) :
    (x.checkedAdd y).map value = Percolator.I256.checkedAdd x.value y.value := by
  obtain ⟨k, hk⟩ := raw_sumWords x y
  have hr := (sumWords x y).raw_lt
  have hx := x.raw_lt
  have hy := y.raw_lt
  unfold checkedAdd Percolator.I256.checkedAdd toI256 I256_MIN I256_MAX
  simp only
  rcases value_cases x with ⟨nx, _, vx⟩ | ⟨nx, _, vx⟩ <;>
    rcases value_cases y with ⟨ny, _, vy⟩ | ⟨ny, _, vy⟩ <;>
    rcases value_cases (sumWords x y) with ⟨nr, _, vr⟩ | ⟨nr, _, vr⟩ <;> rw [nx, ny, nr]
  all_goals
    first
      | rw [if_pos (by decide), if_neg (by omega), Option.map_none]
      | rw [if_neg (by decide), if_pos (by omega), Option.map_some]
        congr 1
        omega

theorem checkedNeg_spec (x : I256) : x.checkedNeg.map value = toI256 (-x.value) := by
  have hb := x.value_bounds
  have hx := x.raw_lt
  unfold checkedNeg toI256
  unfold I256_MIN I256_MAX at *
  by_cases h : x = MIN
  · have hv := (eq_min_iff x).mp h
    unfold I256_MIN at hv
    rw [if_pos h, if_neg (by omega), Option.map_none]
  · have hv : x.value ≠ -2 ^ 255 := fun hc => h ((eq_min_iff x).mpr hc)
    rw [if_neg h, if_pos (by omega), Option.map_some]
    congr 1
    have := raw_negated x
    apply value_eq <;> [skip; skip; rw [raw_fromLoHi]] <;>
      rcases value_cases x with ⟨_, _, vx⟩ | ⟨_, _, vx⟩ <;> omega

theorem checkedSub_spec (x y : I256) :
    (x.checkedSub y).map value = Percolator.I256.checkedSub x.value y.value := by
  have negation := checkedNeg_spec y
  unfold checkedSub
  cases hn : y.checkedNeg with
  | some n =>
      rw [hn, Option.map_some, toI256] at negation
      split at negation
      · rw [checkedAdd_spec, Option.some.inj negation]
        rfl
      · cases negation
  | none =>
      -- only `MIN` has no negation
      have hy : y.value = -2 ^ 255 := by
        have hb := y.value_bounds
        rw [hn, Option.map_none, toI256] at negation
        unfold I256_MIN I256_MAX at *
        split at negation
        · cases negation
        · omega
      obtain ⟨k, hk⟩ := raw_differenceWords x y
      have hr := (differenceWords x y).raw_lt
      have hx := x.raw_lt
      have hyy := y.raw_lt
      unfold Percolator.I256.checkedSub toI256 I256_MIN I256_MAX
      simp only
      rcases value_cases x with ⟨nx, _, vx⟩ | ⟨nx, _, vx⟩ <;>
        rcases value_cases y with ⟨ny, _, vy⟩ | ⟨ny, _, vy⟩ <;>
        rcases value_cases (differenceWords x y) with ⟨nr, _, vr⟩ | ⟨nr, _, vr⟩ <;> rw [nx, nr]
      all_goals
        first
          | rw [if_pos (by decide), if_neg (by omega), Option.map_none]
          | rw [if_neg (by decide), if_pos (by omega), Option.map_some]
            congr 1
            omega

/-! ### Products -/

theorem minMag_value : minMag.value = 2 ^ 127 := by decide

/-- `checked_mul_i256` on limbs is the one on values, its slip included. -/
theorem checkedMulI256_spec (x y : I256) :
    ∃ r, x.checkedMulI256 y = .ok r ∧
      r.map value = Percolator.I256.checkedMulI256 x.value y.value := by
  unfold checkedMulI256 Percolator.I256.checkedMulI256
  by_cases hz : x.isZero = true ∨ y.isZero = true
  · refine ⟨some ZERO, by rw [if_pos hz]; rfl, ?_⟩
    rw [isZero_iff, isZero_iff] at hz
    rw [if_pos hz, Option.map_some, value_zero]
  rw [if_neg hz]
  rw [isZero_iff, isZero_iff] at hz
  rw [if_neg hz]
  by_cases hx : x = MIN
  · rw [if_pos hx, if_pos ((eq_min_iff x).mp hx)]
    by_cases h1 : y = ONE
    · exact ⟨some MIN, by rw [if_pos h1]; rfl, by rw [if_pos ((eq_one_iff y).mp h1)]; rfl⟩
    · exact ⟨none, by rw [if_neg h1]; rfl, by rw [if_neg fun h => h1 ((eq_one_iff y).mpr h)]; rfl⟩
  rw [if_neg hx, if_neg fun h => hx ((eq_min_iff x).mpr h)]
  by_cases hy : y = MIN
  · rw [if_pos hy, if_pos ((eq_min_iff y).mp hy)]
    by_cases h1 : x = ONE
    · exact ⟨some MIN, by rw [if_pos h1]; rfl, by rw [if_pos ((eq_one_iff x).mp h1)]; rfl⟩
    · exact ⟨none, by rw [if_neg h1]; rfl, by rw [if_neg fun h => h1 ((eq_one_iff x).mpr h)]; rfl⟩
  rw [if_neg hy, if_neg fun h => hy ((eq_min_iff y).mpr h)]
  obtain ⟨a, ea, va⟩ := absU256_spec fun h => hx ((eq_min_iff x).mpr h)
  obtain ⟨b, eb, vb⟩ := absU256_spec fun h => hy ((eq_min_iff y).mpr h)
  obtain ⟨p, ep, vp⟩ := U256.checkedMul_spec a b
  rw [va, vb] at vp
  rw [← vp]
  simp only [ea, eb, ep, isNegative_eq, bind, Except.bind, pure, Except.pure]
  cases p with
  | none => exact ⟨none, rfl, rfl⟩
  | some p =>
  simp only [Option.map_some, Option.bind_some]
  have bound := fromU256OrOverflow_spec p
  by_cases signs : decide (x.value < 0) ≠ decide (y.value < 0)
  · rw [if_pos signs, if_pos signs]
    by_cases same : p = minMag
    · refine ⟨some MIN, by rw [if_pos same], ?_⟩
      rw [if_pos (by rw [same, minMag_value]), Option.map_some, value_min]
    have differs : p.value ≠ 2 ^ 127 := by
      rw [← minMag_value]
      exact fun h => same (U256.value_inj h)
    rw [if_neg same, if_neg differs]
    by_cases large : U256.lt minMag p = true
    · refine ⟨none, by rw [if_pos large], ?_⟩
      rw [U256.lt_iff, minMag_value] at large
      rw [if_pos large, Option.map_none]
    rw [if_neg large]
    rw [U256.lt_iff, minMag_value] at large
    rw [if_neg large, ← bound]
    cases fromU256OrOverflow p with
    | none => exact ⟨none, rfl, rfl⟩
    | some pos => exact ⟨pos.checkedNeg, rfl, checkedNeg_spec pos⟩
  · rw [if_neg signs, if_neg signs]
    exact ⟨_, rfl, bound⟩

/-- The products that the slip reaches: they are representable and at or below
`-2^127`, and neither factor is `MIN`, which the source treats first. -/
def Slips (a b : Int) : Prop :=
  I256_MIN ≤ a * b ∧ a * b ≤ -2 ^ 127 ∧ a ≠ I256_MIN ∧ b ≠ I256_MIN

/-- Of the multiples of `MIN` by a factor other than `1`, `0` alone is representable. -/
theorem toI256_mul_min {b : Int} (h0 : b ≠ 0) :
    toI256 (I256_MIN * b) = if b = 1 then some I256_MIN else none := by
  unfold toI256
  by_cases h1 : b = 1
  · rw [if_pos h1, h1, Int.mul_one]
    exact if_pos (by decide)
  · rw [if_neg h1]
    apply if_neg
    unfold I256_MIN I256_MAX
    omega

/-- Outside the slip the product of the values is the one asked for. -/
theorem checkedMul_exact {a b : Int} (h : ¬ Slips a b) :
    Percolator.I256.checkedMulI256 a b = toI256 (a * b) := by
  unfold Percolator.I256.checkedMulI256
  by_cases hz : a = 0 ∨ b = 0
  · rw [if_pos hz, Int.mul_eq_zero.mpr hz]
    rfl
  rw [if_neg hz]
  rw [not_or] at hz
  by_cases ha : a = I256_MIN
  · rw [if_pos ha, ha, toI256_mul_min hz.2]
  rw [if_neg ha]
  by_cases hb : b = I256_MIN
  · rw [if_pos hb, hb, Int.mul_comm, toI256_mul_min hz.1]
  rw [if_neg hb]
  have clear : ¬ (I256_MIN ≤ a * b ∧ a * b ≤ -2 ^ 127) := fun hc => h ⟨hc.1, hc.2, ha, hb⟩
  unfold Percolator.U256.checkedMul Percolator.I256.fromU256OrOverflow
  by_cases signs : decide (a < 0) ≠ decide (b < 0)
  · rw [mul_of_signs_ne signs] at clear ⊢
    unfold toI256 I256_MIN I256_MAX U256_MAX at *
    grind
  · rw [mul_of_signs_eq signs] at clear ⊢
    unfold toI256 I256_MIN I256_MAX U256_MAX at *
    grind

/-- On the slip the answer is `MIN` for the product `-2^127` and an overflow for
every smaller one. -/
theorem checkedMul_slips {a b : Int} (h : Slips a b) :
    Percolator.I256.checkedMulI256 a b = if a * b = -2 ^ 127 then some I256_MIN else none := by
  obtain ⟨least, most, ha, hb⟩ := h
  have hz : ¬ (a = 0 ∨ b = 0) := by
    intro hz
    rw [Int.mul_eq_zero.mpr hz] at most
    omega
  unfold Percolator.I256.checkedMulI256
  rw [if_neg hz, if_neg ha, if_neg hb]
  by_cases signs : decide (a < 0) ≠ decide (b < 0)
  · have product := mul_of_signs_ne signs
    unfold Percolator.U256.checkedMul U256_MAX
    unfold I256_MIN at least
    rw [if_pos (by omega), Option.bind_eq_bind, Option.bind_some, if_pos signs]
    split <;> rename_i hp
    · rw [if_pos (by omega)]
    · rw [if_pos (by omega), if_neg (by omega)]
  · have product := mul_of_signs_eq signs
    omega

/-- What exact multiplication asks of `checked_mul_i256`: the product when it is an
`I256`, and `None` when it is not. -/
structure MultipliesExactly (x y : I256) : Prop where
  product : I256_MIN ≤ x.value * y.value ∧ x.value * y.value ≤ I256_MAX →
    ∃ c, x.checkedMulI256 y = .ok (some c) ∧ c.value = x.value * y.value
  overflow : ¬ (I256_MIN ≤ x.value * y.value ∧ x.value * y.value ≤ I256_MAX) →
    x.checkedMulI256 y = .ok none

theorem multipliesExactly_iff_value (x y : I256) :
    MultipliesExactly x y ↔
      Percolator.I256.checkedMulI256 x.value y.value = toI256 (x.value * y.value) := by
  obtain ⟨r, returned, hr⟩ := checkedMulI256_spec x y
  rw [← hr, toI256]
  constructor
  · intro exact
    split <;> rename_i range
    · obtain ⟨c, hc, value⟩ := exact.product range
      rw [returned] at hc
      rw [Except.ok.inj hc, Option.map_some, value]
    · have none := exact.overflow range
      rw [returned] at none
      rw [Except.ok.inj none, Option.map_none]
  · intro equal
    constructor
    · intro range
      rw [if_pos range] at equal
      obtain ⟨c, rfl, value⟩ := Option.map_eq_some_iff.mp equal
      exact ⟨c, returned, value⟩
    · intro range
      rw [if_neg range, Option.map_eq_none_iff] at equal
      rw [returned, equal]

/-- `checked_mul_i256` is exact on just the factors whose product the slip does not reach. -/
theorem multipliesExactly_iff (x y : I256) :
    MultipliesExactly x y ↔ ¬ Slips x.value y.value := by
  rw [multipliesExactly_iff_value]
  constructor
  · intro equal slips
    obtain ⟨least, most, -, -⟩ := id slips
    have range : I256_MIN ≤ x.value * y.value ∧ x.value * y.value ≤ I256_MAX := by
      constructor
      · exact least
      · unfold I256_MAX
        omega
    rw [checkedMul_slips slips, toI256, if_pos range] at equal
    split at equal <;> rename_i product
    · have equal := Option.some.inj equal
      unfold I256_MIN at equal
      omega
    · cases equal
  · exact checkedMul_exact

/-- `-2^127 * 1` comes out as `MIN`. -/
theorem multipliesExactly_fails : ¬ MultipliesExactly (fromI128 (1 <<< 127)) ONE := by
  intro exact
  obtain ⟨c, returned, value⟩ := exact.product (by decide)
  rw [show checkedMulI256 (fromI128 (1 <<< 127)) ONE = .ok (some MIN) from by decide] at returned
  rw [← Option.some.inj (Except.ok.inj returned)] at value
  exact absurd value (by decide)

end I256
end Wide
end Percolator
