import Mathlib.Algebra.Order.Floor.Semifield
import Mathlib.Data.Rat.Floor
import Percolator.Wide.Division
import Percolator.Wide.U512
import Percolator.Wide.Settlement

/-!
The rounding helpers of `wide_math.rs` on limbs, each with what it returns on
values: the quotient rounded the way its name says, and a panic where that is not
a number of the result type.
-/

namespace Percolator
namespace Wide

/-- `expect`: a missing value is a panic. -/
def expect {α : Type} (o : Option α) : Except Halt α :=
  match o with
  | some a => .ok a
  | none => .error .panic

/-- `U256::from_u64`. -/
def U256.fromU64 (v : U64) : U256 := ⟨v, 0, 0, 0⟩

/-- A quotient, one up when there is a remainder. -/
def roundUp (q r : U256) : Except Halt U256 :=
  if r.isZero then .ok q else expect (q.checkedAdd U256.ONE)

/-- `ceil_div_positive_checked`. -/
def ceilDivPositiveChecked (n d : U256) : Except Halt U256 := do
  if d.isZero then .error .panic
  else do
    let (q, r) ← divRemU256 n d
    roundUp q r

/-- `mul_div_floor_u256`. -/
def mulDivFloorU256 (a b d : U256) : Except Halt U256 := do
  if d.isZero then .error .panic
  else do
    let product ← U512.mulU256 a b
    let (q, _) ← product.divRemByU256 d
    return q

/-- `mul_div_ceil_u256`. -/
def mulDivCeilU256 (a b d : U256) : Except Halt U256 := do
  if d.isZero then .error .panic
  else do
    let product ← U512.mulU256 a b
    let (q, r) ← product.divRemByU256 d
    roundUp q r

/-- `checked_mul_div_ceil_u256`. -/
def checkedMulDivCeilU256 (a b d : U256) : Except Halt (Option U256) := do
  if d.isZero then return none
  else do
    let product ← U512.mulU256 a b
    match ← product.checkedDivRemByU256 d with
    | none => return none
    | some (q, r) => if r.isZero then return some q else return q.checkedAdd U256.ONE

/-- `saturating_mul_u256_u64`. -/
def saturatingMulU256U64 (a : U256) (b : U64) : Except Halt U256 := do
  let product ← a.checkedMul (U256.fromU64 b)
  return product.getD U256.MAX

/-- `mul_div_floor_u128`. -/
def mulDivFloorU128 (a b d : U128) : Except Halt U128 := do
  if d = 0 then .error .panic
  else do
    let p ← times a b
    return p / d

/-- `mul_div_ceil_u128`. -/
def mulDivCeilU128 (a b d : U128) : Except Halt U128 := do
  if d = 0 then .error .panic
  else do
    let p ← times a b
    let q := p / d
    if p % d ≠ 0 then plus q 1 else return q

/-- `wide_mul_div_floor_u128`. -/
def wideMulDivFloorU128 (a b d : U128) : Except Halt U128 := do
  if d = 0 then .error .panic
  else do
    let result ← mulDivFloorU256 (U256.fromU128 a) (U256.fromU128 b) (U256.fromU128 d)
    expect result.tryIntoU128

/-- `wide_mul_div_ceil_u128_or_over_i128max`: `none` is `OverI128Magnitude`. -/
def wideMulDivCeilU128OrOverI128max (a b d : U128) : Except Halt (Option U128) := do
  if d = 0 then .error .panic
  else do
    let result ← mulDivCeilU256 (U256.fromU128 a) (U256.fromU128 b) (U256.fromU128 d)
    match result.tryIntoU128 with
    | some v => if (v.toNat : Int) ≤ I128_MAX then return some v else return none
    | none => return none

/-- `saturating_mul_u128_u64`. -/
def saturatingMulU128U64 (a : U128) (b : U64) : U128 :=
  if a = 0 ∨ b = 0 then 0
  else
    let b128 : U128 := b.setWidth 128
    if a.toNat * b128.toNat < 2 ^ 128 then a * b128 else BitVec.allOnes 128

/-! ### What a computation on words returns -/

/-- A computation returns the number there is, and panics where there is none. -/
inductive Returns {α β : Type} (value : α → β) : Except Halt α → Option β → Prop
  | ok (a : α) : Returns value (.ok a) (some (value a))
  | panic : Returns value (.error .panic) none

section Rules

variable {α β γ δ : Type} {value : α → β} {value' : γ → δ} {m : Except Halt α} {o : Option β}

theorem Returns.of_value {a : α} {b : β} (h : value a = b) : Returns value (.ok a) (some b) :=
  h ▸ .ok a

theorem Returns.expect {x : Option α} (h : x.map value = o) : Returns value (expect x) o := by
  rw [← h]
  cases x with
  | none => exact .panic
  | some a => exact .ok a

theorem Returns.bind {f : α → Except Halt γ} {g : β → Option δ} (h : Returns value m o)
    (next : ∀ a, o = some (value a) → Returns value' (f a) (g (value a))) :
    Returns value' (m >>= f) (o >>= g) := by
  cases h with
  | ok a => exact next a rfl
  | panic => exact .panic

theorem Returns.returned {b : β} (h : Returns value m (some b)) : ∃ a, m = .ok a ∧ value a = b := by
  cases h with
  | ok a => exact ⟨a, rfl, rfl⟩

theorem Returns.panics (h : Returns value m none) : m = .error .panic := by
  cases h with
  | panic => rfl

end Rules

/-! ### Quotients of magnitudes -/

/-- The number `b`, if it is at most `bound`. -/
def atMost (bound b : Nat) : Option Nat := if b ≤ bound then some b else none

theorem atMost_of_le {bound b : Nat} (h : b ≤ bound) : atMost bound b = some b := if_pos h

theorem roundUp_returns {p d : Nat} {q r : U256} (hq : q.value = p / d) (hr : r.value = p % d) :
    Returns U256.value (roundUp q r) (atMost U256_MAX (ceilDiv p d)) := by
  unfold roundUp ceilDiv
  by_cases exactly : r.isZero = true
  · have zero := (U256.isZero_iff r).mp exactly
    have narrow := q.value_lt
    rw [if_pos exactly, if_pos (by omega), ← hq, atMost_of_le (by unfold U256_MAX; omega)]
    exact .ok q
  · have left : p % d ≠ 0 := by
      intro h
      exact exactly ((U256.isZero_iff r).mpr (by omega))
    rw [if_neg exactly, if_neg left, ← hq]
    exact .expect (U256.checkedAdd_spec q U256.ONE)

theorem ceilDiv_le_self (n : Nat) {d : Nat} (hd : 0 < d) : ceilDiv n d ≤ n := by
  unfold ceilDiv
  by_cases h : n % d = 0
  · rw [if_pos h]
    exact Nat.div_le_self n d
  · rw [if_neg h]
    have two : 2 ≤ d := by
      by_contra small
      have one : d = 1 := by omega
      exact h (by rw [one, Nat.mod_one])
    have pos : n ≠ 0 := by
      intro zero
      exact h (by rw [zero, Nat.zero_mod])
    exact Nat.div_lt_self (Nat.pos_of_ne_zero pos) two

theorem ceilDivPositiveChecked_returns (n : U256) {d : U256} (hd : d.value ≠ 0) :
    Returns U256.value (ceilDivPositiveChecked n d) (some (ceilDiv n.value d.value)) := by
  obtain ⟨q, r, divided, hq, hr⟩ := divRemU256_spec n hd
  have fits : ceilDiv n.value d.value ≤ U256_MAX := by
    have := ceilDiv_le_self n.value (Nat.pos_of_ne_zero hd)
    have := n.value_lt
    unfold U256_MAX
    omega
  unfold ceilDivPositiveChecked
  rw [if_neg fun h => hd ((U256.isZero_iff d).mp h), divided, ← atMost_of_le fits]
  exact roundUp_returns hq hr

/-- The quotient and the remainder of a product, or the panic where the quotient
is not a `U256`. -/
theorem product_divided (a b : U256) {d : U256} (hd : d.value ≠ 0) :
    ∃ product, U512.mulU256 a b = .ok product ∧
      ((∃ q r, product.divRemByU256 d = .ok (q, r) ∧ q.value = a.value * b.value / d.value ∧
          r.value = a.value * b.value % d.value) ∨
        (product.divRemByU256 d = .error .panic ∧ U256_MAX < a.value * b.value / d.value)) := by
  obtain ⟨product, multiplied, value⟩ := U512.mulU256_spec a b
  obtain ⟨divides, overflows⟩ := U512.checkedDivRemByU256_spec product hd
  rw [value] at divides overflows
  refine ⟨product, multiplied, ?_⟩
  by_cases small : a.value * b.value / d.value < 2 ^ 256
  · obtain ⟨q, r, answer, hq, hr⟩ := divides small
    left
    refine ⟨q, r, ?_, hq, hr⟩
    simp only [U512.divRemByU256, answer, bind, Except.bind, pure, Except.pure]
  · right
    refine ⟨?_, by unfold U256_MAX; omega⟩
    simp only [U512.divRemByU256, overflows (by omega), bind, Except.bind]
    rfl

theorem mulDivFloorU256_returns (a b : U256) {d : U256} (hd : d.value ≠ 0) :
    Returns U256.value (mulDivFloorU256 a b d) (atMost U256_MAX (a.value * b.value / d.value)) := by
  obtain ⟨product, multiplied, ⟨q, r, divided, hq, hr⟩ | ⟨panicked, large⟩⟩ := product_divided a b hd
  · have narrow := q.value_lt
    unfold mulDivFloorU256
    rw [if_neg fun h => hd ((U256.isZero_iff d).mp h), multiplied, ok_bind, divided, ← hq,
      atMost_of_le (by unfold U256_MAX; omega)]
    exact .ok q
  · unfold mulDivFloorU256 atMost
    rw [if_neg fun h => hd ((U256.isZero_iff d).mp h), multiplied, ok_bind, panicked,
      if_neg (by omega)]
    exact .panic

theorem div_le_ceilDiv (n d : Nat) : n / d ≤ ceilDiv n d := by
  unfold ceilDiv
  split <;> omega

theorem mulDivCeilU256_returns (a b : U256) {d : U256} (hd : d.value ≠ 0) :
    Returns U256.value (mulDivCeilU256 a b d)
      (atMost U256_MAX (ceilDiv (a.value * b.value) d.value)) := by
  obtain ⟨product, multiplied, ⟨q, r, divided, hq, hr⟩ | ⟨panicked, large⟩⟩ := product_divided a b hd
  · unfold mulDivCeilU256
    rw [if_neg fun h => hd ((U256.isZero_iff d).mp h), multiplied, ok_bind, divided, ok_bind]
    exact roundUp_returns hq hr
  · have := div_le_ceilDiv (a.value * b.value) d.value
    unfold mulDivCeilU256 atMost
    rw [if_neg fun h => hd ((U256.isZero_iff d).mp h), multiplied, ok_bind, panicked,
      if_neg (by omega)]
    exact .panic

/-- The checked variant reports instead of panicking. -/
theorem checkedMulDivCeilU256_spec (a b : U256) {d : U256} (hd : d.value ≠ 0) :
    ∃ r, checkedMulDivCeilU256 a b d = .ok r ∧
      r.map U256.value = atMost U256_MAX (ceilDiv (a.value * b.value) d.value) := by
  obtain ⟨product, multiplied, value⟩ := U512.mulU256_spec a b
  obtain ⟨divides, overflows⟩ := U512.checkedDivRemByU256_spec product hd
  rw [value] at divides overflows
  unfold checkedMulDivCeilU256
  rw [if_neg fun h => hd ((U256.isZero_iff d).mp h), multiplied, ok_bind]
  by_cases small : a.value * b.value / d.value < 2 ^ 256
  · obtain ⟨q, r, answer, hq, hr⟩ := divides small
    have rounded := roundUp_returns hq hr
    rw [answer, ok_bind]
    unfold roundUp at rounded
    by_cases exactly : r.isZero = true
    · rw [if_pos exactly] at rounded
      refine ⟨some q, if_pos exactly, ?_⟩
      generalize atMost U256_MAX (ceilDiv (a.value * b.value) d.value) = o at rounded ⊢
      cases rounded
      rfl
    · rw [if_neg exactly] at rounded
      refine ⟨q.checkedAdd U256.ONE, if_neg exactly, ?_⟩
      generalize atMost U256_MAX (ceilDiv (a.value * b.value) d.value) = o at rounded ⊢
      cases next : q.checkedAdd U256.ONE with
      | none =>
          rw [next] at rounded
          cases rounded
          rfl
      | some up =>
          rw [next] at rounded
          cases rounded
          rfl
  · have := div_le_ceilDiv (a.value * b.value) d.value
    rw [overflows (by omega)]
    refine ⟨none, rfl, ?_⟩
    unfold atMost U256_MAX
    rw [if_neg (by omega), Option.map_none]

/-! ### Native and narrowed results -/

theorem mulDivFloorU128_returns (a b : U128) {d : U128} (hd : d ≠ 0) :
    Returns BitVec.toNat (mulDivFloorU128 a b d)
      (Percolator.mulDivFloorU128 a.toNat b.toNat d.toNat) := by
  have hdn : d.toNat ≠ 0 := fun h => hd (toNat_eq_zero_iff.mp h)
  unfold mulDivFloorU128 Percolator.mulDivFloorU128 U128_MAX
  rw [if_neg hd]
  by_cases fits : a.toNat * b.toNat < 2 ^ 128
  · obtain ⟨multiplied, value⟩ := times_eq fits
    rw [multiplied, if_neg (by omega), ok_bind]
    refine .of_value ?_
    rw [BitVec.toNat_udiv, value]
  · have halted : times a b = .error .panic := if_neg fits
    rw [halted, if_pos (by omega)]
    exact .panic

theorem mulDivCeilU128_returns (a b : U128) {d : U128} (hd : d ≠ 0) :
    Returns BitVec.toNat (mulDivCeilU128 a b d)
      (Percolator.mulDivCeilU128 a.toNat b.toNat d.toNat) := by
  have hdn : d.toNat ≠ 0 := fun h => hd (toNat_eq_zero_iff.mp h)
  unfold mulDivCeilU128 Percolator.mulDivCeilU128 U128_MAX
  rw [if_neg hd]
  by_cases fits : a.toNat * b.toNat < 2 ^ 128
  · obtain ⟨multiplied, value⟩ := times_eq fits
    have bound := ceilDiv_le_self (a.toNat * b.toNat) (Nat.pos_of_ne_zero hdn)
    have quotient : (a * b / d).toNat = a.toNat * b.toNat / d.toNat := by rw [BitVec.toNat_udiv, value]
    have remainder : a * b % d ≠ 0 ↔ a.toNat * b.toNat % d.toNat ≠ 0 := by
      rw [ne_eq, ← toNat_eq_zero_iff, BitVec.toNat_umod, value]
    rw [multiplied, if_neg (by omega), ok_bind]
    unfold ceilDiv at bound ⊢
    by_cases exactly : a.toNat * b.toNat % d.toNat = 0
    · rw [if_neg fun h => remainder.mp h exactly, if_pos exactly]
      exact .of_value quotient
    · rw [if_neg exactly] at bound
      have room : (a * b / d).toNat + (1 : U128).toNat < 2 ^ 128 := by
        rw [quotient, toNat_one]
        omega
      obtain ⟨added, sum⟩ := plus_eq room
      rw [if_pos (remainder.mpr exactly), if_neg exactly, added]
      refine .of_value ?_
      rw [sum, quotient, toNat_one]
  · have halted : times a b = .error .panic := if_neg fits
    rw [halted, if_pos (by omega)]
    exact .panic

/-- A product of two `u128` is within 256 bits. -/
theorem product_narrow (a b : U128) : a.toNat * b.toNat ≤ U256_MAX := by
  have := Nat.mul_le_mul (Nat.le_sub_one_of_lt a.isLt) (Nat.le_sub_one_of_lt b.isLt)
  unfold U256_MAX
  omega

theorem wideMulDivFloorU128_returns (a b : U128) {d : U128} (hd : d ≠ 0) :
    Returns BitVec.toNat (wideMulDivFloorU128 a b d)
      (Percolator.wideMulDivFloorU128 a.toNat b.toNat d.toNat) := by
  have hdn : d.toNat ≠ 0 := fun h => hd (toNat_eq_zero_iff.mp h)
  have hdw : (U256.fromU128 d).value ≠ 0 := by rwa [U256.value_fromU128]
  have divided := mulDivFloorU256_returns (U256.fromU128 a) (U256.fromU128 b) hdw
  simp only [U256.value_fromU128] at divided
  have fits := (Nat.div_le_self (a.toNat * b.toNat) d.toNat).trans (product_narrow a b)
  rw [atMost_of_le fits] at divided
  obtain ⟨result, returned, value⟩ := divided.returned
  unfold wideMulDivFloorU128 Percolator.wideMulDivFloorU128
  rw [if_neg hd, returned, ok_bind, ← value]
  refine .expect ((U256.tryIntoU128_spec result).trans ?_)
  unfold Percolator.U256.tryIntoU128
  by_cases narrow : result.value ≤ U128_MAX
  · rw [if_pos narrow, if_neg (by omega)]
  · rw [if_neg narrow, if_pos (by omega)]

/-- The two answers of `wide_mul_div_ceil_u128_or_over_i128max` on words. -/
def deltaK (answer : Option U128) : DeltaK :=
  match answer with
  | some v => .fits v.toNat
  | none => .overI128Magnitude

theorem wideMulDivCeilU128OrOverI128max_returns (a b : U128) {d : U128} (hd : d ≠ 0) :
    Returns deltaK (wideMulDivCeilU128OrOverI128max a b d)
      (Percolator.wideMulDivCeilU128OrOverI128max a.toNat b.toNat d.toNat) := by
  have hdn : d.toNat ≠ 0 := fun h => hd (toNat_eq_zero_iff.mp h)
  have hdw : (U256.fromU128 d).value ≠ 0 := by rwa [U256.value_fromU128]
  have divided := mulDivCeilU256_returns (U256.fromU128 a) (U256.fromU128 b) hdw
  simp only [U256.value_fromU128] at divided
  have fits := (ceilDiv_le_self (a.toNat * b.toNat) (Nat.pos_of_ne_zero hdn)).trans (product_narrow a b)
  rw [atMost_of_le fits] at divided
  obtain ⟨result, returned, value⟩ := divided.returned
  have narrowed := U256.tryIntoU128_spec result
  unfold Percolator.U256.tryIntoU128 U128_MAX at narrowed
  unfold wideMulDivCeilU128OrOverI128max Percolator.wideMulDivCeilU128OrOverI128max I128_MAX
  rw [if_neg hd, returned, ok_bind, if_neg (by omega), ← value]
  cases answer : result.tryIntoU128 with
  | none =>
      rw [answer, Option.map_none] at narrowed
      split at narrowed
      · cases narrowed
      · rw [if_neg (by omega)]
        exact .of_value rfl
  | some v =>
      rw [answer, Option.map_some] at narrowed
      split at narrowed
      · have same := Option.some.inj narrowed
        by_cases small : (v.toNat : Int) ≤ 2 ^ 127 - 1
        · simp only [small, if_true]
          rw [if_pos (by omega), ← same]
          exact .of_value rfl
        · simp only [small, if_false]
          rw [if_neg (by omega)]
          exact .of_value rfl
      · cases narrowed

theorem saturatingMulU256U64_spec (a : U256) (b : U64) :
    ∃ r, saturatingMulU256U64 a b = .ok r ∧ r.value = min (a.value * b.toNat) U256_MAX := by
  obtain ⟨r, multiplied, product⟩ := U256.checkedMul_spec a (U256.fromU64 b)
  have value : (U256.fromU64 b).value = b.toNat := by
    have lo := U256.toNat_lo (U256.fromU64 b)
    have hi := U256.toNat_hi (U256.fromU64 b)
    unfold U256.value
    rw [lo, hi]
    simp [U256.fromU64]
  rw [value] at product
  unfold Percolator.U256.checkedMul at product
  refine ⟨r.getD U256.MAX, ?_, ?_⟩
  · unfold saturatingMulU256U64
    rw [multiplied]
    rfl
  · by_cases fits : a.value * b.toNat ≤ U256_MAX
    · rw [if_pos fits] at product
      obtain ⟨p, rfl, hp⟩ := Option.map_eq_some_iff.mp product
      rw [Option.getD_some, hp, min_eq_left fits]
    · rw [if_neg fits] at product
      rw [Option.map_eq_none_iff.mp product, min_eq_right (by omega)]
      decide

theorem saturatingMulU128U64_spec (a : U128) (b : U64) :
    (saturatingMulU128U64 a b).toNat = min (a.toNat * b.toNat) U128_MAX := by
  have wide : (b.setWidth 128).toNat = b.toNat := by
    rw [BitVec.toNat_setWidth]
    have := b.isLt
    omega
  unfold saturatingMulU128U64 U128_MAX
  by_cases zero : a = 0 ∨ b = 0
  · have product : a.toNat * b.toNat = 0 := by
      rcases zero with rfl | rfl
      · rw [toNat_zero, zero_mul]
      · rw [show (0 : U64).toNat = 0 from rfl, mul_zero]
    rw [if_pos zero, product, toNat_zero, Nat.zero_min]
  · rw [if_neg zero]
    simp only [wide]
    by_cases fits : a.toNat * b.toNat < 2 ^ 128
    · rw [if_pos fits, BitVec.toNat_mul, wide, Nat.mod_eq_of_lt fits]
      omega
    · rw [if_neg fits, BitVec.toNat_allOnes]
      omega

/-! ### The quotients as a whole -/

/-- The exact quotient of two magnitudes. -/
def exactQuotient (n d : Nat) : ℚ := n / d

theorem floor_exactQuotient (n d : Nat) : ⌊exactQuotient n d⌋₊ = n / d := Nat.floor_div_eq_div n d

theorem ceil_exactQuotient (n : Nat) {d : Nat} (hd : 0 < d) : ⌈exactQuotient n d⌉₊ = ceilDiv n d := by
  have positive : (0 : ℚ) < d := Nat.cast_pos.mpr hd
  have bound (m : Nat) : ⌈exactQuotient n d⌉₊ ≤ m ↔ n ≤ m * d := by
    unfold exactQuotient
    rw [Nat.ceil_le, div_le_iff₀ positive, ← Nat.cast_mul, Nat.cast_le]
  have split := Nat.div_add_mod n d
  have left := Nat.mod_lt n hd
  unfold ceilDiv
  by_cases exactly : n % d = 0
  · rw [if_pos exactly]
    refine le_antisymm ((bound _).mpr ?_) (Nat.div_le_of_le_mul ?_)
    · rw [Nat.mul_comm]
      omega
    · rw [Nat.mul_comm]
      exact (bound _).mp le_rfl
  · rw [if_neg exactly]
    refine le_antisymm ((bound _).mpr ?_) ?_
    · rw [Nat.add_mul, Nat.mul_comm, Nat.one_mul]
      omega
    · by_contra small
      have low := (bound (n / d)).mp (by omega)
      rw [Nat.mul_comm] at low
      omega

/-- The unsigned quotients round the exact rational the way their names say, until a
number of their type runs out: the product of the narrow ones, the quotient of the
wide ones. -/
theorem rounded_quotients_exact {d : U256} {e : U128} (hd : d.value ≠ 0) (he : e ≠ 0) :
    (∀ a b : U256,
      Returns U256.value (mulDivFloorU256 a b d)
        (atMost U256_MAX ⌊exactQuotient (a.value * b.value) d.value⌋₊) ∧
      Returns U256.value (mulDivCeilU256 a b d)
        (atMost U256_MAX ⌈exactQuotient (a.value * b.value) d.value⌉₊) ∧
      ∃ r, checkedMulDivCeilU256 a b d = .ok r ∧
        r.map U256.value = atMost U256_MAX ⌈exactQuotient (a.value * b.value) d.value⌉₊) ∧
    ∀ a b : U128,
      Returns BitVec.toNat (mulDivFloorU128 a b e)
        (if a.toNat * b.toNat ≤ U128_MAX then some ⌊exactQuotient (a.toNat * b.toNat) e.toNat⌋₊
          else none) ∧
      Returns BitVec.toNat (mulDivCeilU128 a b e)
        (if a.toNat * b.toNat ≤ U128_MAX then some ⌈exactQuotient (a.toNat * b.toNat) e.toNat⌉₊
          else none) ∧
      Returns BitVec.toNat (wideMulDivFloorU128 a b e)
        (atMost U128_MAX ⌊exactQuotient (a.toNat * b.toNat) e.toNat⌋₊) ∧
      Returns deltaK (wideMulDivCeilU128OrOverI128max a b e)
        (some (if (⌈exactQuotient (a.toNat * b.toNat) e.toNat⌉₊ : Int) ≤ I128_MAX then
          .fits ⌈exactQuotient (a.toNat * b.toNat) e.toNat⌉₊ else .overI128Magnitude)) := by
  have pos : 0 < d.value := Nat.pos_of_ne_zero hd
  have zero : e.toNat ≠ 0 := fun h => he (toNat_eq_zero_iff.mp h)
  refine ⟨fun a b => ?_, fun a b => ?_⟩
  · rw [floor_exactQuotient, ceil_exactQuotient _ pos]
    exact ⟨mulDivFloorU256_returns a b hd, mulDivCeilU256_returns a b hd, checkedMulDivCeilU256_spec a b hd⟩
  · have floor := mulDivFloorU128_returns a b he
    have ceil := mulDivCeilU128_returns a b he
    have wide := wideMulDivFloorU128_returns a b he
    have magnitude := wideMulDivCeilU128OrOverI128max_returns a b he
    have narrow : ceilDiv (a.toNat * b.toNat) e.toNat ≤ U256_MAX :=
      (ceilDiv_le_self _ (Nat.pos_of_ne_zero zero)).trans (product_narrow a b)
    have bounded {q n bound : Nat} : (if e.toNat = 0 ∨ bound < n then none else some q) =
        if n ≤ bound then some q else none := by
      by_cases fits : n ≤ bound
      · rw [if_pos fits, if_neg (not_or.mpr ⟨zero, not_lt.mpr fits⟩)]
      · rw [if_neg fits, if_pos (.inr (not_le.mp fits))]
    unfold Percolator.mulDivFloorU128 at floor
    unfold Percolator.mulDivCeilU128 at ceil
    unfold Percolator.wideMulDivFloorU128 at wide
    unfold Percolator.wideMulDivCeilU128OrOverI128max at magnitude
    rw [bounded] at floor ceil wide
    rw [if_neg (not_or.mpr ⟨zero, not_lt.mpr narrow⟩), ← apply_ite some] at magnitude
    rw [floor_exactQuotient, ceil_exactQuotient _ (Nat.pos_of_ne_zero zero)]
    exact ⟨floor, ceil, wide, magnitude⟩

/-- `7 / 2` both ways, and `MAX * 3 / 6`, a product that only the wide quotients hold
and whose ceiling is no magnitude of `i128`. -/
theorem rounded_quotients_exact_edges :
    (∃ q, mulDivFloorU256 (U256.fromU128 7) U256.ONE (U256.fromU128 2) = .ok q ∧ q.value = 3) ∧
      (∃ q, mulDivCeilU256 (U256.fromU128 7) U256.ONE (U256.fromU128 2) = .ok q ∧ q.value = 4) ∧
      (∃ q, wideMulDivFloorU128 (BitVec.allOnes 128) 3 6 = .ok q ∧ q.toNat = 2 ^ 127 - 1) ∧
      mulDivFloorU128 (BitVec.allOnes 128) 3 6 = .error .panic ∧
      ∃ r, wideMulDivCeilU128OrOverI128max (BitVec.allOnes 128) 3 6 = .ok r ∧
        deltaK r = .overI128Magnitude := by
  have two := (rounded_quotients_exact (d := U256.fromU128 2) (e := 6) (by decide) (by decide)).1
    (U256.fromU128 7) U256.ONE
  have six := (rounded_quotients_exact (d := U256.fromU128 2) (e := 6) (by decide) (by decide)).2
    (BitVec.allOnes 128) 3
  simp only [floor_exactQuotient, ceil_exactQuotient _ (show 0 < (6 : U128).toNat by decide),
    ceil_exactQuotient _ (show 0 < (U256.fromU128 2).value by decide)] at two six
  exact ⟨two.1.returned, two.2.1.returned, six.2.2.1.returned, six.1.panics, six.2.2.2.returned⟩

end Wide
end Percolator
