import Percolator.Wide.Words
import Percolator.Engine.Num

/-!
`U256`: four little-endian `u64` limbs, read and written as a low and a high
`u128`. Each operation of the source is followed by what it does to the value.
-/

namespace Percolator
namespace Wide

/-- `U256`. -/
structure U256 where
  limb0 : U64
  limb1 : U64
  limb2 : U64
  limb3 : U64
deriving DecidableEq, Repr

namespace U256

/-- `U256::new`. -/
def new (lo hi : U128) : U256 where
  limb0 := lo.setWidth 64
  limb1 := (lo >>> 64).setWidth 64
  limb2 := hi.setWidth 64
  limb3 := (hi >>> 64).setWidth 64

def ZERO : U256 := ⟨0, 0, 0, 0⟩
def ONE : U256 := ⟨1, 0, 0, 0⟩
def MAX : U256 := ⟨-1, -1, -1, -1⟩

/-- `from_u128`. -/
def fromU128 (v : U128) : U256 := new v 0

/-- `lo`. -/
def lo (x : U256) : U128 := x.limb0.setWidth 128 ||| x.limb1.setWidth 128 <<< 64

/-- `hi`. -/
def hi (x : U256) : U128 := x.limb2.setWidth 128 ||| x.limb3.setWidth 128 <<< 64

/-- `is_zero`. -/
def isZero (x : U256) : Bool :=
  decide (x.limb0 = 0 ∧ x.limb1 = 0 ∧ x.limb2 = 0 ∧ x.limb3 = 0)

/-- `try_into_u128`. -/
def tryIntoU128 (x : U256) : Option U128 :=
  if x.limb2 = 0 ∧ x.limb3 = 0 then some x.lo else none

/-- `checked_add`. -/
def checkedAdd (x y : U256) : Option U256 :=
  let (lo, carry) := addU128Carry x.lo y.lo false
  let (hi, overflow) := addU128Carry x.hi y.hi carry
  if overflow then none else some (new lo hi)

/-- `checked_sub`. -/
def checkedSub (x y : U256) : Option U256 :=
  let (lo, borrow) := subU128Borrow x.lo y.lo false
  let (hi, underflow) := subU128Borrow x.hi y.hi borrow
  if underflow then none else some (new lo hi)

/-- A cross product of `checked_mul`, skipped when the high word `h` is zero; the
answer `none` leaves the function. -/
def cross (h a b : U128) : Except Halt (Option U128) :=
  if h ≠ 0 then do
    let (c, overflow) ← wideningMulU128 a b
    return if overflow ≠ 0 then none else some c
  else return some 0

/-- `checked_mul`. -/
def checkedMul (x y : U256) : Except Halt (Option U256) := do
  if x.hi ≠ 0 ∧ y.hi ≠ 0 then return none
  let (prodLo, prodHi) ← wideningMulU128 x.lo y.lo
  let some cross₁ ← cross y.hi x.lo y.hi | return none
  let some cross₂ ← cross x.hi x.hi y.lo | return none
  let some hi := Wide.checkedAdd prodHi cross₁ | return none
  let some hi := Wide.checkedAdd hi cross₂ | return none
  return some (new prodLo hi)

/-- `saturating_sub`. -/
def saturatingSub (x y : U256) : U256 := (x.checkedSub y).getD ZERO

/-- `shl`. -/
def shl (x : U256) (bits : Nat) : U256 :=
  if 256 ≤ bits then ZERO
  else if bits = 0 then x
  else if 128 ≤ bits then new 0 (x.lo <<< (bits - 128))
  else new (x.lo <<< bits) (x.hi <<< bits ||| x.lo >>> (128 - bits))

/-- `shr`. -/
def shr (x : U256) (bits : Nat) : U256 :=
  if 256 ≤ bits then ZERO
  else if bits = 0 then x
  else if 128 ≤ bits then new (x.hi >>> (bits - 128)) 0
  else new (x.lo >>> bits ||| x.hi <<< (128 - bits)) (x.hi >>> bits)

/-- `bitor`. -/
def bitor (x y : U256) : U256 := new (x.lo ||| y.lo) (x.hi ||| y.hi)

/-- `Ord::cmp`: the high words decide, then the low ones. -/
def lt (x y : U256) : Bool := decide (x.hi < y.hi ∨ (x.hi = y.hi ∧ x.lo < y.lo))

/-! ### Values -/

/-- The number that a `U256` stands for. -/
def value (x : U256) : Nat := x.lo.toNat + 2 ^ 128 * x.hi.toNat

/-- Two limbs as one word. -/
theorem toNat_pair (a b : U64) :
    (a.setWidth 128 ||| b.setWidth 128 <<< 64 : U128).toNat = a.toNat + 2 ^ 64 * b.toNat := by
  have ha := a.isLt
  have hb := b.isLt
  rw [BitVec.toNat_or, BitVec.toNat_shiftLeft, BitVec.toNat_setWidth, BitVec.toNat_setWidth,
    Nat.mod_eq_of_lt (by omega : a.toNat < 2 ^ 128), Nat.mod_eq_of_lt (by omega : b.toNat < 2 ^ 128),
    Nat.shiftLeft_eq, Nat.mod_eq_of_lt (by omega : b.toNat * 2 ^ 64 < 2 ^ 128), Nat.or_comm,
    Nat.mul_comm, ← Nat.two_pow_add_eq_or_of_lt ha, Nat.add_comm]

theorem toNat_lo (x : U256) : x.lo.toNat = x.limb0.toNat + 2 ^ 64 * x.limb1.toNat :=
  toNat_pair _ _

theorem toNat_hi (x : U256) : x.hi.toNat = x.limb2.toNat + 2 ^ 64 * x.limb3.toNat :=
  toNat_pair _ _

@[simp] theorem lo_new (lo hi : U128) : (new lo hi).lo = lo := by
  have h := lo.isLt
  apply BitVec.eq_of_toNat_eq
  rw [toNat_lo]
  simp only [new, BitVec.toNat_setWidth, BitVec.toNat_ushiftRight, Nat.shiftRight_eq_div_pow]
  omega

@[simp] theorem hi_new (lo hi : U128) : (new lo hi).hi = hi := by
  have h := hi.isLt
  apply BitVec.eq_of_toNat_eq
  rw [toNat_hi]
  simp only [new, BitVec.toNat_setWidth, BitVec.toNat_ushiftRight, Nat.shiftRight_eq_div_pow]
  omega

@[simp] theorem value_new (lo hi : U128) : (new lo hi).value = lo.toNat + 2 ^ 128 * hi.toNat := by
  rw [value, lo_new, hi_new]

@[simp] theorem value_fromU128 (v : U128) : (fromU128 v).value = v.toNat := by
  simp [fromU128]

@[simp] theorem value_zero : ZERO.value = 0 := rfl

@[simp] theorem value_one : ONE.value = 1 := rfl

theorem value_lt (x : U256) : x.value < 2 ^ 256 := by
  have hl := x.lo.isLt
  have hh := x.hi.isLt
  unfold value
  omega

theorem value_inj {x y : U256} (h : x.value = y.value) : x = y := by
  have x0 := x.limb0.isLt
  have x1 := x.limb1.isLt
  have x2 := x.limb2.isLt
  have y0 := y.limb0.isLt
  have y1 := y.limb1.isLt
  have y2 := y.limb2.isLt
  simp only [value, toNat_lo, toNat_hi] at h
  obtain ⟨a, b, c, d⟩ := x
  obtain ⟨a', b', c', d'⟩ := y
  simp only [U256.mk.injEq, ← BitVec.toNat_inj] at *
  omega

theorem isZero_iff (x : U256) : x.isZero = true ↔ x.value = 0 := by
  have hl := toNat_lo x
  have hh := toNat_hi x
  simp only [isZero, decide_eq_true_eq, ← BitVec.toNat_inj, value]
  simp only [BitVec.ofNat_eq_ofNat, BitVec.toNat_ofNat, Nat.zero_mod]
  omega

theorem lt_iff (x y : U256) : lt x y = true ↔ x.value < y.value := by
  have hx := x.lo.isLt
  have hy := y.lo.isLt
  simp only [lt, decide_eq_true_eq, BitVec.lt_def, ← BitVec.toNat_inj, value]
  omega

theorem tryIntoU128_spec (x : U256) :
    x.tryIntoU128.map BitVec.toNat = Percolator.U256.tryIntoU128 x.value := by
  have hl := x.lo.isLt
  have hh := toNat_hi x
  unfold tryIntoU128 Percolator.U256.tryIntoU128
  have small : (x.limb2 = 0 ∧ x.limb3 = 0) ↔ x.value ≤ U128_MAX := by
    simp only [← BitVec.toNat_inj, value, U128_MAX, BitVec.ofNat_eq_ofNat, BitVec.toNat_ofNat,
      Nat.zero_mod]
    omega
  by_cases h : x.limb2 = 0 ∧ x.limb3 = 0
  · rw [if_pos h, if_pos (small.mp h), Option.map_some]
    have := small.mp h
    simp only [value, U128_MAX] at this ⊢
    congr 1
    omega
  · rw [if_neg h, if_neg fun hc => h (small.mpr hc), Option.map_none]

theorem checkedAdd_spec (x y : U256) :
    (x.checkedAdd y).map value = Percolator.U256.checkedAdd x.value y.value := by
  have hlo := addU128Carry_spec x.lo y.lo false
  have hhi := addU128Carry_spec x.hi y.hi (addU128Carry x.lo y.lo false).2
  have hbound := (addU128Carry x.hi y.hi (addU128Carry x.lo y.lo false).2).1.isLt
  have hlow := (addU128Carry x.lo y.lo false).1.isLt
  have sum : (addU128Carry x.lo y.lo false).1.toNat +
      2 ^ 128 * (addU128Carry x.hi y.hi (addU128Carry x.lo y.lo false).2).1.toNat +
      2 ^ 256 * (addU128Carry x.hi y.hi (addU128Carry x.lo y.lo false).2).2.toNat =
      x.value + y.value := by
    rw [Bool.toNat_false] at hlo
    unfold value
    omega
  unfold checkedAdd Percolator.U256.checkedAdd
  cases h : (addU128Carry x.hi y.hi (addU128Carry x.lo y.lo false).2).2 <;> rw [h] at sum
  · rw [Bool.toNat_false] at sum
    simp only [h, Bool.false_eq_true, if_false, Option.map_some, value_new]
    rw [if_pos (by unfold U256_MAX; omega), ← sum]
    rfl
  · rw [Bool.toNat_true] at sum
    simp only [h, if_true, Option.map_none]
    rw [if_neg (by unfold U256_MAX; omega)]

theorem checkedSub_spec (x y : U256) :
    (x.checkedSub y).map value = Percolator.checkedSub x.value y.value := by
  have hlo := subU128Borrow_spec x.lo y.lo false
  have hhi := subU128Borrow_spec x.hi y.hi (subU128Borrow x.lo y.lo false).2
  have hbound := (subU128Borrow x.hi y.hi (subU128Borrow x.lo y.lo false).2).1.isLt
  have hlow := (subU128Borrow x.lo y.lo false).1.isLt
  have difference : (subU128Borrow x.lo y.lo false).1.toNat +
      2 ^ 128 * (subU128Borrow x.hi y.hi (subU128Borrow x.lo y.lo false).2).1.toNat + y.value =
      x.value + 2 ^ 256 * (subU128Borrow x.hi y.hi (subU128Borrow x.lo y.lo false).2).2.toNat := by
    rw [Bool.toNat_false] at hlo
    unfold value
    omega
  unfold checkedSub Percolator.checkedSub
  cases h : (subU128Borrow x.hi y.hi (subU128Borrow x.lo y.lo false).2).2 <;> rw [h] at difference
  · rw [Bool.toNat_false] at difference
    simp only [h, Bool.false_eq_true, if_false, Option.map_some, value_new]
    rw [if_pos (by omega)]
    congr 1
    omega
  · rw [Bool.toNat_true] at difference
    simp only [h, if_true, Option.map_none]
    rw [if_neg (by omega)]

theorem saturatingSub_value (x y : U256) : (x.saturatingSub y).value = x.value - y.value := by
  have h := checkedSub_spec x y
  unfold saturatingSub
  cases hs : x.checkedSub y with
  | none =>
      rw [hs] at h
      simp only [Percolator.checkedSub, Option.map_none] at h
      split at h
      · cases h
      · simp only [Option.getD_none, value_zero]
        omega
  | some z =>
      rw [hs] at h
      simp only [Percolator.checkedSub, Option.map_some] at h
      split at h
      · exact Option.some.inj h
      · cases h

theorem cross_spec {h a b : U128} (zero : h = 0 → a.toNat * b.toNat = 0) :
    ∃ r, cross h a b = .ok r ∧
      r.map BitVec.toNat =
        if a.toNat * b.toNat < 2 ^ 128 then some (a.toNat * b.toNat) else none := by
  unfold cross
  by_cases hh : h = 0
  · refine ⟨some 0, if_neg fun hc => hc hh, ?_⟩
    rw [zero hh]
    rfl
  · obtain ⟨lo, hi, e, v⟩ := wideningMulU128_spec a b
    have hlo := lo.isLt
    rw [if_pos hh, e]
    by_cases hz : hi = 0
    · refine ⟨some lo, by simp [hz, bind, Except.bind, pure, Except.pure], ?_⟩
      rw [hz] at v
      simp only [BitVec.ofNat_eq_ofNat, BitVec.toNat_ofNat, Nat.zero_mod] at v
      rw [if_pos (by omega), Option.map_some]
      congr 1
    · refine ⟨none, by simpa [bind, Except.bind, pure, Except.pure] using hz, ?_⟩
      have : hi.toNat ≠ 0 := fun h0 => hz (BitVec.eq_of_toNat_eq h0)
      rw [if_neg (by omega), Option.map_none]

/-- `checked_mul` is the checked product: with one high word zero the two cross
products and the high word of the low product add up to the high word. -/
theorem checkedMul_spec (x y : U256) :
    ∃ r, x.checkedMul y = .ok r ∧ r.map value = Percolator.U256.checkedMul x.value y.value := by
  have product : x.value * y.value = x.lo.toNat * y.lo.toNat +
      2 ^ 128 * (x.lo.toNat * y.hi.toNat + x.hi.toNat * y.lo.toNat) +
      2 ^ 256 * (x.hi.toNat * y.hi.toNat) := by
    unfold value
    ring
  unfold checkedMul Percolator.U256.checkedMul
  by_cases both : x.hi ≠ 0 ∧ y.hi ≠ 0
  · have hx : x.hi.toNat ≠ 0 := fun h0 => both.1 (BitVec.eq_of_toNat_eq h0)
    have hy : y.hi.toNat ≠ 0 := fun h0 => both.2 (BitVec.eq_of_toNat_eq h0)
    have := Nat.mul_pos (Nat.pos_of_ne_zero hx) (Nat.pos_of_ne_zero hy)
    refine ⟨none, by rw [if_pos both]; rfl, ?_⟩
    rw [if_neg (by unfold U256_MAX; omega), Option.map_none]
  · have none_high : x.hi.toNat * y.hi.toNat = 0 := by
      rcases Classical.not_and_iff_not_or_not.mp both with h | h <;>
        simp [Classical.not_not.mp h]
    rw [none_high] at product
    obtain ⟨lo, hi, e, v⟩ := wideningMulU128_spec x.lo y.lo
    obtain ⟨r₁, e₁, v₁⟩ := cross_spec (h := y.hi) (a := x.lo) (b := y.hi) (fun h => by simp [h])
    obtain ⟨r₂, e₂, v₂⟩ := cross_spec (h := x.hi) (a := x.hi) (b := y.lo) (fun h => by simp [h])
    have hlo := lo.isLt
    simp only [if_neg both, e, e₁, e₂, bind, Except.bind, pure, Except.pure]
    cases r₁ with
    | none =>
        refine ⟨none, rfl, ?_⟩
        split at v₁
        · cases v₁
        · rw [if_neg (by unfold U256_MAX; omega), Option.map_none]
    | some c₁ =>
    cases r₂ with
    | none =>
        refine ⟨none, rfl, ?_⟩
        split at v₂
        · cases v₂
        · rw [if_neg (by unfold U256_MAX; omega), Option.map_none]
    | some c₂ =>
    have hc₁ : c₁.toNat = x.lo.toNat * y.hi.toNat := by
      split at v₁
      · exact Option.some.inj v₁
      · cases v₁
    have hc₂ : c₂.toNat = x.hi.toNat * y.lo.toNat := by
      split at v₂
      · exact Option.some.inj v₂
      · cases v₂
    simp only
    rcases Nat.lt_or_ge (hi.toNat + c₁.toNat) (2 ^ 128) with h₁ | h₁
    · obtain ⟨f₁, w₁⟩ := checkedAdd_some h₁
      rcases Nat.lt_or_ge ((hi + c₁).toNat + c₂.toNat) (2 ^ 128) with h₂ | h₂
      · obtain ⟨f₂, w₂⟩ := checkedAdd_some h₂
        simp only [f₁, f₂]
        refine ⟨some (new lo (hi + c₁ + c₂)), rfl, ?_⟩
        rw [if_pos (by unfold U256_MAX; omega), Option.map_some, value_new]
        congr 1
        omega
      · simp only [f₁, checkedAdd_none h₂]
        refine ⟨none, rfl, ?_⟩
        rw [if_neg (by unfold U256_MAX; omega), Option.map_none]
    · simp only [checkedAdd_none h₁]
      refine ⟨none, rfl, ?_⟩
      rw [if_neg (by unfold U256_MAX; omega), Option.map_none]

end U256
end Wide
end Percolator
