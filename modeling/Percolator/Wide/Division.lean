import Percolator.Base.Binary
import Percolator.Wide.U256

/-!
`div_rem_u256`: binary long division on `U256` values, and that it is division.
-/

namespace Percolator
namespace Wide

/-- `leading_zeros_u256`. -/
def leadingZerosU256 (v : U256) : Nat :=
  if v.hi ≠ 0 then v.hi.clz.toNat else 128 + v.lo.clz.toNat

/-- The `while` loop of `div_rem_u256`, with `n` bits still to go. -/
def divRemLoop : Nat → U256 → U256 → U256 → U256 × U256
  | 0, remainder, quotient, _ => (quotient, remainder)
  | n + 1, remainder, quotient, divisor =>
      if U256.lt remainder divisor then divRemLoop n remainder quotient (divisor.shr 1)
      else
        divRemLoop n (remainder.saturatingSub divisor) (quotient.bitor (U256.ONE.shl n))
          (divisor.shr 1)

/-- `div_rem_u256`. -/
def divRemU256 (num den : U256) : Except Halt (U256 × U256) :=
  if den.isZero then .error .panic
  else if num.isZero then .ok (U256.ZERO, U256.ZERO)
  else if U256.lt num den then .ok (U256.ZERO, num)
  else if num.hi = 0 ∧ den.hi = 0 then
    .ok (U256.fromU128 (num.lo / den.lo), U256.fromU128 (num.lo % den.lo))
  else if leadingZerosU256 den < leadingZerosU256 num then .error .panic
  else
    let shift := leadingZerosU256 den - leadingZerosU256 num
    .ok (divRemLoop (shift + 1) num U256.ZERO (den.shl shift))

/-! ### Shifts and bits -/

theorem U256.bitor_value (x y : U256) : (x.bitor y).value = x.value ||| y.value := by
  rw [U256.bitor, U256.value_new, BitVec.toNat_or, BitVec.toNat_or, or_words x.lo.isLt y.lo.isLt]
  rfl

theorem radix_split {n : Nat} (hn : n < 128) : 2 ^ n * 2 ^ (128 - n) = 2 ^ 128 := by
  rw [← Nat.pow_add]
  congr 1
  omega

/-- A word shifted left, with the high bits of the word below it moved in. -/
theorem toNat_shl_or (x y : U128) {n : Nat} (hn : n < 128) :
    (x <<< n ||| y >>> (128 - n)).toNat =
      x.toNat * 2 ^ n % 2 ^ 128 + y.toNat / 2 ^ (128 - n) := by
  have radix := radix_split hn
  have moved : y.toNat / 2 ^ (128 - n) < 2 ^ n :=
    Nat.div_lt_of_lt_mul (by rw [Nat.mul_comm, radix]; exact y.isLt)
  rw [BitVec.toNat_or, BitVec.toNat_shiftLeft, BitVec.toNat_ushiftRight, Nat.shiftLeft_eq,
    Nat.shiftRight_eq_div_pow, ← radix, Nat.mul_comm x.toNat, Nat.mul_mod_mul_left,
    ← Nat.two_pow_add_eq_or_of_lt moved]

/-- A word shifted right, with the low bits of the word above it moved in. -/
theorem toNat_shr_or (x y : U128) {n : Nat} (hn : n < 128) :
    (x >>> n ||| y <<< (128 - n)).toNat =
      x.toNat / 2 ^ n + y.toNat * 2 ^ (128 - n) % 2 ^ 128 := by
  have radix := radix_split hn
  have kept : x.toNat / 2 ^ n < 2 ^ (128 - n) :=
    Nat.div_lt_of_lt_mul (by rw [radix]; exact x.isLt)
  rw [BitVec.toNat_or, BitVec.toNat_shiftLeft, BitVec.toNat_ushiftRight, Nat.shiftLeft_eq,
    Nat.shiftRight_eq_div_pow, ← radix, Nat.mul_comm y.toNat, Nat.mul_comm (2 ^ n),
    Nat.mul_mod_mul_left, Nat.or_comm, ← Nat.two_pow_add_eq_or_of_lt kept, Nat.add_comm]

theorem U256.shl_value (x : U256) {n : Nat} (hn : n < 256) :
    (x.shl n).value = x.value * 2 ^ n % 2 ^ 256 := by
  unfold U256.shl
  rw [if_neg (by omega)]
  split
  · rename_i h0
    rw [h0, Nat.pow_zero, Nat.mul_one, Nat.mod_eq_of_lt x.value_lt]
  split
  · rename_i h
    obtain ⟨k, rfl⟩ := Nat.exists_eq_add_of_le h
    have whole : x.value * 2 ^ (128 + k) =
        2 ^ 128 * (x.lo.toNat * 2 ^ k) + 2 ^ 128 * 2 ^ 128 * (x.hi.toNat * 2 ^ k) := by
      rw [U256.value, Nat.pow_add]
      ring
    rw [whole, show (2 : Nat) ^ 256 = 2 ^ 128 * 2 ^ 128 from Nat.pow_add 2 128 128,
      Nat.add_mul_mod_self_left, Nat.mul_mod_mul_left, U256.value_new, Nat.add_sub_cancel_left,
      BitVec.toNat_shiftLeft, Nat.shiftLeft_eq]
    simp
  · rename_i h
    have radix := radix_split (n := n) (by omega)
    have := words_shl x.lo.toNat x.hi.toNat (Nat.two_pow_pos n) (Nat.two_pow_pos (128 - n))
      (by rw [radix]; exact x.lo.isLt)
    rw [radix] at this
    rw [U256.value_new, toNat_shl_or _ _ (by omega), BitVec.toNat_shiftLeft, Nat.shiftLeft_eq]
    exact this

theorem U256.shr_value (x : U256) {n : Nat} (hn : n < 256) : (x.shr n).value = x.value / 2 ^ n := by
  have hlo := x.lo.isLt
  unfold U256.shr
  rw [if_neg (by omega)]
  split
  · rename_i h0
    rw [h0, Nat.pow_zero, Nat.div_one]
  split
  · rename_i h
    obtain ⟨k, rfl⟩ := Nat.exists_eq_add_of_le h
    rw [U256.value_new, Nat.add_sub_cancel_left, BitVec.toNat_ushiftRight,
      Nat.shiftRight_eq_div_pow, Nat.pow_add, ← Nat.div_div_eq_div_mul, U256.value,
      Nat.add_mul_div_left _ _ (Nat.two_pow_pos 128), Nat.div_eq_of_lt hlo]
    simp
  · rename_i h
    have := words_shr x.lo.toNat x.hi.toNat (2 ^ (128 - n)) (Nat.two_pow_pos n)
    rw [radix_split (by omega)] at this
    rw [U256.value_new, toNat_shr_or _ _ (by omega), BitVec.toNat_ushiftRight,
      Nat.shiftRight_eq_div_pow]
    exact this

/-- The leading zeros of a number are those of its highest word that is not zero,
after the words above it. -/
theorem clz_above {low k z width : Nat} {w : U128} (hlow : low < 2 ^ k) (hw : w ≠ 0)
    (hwidth : k + 128 ≤ width) (hz : z = width - (k + 128) + w.clz.toNat) :
    LeadingZeros width z (low + 2 ^ k * w.toNat) := by
  have zeros : w.clz.toNat < 128 := BitVec.lt_def.mp (BitVec.clz_lt_iff_ne_zero.mpr hw)
  have above := BitVec.two_pow_sub_clz_le_toNat_of_ne_zero (by omega) hw
  have below := BitVec.toNat_lt_two_pow_sub_clz (x := w)
  have lower := Nat.mul_le_mul_left (2 ^ k) above
  have upper := Nat.mul_le_mul_left (2 ^ k) (Nat.succ_le_of_lt below)
  rw [← Nat.pow_add] at lower upper
  rw [Nat.mul_succ] at upper
  constructor
  · omega
  · rw [show width - 1 - z = k + (128 - 1 - w.clz.toNat) from by omega]
    exact Nat.le_trans lower (Nat.le_add_left _ _)
  · rw [show width - z = k + (128 - w.clz.toNat) from by omega]
    omega

theorem leadingZerosU256_spec {v : U256} (h : v.value ≠ 0) :
    LeadingZeros 256 (leadingZerosU256 v) v.value := by
  unfold leadingZerosU256
  by_cases hi : v.hi = 0
  · rw [if_neg (not_not.mpr hi)]
    have value : v.value = 0 + 2 ^ 0 * v.lo.toNat := by
      rw [U256.value, hi, toNat_zero]
      omega
    have nonzero : v.lo ≠ 0 := by
      intro h0
      rw [value, h0, toNat_zero] at h
      exact h rfl
    rw [value]
    exact clz_above (by omega) nonzero (by omega) (by omega)
  · rw [if_pos hi]
    exact clz_above (k := 128) v.lo.isLt hi (by omega) (by omega)

/-! ### The loop -/

/-- The loop of `div_rem_u256` divides bit by bit. -/
theorem divRemLoop_divides : DividesBitwise U256.value 256 U256.saturatingSub
    (fun quotient n => quotient.bitor (U256.ONE.shl n)) (fun divisor => divisor.shr 1)
    divRemLoop where
  done := by
    intro rem quo div
    rfl
  skip := by
    intro n rem quo div below
    exact if_pos ((U256.lt_iff rem div).mpr below)
  take := by
    intro n rem quo div goes
    exact if_neg fun below => Nat.not_lt.mpr goes ((U256.lt_iff rem div).mp below)
  sub_value := by
    intro rem div _
    exact U256.saturatingSub_value rem div
  set_value := by
    rintro quo n hn ⟨m, hm⟩
    have one : (U256.ONE.shl n).value = 2 ^ n := by
      rw [U256.shl_value _ hn, U256.value_one, Nat.one_mul,
        Nat.mod_eq_of_lt (Nat.pow_lt_pow_right (by omega) hn)]
    rw [U256.bitor_value, one, hm,
      ← Nat.two_pow_add_eq_or_of_lt (Nat.pow_lt_pow_right (by omega) (Nat.lt_succ_self n))]
  half_value := by
    intro div
    rw [U256.shr_value _ (by omega), Nat.pow_one]

/-- `div_rem_u256` divides, whatever its operands, and panics on a zero divisor
only. -/
theorem divRemU256_spec (num : U256) {den : U256} (hden : den.value ≠ 0) :
    ∃ q r, divRemU256 num den = .ok (q, r) ∧ q.value = num.value / den.value ∧
      r.value = num.value % den.value := by
  unfold divRemU256
  rw [if_neg fun h => hden ((U256.isZero_iff den).mp h)]
  by_cases zero : num.isZero = true
  · have hnum := (U256.isZero_iff num).mp zero
    refine ⟨U256.ZERO, U256.ZERO, if_pos zero, ?_, ?_⟩
    · rw [hnum, Nat.zero_div, U256.value_zero]
    · rw [hnum, Nat.zero_mod, U256.value_zero]
  rw [if_neg zero]
  by_cases below : U256.lt num den = true
  · have hlt := (U256.lt_iff num den).mp below
    refine ⟨U256.ZERO, num, if_pos below, ?_, ?_⟩
    · rw [Nat.div_eq_of_lt hlt, U256.value_zero]
    · rw [Nat.mod_eq_of_lt hlt]
  rw [if_neg below]
  by_cases narrow : num.hi = 0 ∧ den.hi = 0
  · refine ⟨_, _, if_pos narrow, ?_, ?_⟩
    · simp [U256.value, U256.fromU128, narrow.1, narrow.2]
    · simp [U256.value, U256.fromU128, narrow.1, narrow.2]
  rw [if_neg narrow]
  have hge : den.value ≤ num.value := Nat.le_of_not_lt fun h => below ((U256.lt_iff num den).mpr h)
  have zn := leadingZerosU256_spec (v := num) (by omega)
  have zd := leadingZerosU256_spec hden
  have order := zn.order zd hge
  have few := zd.fewer
  obtain ⟨fits, reach⟩ := zn.aligned zd order
  rw [if_neg (Nat.not_lt.mpr order)]
  refine ⟨_, _, rfl, divRemLoop_divides.divides (Nat.pos_of_ne_zero hden) (by omega)
    U256.value_zero ?_ reach⟩
  rw [U256.shl_value _ (by omega), Nat.mod_eq_of_lt fits]

end Wide
end Percolator
