import Mathlib.Algebra.Order.Ring.Int
import Mathlib.Tactic.Ring

/-!
Binary arithmetic on natural numbers: shifts of two-word numbers, and long
division, where shifted divisors are subtracted from a remainder, from the
highest shift down, and each success sets one bit of the quotient.
-/

namespace Percolator

/-! ### Two-word numbers -/

/-- A two-word number shifted left by the factor `p` of the radix `p * q`: the low
word keeps its low part, and its high part moves into the high word. -/
theorem words_shl (lo hi : Nat) {p q : Nat} (hp : 0 < p) (hq : 0 < q) (hlo : lo < p * q) :
    lo * p % (p * q) + p * q * (hi * p % (p * q) + lo / q) =
      (lo + p * q * hi) * p % (p * q * (p * q)) := by
  obtain ⟨u, v, hu, rfl⟩ : ∃ u v, u < q ∧ lo = q * v + u :=
    ⟨lo % q, lo / q, Nat.mod_lt _ hq, (Nat.div_add_mod lo q).symm⟩
  obtain ⟨w, z, hw, rfl⟩ : ∃ w z, w < q ∧ hi = q * z + w :=
    ⟨hi % q, hi / q, Nat.mod_lt _ hq, (Nat.div_add_mod hi q).symm⟩
  have hv : v < p := by
    by_contra h
    have := Nat.mul_le_mul_left q (Nat.le_of_not_lt h)
    rw [Nat.mul_comm q p] at this
    omega
  have low : (q * v + u) * p % (p * q) = p * u := by
    rw [show (q * v + u) * p = p * u + p * q * v by ring, Nat.add_mul_mod_self_left,
      Nat.mod_eq_of_lt (Nat.mul_lt_mul_of_pos_left hu hp)]
  have high : (q * z + w) * p % (p * q) = p * w := by
    rw [show (q * z + w) * p = p * w + p * q * z by ring, Nat.add_mul_mod_self_left,
      Nat.mod_eq_of_lt (Nat.mul_lt_mul_of_pos_left hw hp)]
  have quotient : (q * v + u) / q = v := by
    rw [Nat.mul_add_div hq, Nat.div_eq_of_lt hu, Nat.add_zero]
  have word : p * w + v + 1 ≤ p * q := by
    have := Nat.mul_le_mul_left p hw
    rw [Nat.mul_succ] at this
    omega
  have small : p * u < p * q := Nat.mul_lt_mul_of_pos_left hu hp
  have fits : p * u + p * q * (p * w + v) < p * q * (p * q) := by
    have := Nat.mul_le_mul_left (p * q) word
    rw [Nat.mul_succ] at this
    omega
  rw [low, high, quotient,
    show (q * v + u + p * q * (q * z + w)) * p =
      p * u + p * q * (p * w + v) + p * q * (p * q) * z by ring,
    Nat.add_mul_mod_self_left, Nat.mod_eq_of_lt fits]

/-- A two-word number shifted right by the factor `p` of the radix `p * q`. -/
theorem words_shr (lo hi : Nat) {p : Nat} (q : Nat) (hp : 0 < p) :
    lo / p + hi * q % (p * q) + p * q * (hi / p) = (lo + p * q * hi) / p := by
  have shifted : hi * q % (p * q) = q * (hi % p) := by
    rw [Nat.mul_comm hi, Nat.mul_comm p, Nat.mul_mod_mul_left]
  have whole : q * hi = q * (hi % p) + p * q * (hi / p) := by
    conv_lhs => rw [← Nat.mod_add_div hi p]
    ring
  rw [shifted, Nat.mul_assoc p q hi, Nat.add_mul_div_left _ _ hp, whole, Nat.add_assoc]

/-- The bits of two-word numbers are the bits of their words. -/
theorem or_words {a b : Nat} {x y n : Nat} (ha : a < 2 ^ n) (hb : b < 2 ^ n) :
    (a ||| b) + 2 ^ n * (x ||| y) = (a + 2 ^ n * x) ||| (b + 2 ^ n * y) := by
  rw [Nat.add_comm, Nat.add_comm a, Nat.add_comm b]
  apply Nat.eq_of_testBit_eq
  intro i
  rw [Nat.testBit_two_pow_mul_add _ (Nat.or_lt_two_pow ha hb), Nat.testBit_or, Nat.testBit_or,
    Nat.testBit_or, Nat.testBit_two_pow_mul_add _ ha, Nat.testBit_two_pow_mul_add _ hb]
  split <;> rfl
/-! ### Signs and magnitudes -/

/-- Numbers of different signs multiply to the negated product of the magnitudes. -/
theorem mul_of_signs_ne {a b : Int} (h : decide (a < 0) ≠ decide (b < 0)) :
    a * b = -((a.natAbs * b.natAbs : Nat) : Int) := by
  rw [Nat.cast_mul]
  rcases lt_or_ge a 0 with ha | ha <;> rcases lt_or_ge b 0 with hb | hb
  · simp [ha, hb] at h
  · rw [Int.ofNat_natAbs_of_nonpos ha.le, Int.natAbs_of_nonneg hb]
    ring
  · rw [Int.natAbs_of_nonneg ha, Int.ofNat_natAbs_of_nonpos hb.le]
    ring
  · simp [not_lt.mpr ha, not_lt.mpr hb] at h

/-- Numbers of one sign multiply to the product of the magnitudes. -/
theorem mul_of_signs_eq {a b : Int} (h : ¬ decide (a < 0) ≠ decide (b < 0)) :
    a * b = ((a.natAbs * b.natAbs : Nat) : Int) := by
  rw [Nat.cast_mul]
  rcases lt_or_ge a 0 with ha | ha <;> rcases lt_or_ge b 0 with hb | hb
  · rw [Int.ofNat_natAbs_of_nonpos ha.le, Int.ofNat_natAbs_of_nonpos hb.le]
    ring
  · simp [ha, not_lt.mpr hb] at h
  · simp [not_lt.mpr ha, hb] at h
  · rw [Int.natAbs_of_nonneg ha, Int.natAbs_of_nonneg hb]

/-! ### Long division -/

/-- The last `n` steps of the division by `d`, with the remainder and the
quotient so far. -/
def longDivide (d : Nat) : Nat → Nat → Nat → Nat × Nat
  | 0, rem, quo => (quo, rem)
  | n + 1, rem, quo =>
      if rem < d * 2 ^ n then longDivide d n rem quo
      else longDivide d n (rem - d * 2 ^ n) (quo + 2 ^ n)

/-- Long division is division: what is left of the remainder stays below the
divisor at the last shift. -/
theorem longDivide_eq {d : Nat} (hd : 0 < d) {n rem : Nat} (h : rem < d * 2 ^ n) (quo : Nat) :
    longDivide d n rem quo = (quo + rem / d, rem % d) := by
  induction n generalizing rem quo with
  | zero =>
      rw [Nat.pow_zero, Nat.mul_one] at h
      simp [longDivide, Nat.div_eq_of_lt h, Nat.mod_eq_of_lt h]
  | succ n ih =>
      rw [Nat.pow_succ, ← Nat.mul_assoc] at h
      unfold longDivide
      split
      · rename_i hlt
        exact ih hlt quo
      · rename_i hge
        obtain ⟨r, rfl⟩ := Nat.exists_eq_add_of_le (Nat.le_of_not_lt hge)
        rw [Nat.add_sub_cancel_left, ih (by omega), Nat.add_comm (d * 2 ^ n),
          Nat.add_mul_div_left _ _ hd, Nat.add_mul_mod_self_left, Nat.add_assoc, Nat.add_comm (2 ^ n)]

/-- What a division loop over numbers of a type `W` does at each bit: it leaves the
remainder when the divisor does not go in, and otherwise subtracts the divisor
and sets the bit; either way it halves the divisor. -/
structure DividesBitwise {W : Type} (value : W → Nat) (width : Nat) (sub : W → W → W)
    (setBit : W → Nat → W) (half : W → W) (loop : Nat → W → W → W → W × W) : Prop where
  done : ∀ rem quo div, loop 0 rem quo div = (quo, rem)
  skip : ∀ n rem quo div, value rem < value div →
    loop (n + 1) rem quo div = loop n rem quo (half div)
  take : ∀ n rem quo div, value div ≤ value rem →
    loop (n + 1) rem quo div = loop n (sub rem div) (setBit quo n) (half div)
  sub_value : ∀ rem div, value div ≤ value rem → value (sub rem div) = value rem - value div
  set_value : ∀ quo n, n < width → 2 ^ (n + 1) ∣ value quo → value (setBit quo n) = value quo + 2 ^ n
  half_value : ∀ div, value (half div) = value div / 2

/-- Such a loop follows long division: the divisor is `d` shifted by the bit in hand,
and the bits of the quotient from there down are still clear. -/
theorem DividesBitwise.loop_value {W : Type} {value : W → Nat} {width : Nat} {sub : W → W → W}
    {setBit : W → Nat → W} {half : W → W} {loop : Nat → W → W → W → W × W}
    (h : DividesBitwise value width sub setBit half loop) (d : Nat) {n : Nat} (rem : W) {quo div : W}
    (hn : n ≤ width) (hdiv : 0 < n → value div = d * 2 ^ (n - 1)) (clear : 2 ^ n ∣ value quo) :
    (value (loop n rem quo div).1, value (loop n rem quo div).2) =
      longDivide d n (value rem) (value quo) := by
  induction n generalizing rem quo div with
  | zero => rw [h.done, longDivide]
  | succ n ih =>
      have hd : value div = d * 2 ^ n := hdiv (Nat.succ_pos n)
      have next : 0 < n → value (half div) = d * 2 ^ (n - 1) := by
        intro hpos
        obtain ⟨m, rfl⟩ := Nat.exists_eq_succ_of_ne_zero (Nat.pos_iff_ne_zero.mp hpos)
        rw [h.half_value, hd, Nat.pow_succ, ← Nat.mul_assoc, Nat.mul_div_cancel _ (by omega)]
        rfl
      have lower : 2 ^ n ∣ value quo := dvd_trans (pow_dvd_pow 2 (Nat.le_succ n)) clear
      unfold longDivide
      split
      · rename_i below
        rw [h.skip n rem quo div (by rw [hd]; exact below)]
        exact ih rem (by omega) next lower
      · rename_i above
        have goes : value div ≤ value rem := by
          rw [hd]
          exact Nat.le_of_not_lt above
        have bit := h.set_value quo n (by omega) clear
        rw [h.take n rem quo div goes, ← hd, ← h.sub_value rem div goes, ← bit]
        apply ih (sub rem div) (by omega) next
        rw [bit]
        exact Nat.dvd_add lower (dvd_refl _)

/-- Started on a clear quotient at a shift that takes the divisor past the number, the
loop divides. -/
theorem DividesBitwise.divides {W : Type} {value : W → Nat} {width : Nat} {sub : W → W → W}
    {setBit : W → Nat → W} {half : W → W} {loop : Nat → W → W → W → W × W}
    (h : DividesBitwise value width sub setBit half loop) {d shift : Nat} {num quo div : W}
    (hd : 0 < d) (within : shift < width) (clear : value quo = 0)
    (shifted : value div = d * 2 ^ shift) (reach : value num < d * 2 ^ (shift + 1)) :
    value (loop (shift + 1) num quo div).1 = value num / d ∧
      value (loop (shift + 1) num quo div).2 = value num % d := by
  have run := h.loop_value d (n := shift + 1) num within
    (fun _ => shifted) (by rw [clear]; exact Nat.dvd_zero _)
  rw [longDivide_eq hd reach, clear, Nat.zero_add] at run
  exact ⟨congrArg Prod.fst run, congrArg Prod.snd run⟩

/-! ### Leading zeros -/

/-- Of `width` bits, the `z` highest of `v` are zero and the next one is not. -/
structure LeadingZeros (width z v : Nat) : Prop where
  fewer : z < width
  lower : 2 ^ (width - 1 - z) ≤ v
  upper : v < 2 ^ (width - z)

variable {width zn zd n d : Nat}

/-- A larger number has no more leading zeros. -/
theorem LeadingZeros.order (hn : LeadingZeros width zn n) (hd : LeadingZeros width zd d)
    (hle : d ≤ n) : zn ≤ zd := by
  by_contra hlt
  have := hn.fewer
  have := hn.upper
  have := hd.lower
  have := Nat.pow_le_pow_right (n := 2) (by omega) (show width - zn ≤ width - 1 - zd by omega)
  omega

/-- Shifted by the difference of the leading zeros, the divisor still fits, and one
place further it is past the number. -/
theorem LeadingZeros.aligned (hn : LeadingZeros width zn n) (hd : LeadingZeros width zd d)
    (order : zn ≤ zd) :
    d * 2 ^ (zd - zn) < 2 ^ width ∧ n < d * 2 ^ (zd - zn + 1) := by
  have few := hd.fewer
  constructor
  · calc d * 2 ^ (zd - zn) < 2 ^ (width - zd) * 2 ^ (zd - zn) :=
          Nat.mul_lt_mul_of_pos_right hd.upper (Nat.two_pow_pos _)
      _ = 2 ^ (width - zn) := by
          rw [← Nat.pow_add]
          congr 1
          omega
      _ ≤ 2 ^ width := Nat.pow_le_pow_right (by omega) (by omega)
  · calc n < 2 ^ (width - zn) := hn.upper
      _ = 2 ^ (width - 1 - zd) * 2 ^ (zd - zn + 1) := by
          rw [← Nat.pow_add]
          congr 1
          omega
      _ ≤ d * 2 ^ (zd - zn + 1) := Nat.mul_le_mul_right _ hd.lower

end Percolator
