import Mathlib.Tactic.LinearCombination
import Percolator.Wide.Division

/-!
`U512`: four little-endian `u128` words, the intermediate of the `mul_div`
operations, and that multiplying into it and dividing out of it is exact.

The loops of the source that run over the four words are written out; the one
that runs over the bits of the quotient is a recursion on the bits still to go.
-/

namespace Percolator
namespace Wide

/-- `U512`. -/
structure U512 where
  word0 : U128
  word1 : U128
  word2 : U128
  word3 : U128
deriving DecidableEq, Repr

namespace U512

/-- The array read at `i`. -/
def word (x : U512) : Nat → U128
  | 0 => x.word0
  | 1 => x.word1
  | 2 => x.word2
  | 3 => x.word3
  | _ => 0

/-- The array whose word at `i` is `f i`. -/
def ofWords (f : Nat → U128) : U512 := ⟨f 0, f 1, f 2, f 3⟩

def ZERO : U512 := ⟨0, 0, 0, 0⟩

/-- `is_zero`. -/
def isZero (x : U512) : Bool :=
  decide (x.word0 = 0 ∧ x.word1 = 0 ∧ x.word2 = 0 ∧ x.word3 = 0)

/-- `from_u256`. -/
def fromU256 (v : U256) : U512 := ⟨v.lo, v.hi, 0, 0⟩

/-- `mul_u256`. -/
def mulU256 (a b : U256) : Except Halt U512 := do
  let (r₀, c₀) ← wideningMulU128 a.lo b.lo
  let (x₁, x₂) ← wideningMulU128 a.lo b.hi
  let (y₁, y₂) ← wideningMulU128 a.hi b.lo
  let (z₂, z₃) ← wideningMulU128 a.hi b.hi
  let (r₁, carry1a) := overflowingAdd c₀ x₁
  let (r₁, carry1b) := overflowingAdd r₁ y₁
  let carry₁ ← plus (ofFlag carry1a) (ofFlag carry1b)
  let (r₂, carry2a) := overflowingAdd x₂ y₂
  let (r₂, carry2b) := overflowingAdd r₂ z₂
  let (r₂, carry2c) := overflowingAdd r₂ carry₁
  let carry₂ ← plus (ofFlag carry2a) (ofFlag carry2b)
  let carry₂ ← plus carry₂ (ofFlag carry2c)
  let r₃ ← plus z₃ carry₂
  return ⟨r₀, r₁, r₂, r₃⟩

/-- `cmp_u512`: the highest words that differ decide. -/
def cmpU512 (x y : U512) : Ordering :=
  (compare x.word3.toNat y.word3.toNat).then
    ((compare x.word2.toNat y.word2.toNat).then
      ((compare x.word1.toNat y.word1.toNat).then (compare x.word0.toNat y.word0.toNat)))

/-- `shl_u512`. -/
def shlU512 (x : U512) (bits : Nat) : U512 :=
  if 512 ≤ bits then ZERO
  else if bits = 0 then x
  else
    let wordShift := bits / 128
    let bitShift := bits % 128
    ofWords fun i =>
      if i < wordShift then 0
      else if 0 < bitShift ∧ wordShift < i then
        x.word (i - wordShift) <<< bitShift ||| x.word (i - wordShift - 1) >>> (128 - bitShift)
      else x.word (i - wordShift) <<< bitShift

/-- `shr_u512`. -/
def shrU512 (x : U512) (bits : Nat) : U512 :=
  if 512 ≤ bits then ZERO
  else if bits = 0 then x
  else
    let wordShift := bits / 128
    let bitShift := bits % 128
    ofWords fun i =>
      if 4 - wordShift ≤ i then 0
      else if 0 < bitShift ∧ i + wordShift + 1 < 4 then
        x.word (i + wordShift) >>> bitShift ||| x.word (i + wordShift + 1) <<< (128 - bitShift)
      else x.word (i + wordShift) >>> bitShift

/-- `sub_u512`; the borrow out of the last word is dropped. -/
def subU512 (x y : U512) : U512 :=
  let (d₀, borrow) := subU128Borrow x.word0 y.word0 false
  let (d₁, borrow) := subU128Borrow x.word1 y.word1 borrow
  let (d₂, borrow) := subU128Borrow x.word2 y.word2 borrow
  let (d₃, _) := subU128Borrow x.word3 y.word3 borrow
  ⟨d₀, d₁, d₂, d₃⟩

/-- `set_bit`. -/
def setBit (x : U512) (bit : Nat) : U512 :=
  if 512 ≤ bit then x
  else ofWords fun i => if i = bit / 128 then x.word i ||| (1 : U128) <<< (bit % 128) else x.word i

/-- `leading_zeros`. -/
def leadingZeros (x : U512) : Nat :=
  if x.word3 ≠ 0 then x.word3.clz.toNat
  else if x.word2 ≠ 0 then 128 + x.word2.clz.toNat
  else if x.word1 ≠ 0 then 256 + x.word1.clz.toNat
  else if x.word0 ≠ 0 then 384 + x.word0.clz.toNat
  else 512

/-- `try_into_u256`. -/
def tryIntoU256 (x : U512) : Option U256 :=
  if x.word2 ≠ 0 ∨ x.word3 ≠ 0 then none else some (U256.new x.word0 x.word1)

/-- `try_into_u256().expect(..)`. -/
def expectU256 (x : U512) : Except Halt U256 :=
  match x.tryIntoU256 with
  | some r => .ok r
  | none => .error .panic

/-- The `while` loop of `checked_div_rem_by_u256`, with `n` bits still to go. -/
def divRemLoop : Nat → U512 → U512 → U512 → U512 × U512
  | 0, remainder, quotient, _ => (quotient, remainder)
  | n + 1, remainder, quotient, divisor =>
      if cmpU512 remainder divisor ≠ .lt then
        divRemLoop n (remainder.subU512 divisor) (quotient.setBit n) (divisor.shrU512 1)
      else divRemLoop n remainder quotient (divisor.shrU512 1)

/-- `checked_div_rem_by_u256`. -/
def checkedDivRemByU256 (x : U512) (den : U256) : Except Halt (Option (U256 × U256)) := do
  if den.isZero then throw .panic
  if x.isZero then return some (U256.ZERO, U256.ZERO)
  let den512 := fromU256 den
  if cmpU512 x den512 = .lt then
    let r ← x.expectU256
    return some (U256.ZERO, r)
  let numLz := x.leadingZeros
  let denLz := den512.leadingZeros
  if denLz < numLz then
    let r ← x.expectU256
    return some (U256.ZERO, r)
  let shift := denLz - numLz
  let (quotient, remainder) := divRemLoop (shift + 1) x ZERO (den512.shlU512 shift)
  let some q := quotient.tryIntoU256 | return none
  let r ← remainder.expectU256
  return some (q, r)

/-- `div_rem_by_u256`. -/
def divRemByU256 (x : U512) (den : U256) : Except Halt (U256 × U256) := do
  match ← x.checkedDivRemByU256 den with
  | some result => return result
  | none => throw .panic

end U512

/-- `mul_div_floor_u256_with_rem`. -/
def mulDivFloorU256WithRem (a b d : U256) : Except Halt (U256 × U256) := do
  if d.isZero then throw .panic
  let product ← U512.mulU256 a b
  product.divRemByU256 d

namespace U512

/-! ### Values -/

/-- The number that a `U512` stands for. -/
def value (x : U512) : Nat :=
  x.word0.toNat + 2 ^ 128 * (x.word1.toNat + 2 ^ 128 * (x.word2.toNat + 2 ^ 128 * x.word3.toNat))

theorem value_lt (x : U512) : x.value < 2 ^ 512 := by
  have h0 := x.word0.isLt
  have h1 := x.word1.isLt
  have h2 := x.word2.isLt
  have h3 := x.word3.isLt
  unfold value
  omega

@[simp] theorem value_zero : ZERO.value = 0 := rfl

@[simp] theorem value_fromU256 (v : U256) : (fromU256 v).value = v.value := by
  simp [fromU256, value, U256.value]

theorem isZero_iff (x : U512) : x.isZero = true ↔ x.value = 0 := by
  simp only [isZero, decide_eq_true_eq, ← toNat_eq_zero_iff, value]
  omega

theorem cmpU512_eq_lt (x y : U512) : cmpU512 x y = .lt ↔ x.value < y.value := by
  have x0 := x.word0.isLt
  have x1 := x.word1.isLt
  have x2 := x.word2.isLt
  have y0 := y.word0.isLt
  have y1 := y.word1.isLt
  have y2 := y.word2.isLt
  simp only [cmpU512, Ordering.then_eq_lt, Nat.compare_eq_lt, Nat.compare_eq_eq, value]
  omega

theorem tryIntoU256_some {x : U512} (h : x.value < 2 ^ 256) :
    ∃ r, x.tryIntoU256 = some r ∧ r.value = x.value := by
  have small : ¬ (x.word2 ≠ 0 ∨ x.word3 ≠ 0) := by
    simp only [ne_eq, ← toNat_eq_zero_iff]
    unfold value at h
    omega
  refine ⟨_, if_neg small, ?_⟩
  simp only [ne_eq, ← toNat_eq_zero_iff] at small
  rw [U256.value_new, value]
  omega

theorem tryIntoU256_none {x : U512} (h : 2 ^ 256 ≤ x.value) : x.tryIntoU256 = none := by
  have h0 := x.word0.isLt
  have h1 := x.word1.isLt
  apply if_pos
  simp only [ne_eq, ← toNat_eq_zero_iff]
  unfold value at h
  omega

theorem expectU256_ok {x : U512} (h : x.value < 2 ^ 256) :
    ∃ r, x.expectU256 = .ok r ∧ r.value = x.value := by
  obtain ⟨r, some, value⟩ := tryIntoU256_some h
  exact ⟨r, by rw [expectU256, some], value⟩

/-- Four partial products and the carries `k₁` and `k₂` out of the middle columns, in
any radix. -/
theorem columns {R r₀ c₀ x₁ x₂ y₁ y₂ z₂ z₃ r₁ r₂ k₁ k₂ : Nat}
    (first : r₁ + R * k₁ = c₀ + x₁ + y₁) (second : r₂ + R * k₂ = x₂ + y₂ + z₂ + k₁) :
    r₀ + R * (r₁ + R * (r₂ + R * (z₃ + k₂))) =
      (r₀ + R * c₀) + R * ((x₁ + R * x₂) + (y₁ + R * y₂)) + R * R * (z₂ + R * z₃) := by
  linear_combination R * first + R * R * second

/-- The partial products and their carries add up to the product, and no sum of
the source overflows: the last word is what the product leaves above the others. -/
theorem mulU256_spec (a b : U256) :
    ∃ p, mulU256 a b = .ok p ∧ p.value = a.value * b.value := by
  obtain ⟨r0, c0, er, vr⟩ := wideningMulU128_spec a.lo b.lo
  obtain ⟨x1, x2, ex, vx⟩ := wideningMulU128_spec a.lo b.hi
  obtain ⟨y1, y2, ey, vy⟩ := wideningMulU128_spec a.hi b.lo
  obtain ⟨z2, z3, ez, vz⟩ := wideningMulU128_spec a.hi b.hi
  obtain ⟨s1, f1a, e1a⟩ : ∃ s f, overflowingAdd c0 x1 = (s, f) := ⟨_, _, rfl⟩
  obtain ⟨r1, f1b, e1b⟩ : ∃ s f, overflowingAdd s1 y1 = (s, f) := ⟨_, _, rfl⟩
  obtain ⟨k1, p1, q1⟩ : ∃ k, plus (ofFlag f1a) (ofFlag f1b) = .ok k ∧
      k.toNat = f1a.toNat + f1b.toNat := by
    have := plus_eq (a := ofFlag f1a) (b := ofFlag f1b) (by cases f1a <;> cases f1b <;> decide)
    rw [toNat_ofFlag, toNat_ofFlag] at this
    exact ⟨_, this⟩
  obtain ⟨s2, f2a, e2a⟩ : ∃ s f, overflowingAdd x2 y2 = (s, f) := ⟨_, _, rfl⟩
  obtain ⟨t2, f2b, e2b⟩ : ∃ s f, overflowingAdd s2 z2 = (s, f) := ⟨_, _, rfl⟩
  obtain ⟨r2, f2c, e2c⟩ : ∃ s f, overflowingAdd t2 k1 = (s, f) := ⟨_, _, rfl⟩
  obtain ⟨k, p2, q2⟩ : ∃ k, plus (ofFlag f2a) (ofFlag f2b) = .ok k ∧
      k.toNat = f2a.toNat + f2b.toNat := by
    have := plus_eq (a := ofFlag f2a) (b := ofFlag f2b) (by cases f2a <;> cases f2b <;> decide)
    rw [toNat_ofFlag, toNat_ofFlag] at this
    exact ⟨_, this⟩
  obtain ⟨k2, p3, q3⟩ : ∃ l, plus k (ofFlag f2c) = .ok l ∧
      l.toNat = f2a.toNat + f2b.toNat + f2c.toNat := by
    have := plus_eq (a := k) (b := ofFlag f2c)
      (by rw [q2, toNat_ofFlag]; cases f2a <;> cases f2b <;> cases f2c <;> decide)
    rw [toNat_ofFlag, q2] at this
    exact ⟨_, this⟩
  have first : r1.toNat + 2 ^ 128 * k1.toNat = c0.toNat + x1.toNat + y1.toNat := by
    have h₁ := overflowingAdd_spec c0 x1
    have h₂ := overflowingAdd_spec s1 y1
    rw [e1a] at h₁
    rw [e1b] at h₂
    rw [q1]
    simp only at h₁ h₂
    omega
  have second : r2.toNat + 2 ^ 128 * k2.toNat =
      x2.toNat + y2.toNat + z2.toNat + k1.toNat := by
    have h₁ := overflowingAdd_spec x2 y2
    have h₂ := overflowingAdd_spec s2 z2
    have h₃ := overflowingAdd_spec t2 k1
    rw [e2a] at h₁
    rw [e2b] at h₂
    rw [e2c] at h₃
    rw [q3]
    simp only at h₁ h₂ h₃
    omega
  have whole : r0.toNat + 2 ^ 128 * (r1.toNat + 2 ^ 128 *
      (r2.toNat + 2 ^ 128 * (z3.toNat + k2.toNat))) = a.value * b.value := by
    rw [columns first second, vr, vx, vy, vz, U256.value, U256.value]
    ring
  have top : z3.toNat + k2.toNat < 2 ^ 128 := by
    have bound : a.value * b.value < 2 ^ 256 * 2 ^ 256 :=
      Nat.mul_lt_mul'' a.value_lt b.value_lt
    rw [← whole] at bound
    clear vr vx vy vz first second whole q1 q2 q3
    omega
  obtain ⟨p4, q4⟩ := plus_eq top
  refine ⟨⟨r0, r1, r2, z3 + k2⟩, ?_, ?_⟩
  · simp only [mulU256, er, ex, ey, ez, e1a, e1b, p1, e2a, e2b, e2c, p2, p3, p4, bind, Except.bind,
      pure, Except.pure]
  · rw [← whole, value, q4]

/-- A subtraction with borrows, in any radix. -/
theorem borrows {R x₀ x₁ x₂ x₃ y₀ y₁ y₂ y₃ d₀ d₁ d₂ d₃ b₀ b₁ b₂ b₃ : Nat}
    (h₀ : d₀ + y₀ = x₀ + R * b₀) (h₁ : d₁ + y₁ + b₀ = x₁ + R * b₁)
    (h₂ : d₂ + y₂ + b₁ = x₂ + R * b₂) (h₃ : d₃ + y₃ + b₂ = x₃ + R * b₃) :
    d₀ + R * (d₁ + R * (d₂ + R * d₃)) + (y₀ + R * (y₁ + R * (y₂ + R * y₃))) =
      x₀ + R * (x₁ + R * (x₂ + R * x₃)) + R * R * R * R * b₃ := by
  linear_combination h₀ + R * h₁ + R * R * h₂ + R * R * R * h₃

/-- The subtraction borrows from word to word, and not out of the last one. -/
theorem subU512_value {x y : U512} (h : y.value ≤ x.value) :
    (x.subU512 y).value = x.value - y.value := by
  have h₀ := subU128Borrow_spec x.word0 y.word0 false
  have h₁ := subU128Borrow_spec x.word1 y.word1 (subU128Borrow x.word0 y.word0 false).2
  have h₂ := subU128Borrow_spec x.word2 y.word2
    (subU128Borrow x.word1 y.word1 (subU128Borrow x.word0 y.word0 false).2).2
  have h₃ := subU128Borrow_spec x.word3 y.word3 (subU128Borrow x.word2 y.word2
    (subU128Borrow x.word1 y.word1 (subU128Borrow x.word0 y.word0 false).2).2).2
  rw [Bool.toNat_false, Nat.add_zero] at h₀
  have total := borrows h₀ h₁ h₂ h₃
  have below := (x.subU512 y).value_lt
  simp only [subU512, value] at total below h ⊢
  omega

/-- The lowest word that a left shift fills. -/
theorem shl_lowest (x : U512) (w b : Nat) :
    (if w < w then 0
      else if 0 < b ∧ w < w then x.word (w - w) <<< b ||| x.word (w - w - 1) >>> (128 - b)
      else x.word (w - w) <<< b).toNat = (x.word 0).toNat * 2 ^ b % 2 ^ 128 := by
  rw [if_neg (Nat.lt_irrefl w), if_neg fun h => Nat.lt_irrefl w h.2, Nat.sub_self,
    BitVec.toNat_shiftLeft, Nat.shiftLeft_eq]

/-- The words of a left shift above it, each with what the word below passes on. -/
theorem shl_above (x : U512) {w b i : Nat} (hb : b < 128) (hw : w < i) :
    (if i < w then 0
      else if 0 < b ∧ w < i then x.word (i - w) <<< b ||| x.word (i - w - 1) >>> (128 - b)
      else x.word (i - w) <<< b).toNat =
      (x.word (i - w)).toNat * 2 ^ b % 2 ^ 128 + (x.word (i - w - 1)).toNat / 2 ^ (128 - b) := by
  rw [if_neg (by omega)]
  by_cases moved : 0 < b
  · rw [if_pos ⟨moved, hw⟩, toNat_shl_or _ _ hb]
  · have whole := (x.word (i - w - 1)).isLt
    rw [if_neg fun h => moved h.1, BitVec.toNat_shiftLeft, Nat.shiftLeft_eq,
      Nat.eq_zero_of_not_pos moved, Nat.div_eq_of_lt (by omega), Nat.add_zero]

/-- What a word keeps of a left shift and what it passes on. -/
theorem shl_split (x : U128) {b : Nat} (hb : b < 128) :
    x.toNat * 2 ^ b % 2 ^ 128 + 2 ^ 128 * (x.toNat / 2 ^ (128 - b)) = x.toNat * 2 ^ b := by
  have passed : x.toNat / 2 ^ (128 - b) = x.toNat * 2 ^ b / 2 ^ 128 := by
    rw [← radix_split hb, Nat.mul_comm x.toNat, Nat.mul_div_mul_left _ _ (Nat.two_pow_pos b)]
  rw [passed, Nat.mod_add_div]

theorem value_ofWords (f : Nat → U128) : (ofWords f).value =
    (f 0).toNat + 2 ^ 128 * ((f 1).toNat + 2 ^ 128 * ((f 2).toNat + 2 ^ 128 * (f 3).toNat)) := rfl

theorem shlU512_value {x : U512} {n : Nat} (hn : n < 512) (fits : x.value * 2 ^ n < 2 ^ 512) :
    (x.shlU512 n).value = x.value * 2 ^ n := by
  unfold shlU512
  rw [if_neg (by omega)]
  split
  · rename_i h0
    rw [h0, Nat.pow_zero, Nat.mul_one]
  have hb : n % 128 < 128 := Nat.mod_lt _ (by omega)
  have parts : n = 128 * (n / 128) + n % 128 := (Nat.div_add_mod n 128).symm
  have hw : n / 128 = 0 ∨ n / 128 = 1 ∨ n / 128 = 2 ∨ n / 128 = 3 := by omega
  have s₀ := shl_split x.word0 hb
  have s₁ := shl_split x.word1 hb
  have s₂ := shl_split x.word2 hb
  have s₃ := shl_split x.word3 hb
  have moved : x.value * 2 ^ n = 2 ^ (128 * (n / 128)) * (x.word0.toNat * 2 ^ (n % 128) +
      2 ^ 128 * (x.word1.toNat * 2 ^ (n % 128) + 2 ^ 128 * (x.word2.toNat * 2 ^ (n % 128) +
        2 ^ 128 * (x.word3.toNat * 2 ^ (n % 128))))) := by
    conv_lhs => rw [parts, Nat.pow_add, value]
    ring
  rw [moved] at fits ⊢
  dsimp only
  clear moved parts
  generalize n % 128 = b at *
  rw [value_ofWords]
  rcases hw with hw | hw | hw | hw <;> rw [hw] at fits ⊢
  · rw [shl_lowest, shl_above x hb (i := 1) (by omega), shl_above x hb (i := 2) (by omega),
      shl_above x hb (i := 3) (by omega)]
    simp only [word, Nat.reduceMul, Nat.reduceSub] at *
    omega
  · rw [shl_lowest, shl_above x hb (i := 2) (by omega), shl_above x hb (i := 3) (by omega)]
    simp only [word, Nat.reduceMul, Nat.reduceSub, Nat.reduceLT, if_true, toNat_zero] at *
    omega
  · rw [shl_lowest, shl_above x hb (i := 3) (by omega)]
    simp only [word, Nat.reduceMul, Nat.reduceSub, Nat.reduceLT, if_true, toNat_zero] at *
    omega
  · rw [shl_lowest]
    simp only [word, Nat.reduceMul, Nat.reduceSub, Nat.reduceLT, if_true, toNat_zero] at *
    omega

/-- The highest word that a right shift keeps. -/
theorem shr_highest (x : U512) {w b i : Nat} (hi : i + w = 3) :
    (if 4 - w ≤ i then 0
      else if 0 < b ∧ i + w + 1 < 4 then
        x.word (i + w) >>> b ||| x.word (i + w + 1) <<< (128 - b)
      else x.word (i + w) >>> b).toNat = (x.word 3).toNat / 2 ^ b := by
  rw [if_neg (by omega), if_neg (by omega), hi, BitVec.toNat_ushiftRight, Nat.shiftRight_eq_div_pow]

/-- The words of a right shift below it, each with what the word above passes on. -/
theorem shr_below (x : U512) {w b i : Nat} (hb : b < 128) (hi : i + w < 3) :
    (if 4 - w ≤ i then 0
      else if 0 < b ∧ i + w + 1 < 4 then
        x.word (i + w) >>> b ||| x.word (i + w + 1) <<< (128 - b)
      else x.word (i + w) >>> b).toNat =
      (x.word (i + w)).toNat / 2 ^ b + (x.word (i + w + 1)).toNat * 2 ^ (128 - b) % 2 ^ 128 := by
  rw [if_neg (by omega)]
  by_cases moved : 0 < b
  · rw [if_pos ⟨moved, by omega⟩, toNat_shr_or _ _ hb]
  · rw [if_neg fun h => moved h.1, BitVec.toNat_ushiftRight, Nat.shiftRight_eq_div_pow,
      Nat.eq_zero_of_not_pos moved, Nat.sub_zero, Nat.mul_mod_left, Nat.add_zero]

/-- A word and the number above it, shifted right. -/
theorem shr_cons (low high word : Nat) {b : Nat} (hb : b < 128) (hw : high % 2 ^ 128 = word) :
    low / 2 ^ b + word * 2 ^ (128 - b) % 2 ^ 128 + 2 ^ 128 * (high / 2 ^ b) =
      (low + 2 ^ 128 * high) / 2 ^ b := by
  have := words_shr low high (2 ^ (128 - b)) (Nat.two_pow_pos b)
  rw [radix_split hb] at this
  rw [← this, ← hw, Nat.mod_mul_mod]

/-- A number of the words that a right shift keeps. -/
theorem dropped (low : Nat) {high b : Nat} (w : Nat) (hlow : low < 2 ^ 128) :
    (low + 2 ^ 128 * high) / 2 ^ (128 * (w + 1) + b) = high / 2 ^ (128 * w + b) := by
  rw [show 128 * (w + 1) + b = 128 + (128 * w + b) from by omega, Nat.pow_add,
    ← Nat.div_div_eq_div_mul, Nat.add_mul_div_left _ _ (Nat.two_pow_pos 128),
    Nat.div_eq_of_lt hlow, Nat.zero_add]

theorem shrU512_value (x : U512) {n : Nat} (hn : n < 512) :
    (x.shrU512 n).value = x.value / 2 ^ n := by
  unfold shrU512
  rw [if_neg (by omega)]
  split
  · rename_i h0
    rw [h0, Nat.pow_zero, Nat.div_one]
  have hb : n % 128 < 128 := Nat.mod_lt _ (by omega)
  have parts : 2 ^ n = 2 ^ (128 * (n / 128) + n % 128) := by rw [Nat.div_add_mod]
  have hw : n / 128 = 0 ∨ n / 128 = 1 ∨ n / 128 = 2 ∨ n / 128 = 3 := by omega
  have h0 := x.word0.isLt
  have h1 := x.word1.isLt
  have h2 := x.word2.isLt
  have h3 := x.word3.isLt
  rw [parts]
  dsimp only
  clear parts
  generalize n % 128 = b at *
  rw [value_ofWords, value]
  have step₃ := shr_cons x.word2.toNat x.word3.toNat x.word3.toNat hb (Nat.mod_eq_of_lt h3)
  have step₂ := shr_cons x.word1.toNat (x.word2.toNat + 2 ^ 128 * x.word3.toNat) x.word2.toNat hb
    (by omega)
  have step₁ := shr_cons x.word0.toNat
    (x.word1.toNat + 2 ^ 128 * (x.word2.toNat + 2 ^ 128 * x.word3.toNat)) x.word1.toNat hb
    (by omega)
  rcases hw with hw | hw | hw | hw <;> rw [hw]
  · rw [shr_below x hb (i := 0) (by omega), shr_below x hb (i := 1) (by omega),
      shr_below x hb (i := 2) (by omega), shr_highest x (i := 3) (by omega)]
    simp only [word, Nat.reduceMul, Nat.reduceAdd, Nat.zero_add]
    rw [step₃, step₂, step₁]
  · rw [dropped _ 0 h0, shr_below x hb (i := 0) (by omega), shr_below x hb (i := 1) (by omega),
      shr_highest x (i := 2) (by omega)]
    simp only [word, Nat.reduceAdd, Nat.zero_add, Nat.reduceSub, Nat.reduceLeDiff, if_true,
      toNat_zero, Nat.mul_zero, Nat.add_zero]
    rw [step₃, step₂]
  · rw [dropped _ 1 h0, dropped _ 0 h1, shr_below x hb (i := 0) (by omega),
      shr_highest x (i := 1) (by omega)]
    simp only [word, Nat.reduceAdd, Nat.zero_add, Nat.reduceSub, Nat.reduceLeDiff, if_true,
      toNat_zero, Nat.mul_zero, Nat.add_zero]
    rw [step₃]
  · rw [dropped _ 2 h0, dropped _ 1 h1, dropped _ 0 h2, shr_highest x (i := 0) (by omega)]
    simp only [word, Nat.reduceAdd, Nat.zero_add, Nat.reduceSub, Nat.reduceLeDiff, if_true,
      toNat_zero, Nat.mul_zero, Nat.add_zero]

/-- A power of two above the lowest word. -/
theorem two_pow_above (w b : Nat) : 2 ^ (128 * (w + 1) + b) = 0 + 2 ^ 128 * 2 ^ (128 * w + b) := by
  rw [Nat.zero_add, ← Nat.pow_add]
  congr 1
  omega

/-- A power of two in the lowest word. -/
theorem two_pow_lowest (b : Nat) : 2 ^ (128 * 0 + b) = 2 ^ b + 2 ^ 128 * 0 := by
  rw [Nat.mul_zero, Nat.zero_add, Nat.mul_zero, Nat.add_zero]

/-- `set_bit` is the disjunction with the bit's power of two. -/
theorem setBit_or (x : U512) {n : Nat} (hn : n < 512) : (x.setBit n).value = x.value ||| 2 ^ n := by
  have hb : n % 128 < 128 := Nat.mod_lt _ (by omega)
  have parts : 2 ^ n = 2 ^ (128 * (n / 128) + n % 128) := by rw [Nat.div_add_mod]
  have hw : n / 128 = 0 ∨ n / 128 = 1 ∨ n / 128 = 2 ∨ n / 128 = 3 := by omega
  have bit : 2 ^ (n % 128) < 2 ^ 128 := Nat.pow_lt_pow_right (by omega) hb
  have one : ((1 : U128) <<< (n % 128)).toNat = 2 ^ (n % 128) := by
    rw [BitVec.toNat_shiftLeft, toNat_one, Nat.shiftLeft_eq, Nat.one_mul, Nat.mod_eq_of_lt bit]
  have h0 := x.word0.isLt
  have h1 := x.word1.isLt
  have h2 := x.word2.isLt
  unfold setBit
  rw [if_neg (by omega), parts, value_ofWords, value]
  clear parts
  generalize n % 128 = b at *
  rcases hw with hw | hw | hw | hw <;> rw [hw] <;>
    simp only [word, Nat.reduceEqDiff, if_true, if_false, BitVec.toNat_or, one]
  · rw [two_pow_lowest, ← or_words h0 bit, Nat.or_zero]
  · rw [two_pow_above, two_pow_lowest, ← or_words h0 (by omega), ← or_words h1 bit, Nat.or_zero,
      Nat.or_zero]
  · rw [two_pow_above, two_pow_above, two_pow_lowest, ← or_words h0 (by omega),
      ← or_words h1 (by omega), ← or_words h2 bit, Nat.or_zero, Nat.or_zero, Nat.or_zero]
  · rw [two_pow_above, two_pow_above, two_pow_above, Nat.mul_zero, Nat.zero_add b,
      ← or_words h0 (by omega), ← or_words h1 (by omega), ← or_words h2 (by omega), Nat.or_zero,
      Nat.or_zero, Nat.or_zero]

/-- On clear bits `set_bit` adds. -/
theorem setBit_value {x : U512} {n : Nat} (hn : n < 512) (clear : 2 ^ (n + 1) ∣ x.value) :
    (x.setBit n).value = x.value + 2 ^ n := by
  obtain ⟨m, hm⟩ := clear
  rw [setBit_or x hn, hm,
    ← Nat.two_pow_add_eq_or_of_lt (Nat.pow_lt_pow_right (by omega) (Nat.lt_succ_self n))]

theorem leadingZeros_spec {x : U512} (h : x.value ≠ 0) :
    LeadingZeros 512 x.leadingZeros x.value := by
  have h0 := x.word0.isLt
  have h1 := x.word1.isLt
  have h2 := x.word2.isLt
  by_cases w3 : x.word3 = 0
  · by_cases w2 : x.word2 = 0
    · by_cases w1 : x.word1 = 0
      · have w0 : x.word0 ≠ 0 := by
          intro w0
          rw [value, w3, w2, w1, w0] at h
          exact h rfl
        have zeros : x.leadingZeros = 384 + x.word0.clz.toNat := by
          simp only [leadingZeros, w3, w2, w1, w0, ne_eq, not_true, not_false_iff, if_true, if_false]
        have whole : x.value = 0 + 2 ^ 0 * x.word0.toNat := by
          rw [value, w3, w2, w1, toNat_zero]
          omega
        rw [whole, zeros]
        exact clz_above (by omega) w0 (by omega) (by omega)
      · have zeros : x.leadingZeros = 256 + x.word1.clz.toNat := by
          simp only [leadingZeros, w3, w2, w1, ne_eq, not_true, not_false_iff, if_true, if_false]
        have whole : x.value = x.word0.toNat + 2 ^ 128 * x.word1.toNat := by
          rw [value, w3, w2, toNat_zero]
          omega
        rw [whole, zeros]
        exact clz_above h0 w1 (by omega) (by omega)
    · have zeros : x.leadingZeros = 128 + x.word2.clz.toNat := by
        simp only [leadingZeros, w3, w2, ne_eq, not_true, not_false_iff, if_true, if_false]
      have whole : x.value =
          x.word0.toNat + 2 ^ 128 * x.word1.toNat + 2 ^ 256 * x.word2.toNat := by
        rw [value, w3, toNat_zero]
        omega
      rw [whole, zeros]
      exact clz_above (by omega) w2 (by omega) (by omega)
  · have zeros : x.leadingZeros = x.word3.clz.toNat := by
      simp only [leadingZeros, w3, ne_eq, not_false_iff, if_true]
    have whole : x.value = x.word0.toNat + 2 ^ 128 * x.word1.toNat + 2 ^ 256 * x.word2.toNat +
        2 ^ 384 * x.word3.toNat := by
      rw [value]
      omega
    rw [whole, zeros]
    exact clz_above (by omega) w3 (by omega) (by omega)

/-! ### Division -/

/-- The loop of `checked_div_rem_by_u256` divides bit by bit. -/
theorem divRemLoop_divides :
    DividesBitwise value 512 subU512 setBit (fun divisor => divisor.shrU512 1) divRemLoop where
  done := by
    intro rem quo div
    rfl
  skip := by
    intro n rem quo div below
    exact if_neg (not_not.mpr ((cmpU512_eq_lt rem div).mpr below))
  take := by
    intro n rem quo div goes
    exact if_pos fun below => Nat.not_lt.mpr goes ((cmpU512_eq_lt rem div).mp below)
  sub_value := by
    intro rem div goes
    exact subU512_value goes
  set_value := by
    intro quo n hn clear
    exact setBit_value hn clear
  half_value := by
    intro div
    rw [shrU512_value _ (by omega), Nat.pow_one]

/-- The division is exact when the quotient is a `U256`, and `None` when it is not. -/
theorem checkedDivRemByU256_spec (x : U512) {den : U256} (hden : den.value ≠ 0) :
    (x.value / den.value < 2 ^ 256 → ∃ q r, x.checkedDivRemByU256 den = .ok (some (q, r)) ∧
      q.value = x.value / den.value ∧ r.value = x.value % den.value) ∧
    (2 ^ 256 ≤ x.value / den.value → x.checkedDivRemByU256 den = .ok none) := by
  have narrow := den.value_lt
  unfold checkedDivRemByU256
  rw [if_neg fun h => hden ((U256.isZero_iff den).mp h)]
  by_cases zero : x.isZero = true
  · have hx := (isZero_iff x).mp zero
    rw [hx, Nat.zero_div, Nat.zero_mod]
    constructor
    · intro _
      exact ⟨U256.ZERO, U256.ZERO, by rw [if_pos zero]; rfl, rfl, rfl⟩
    · intro large
      omega
  by_cases below : cmpU512 x (fromU256 den) = .lt
  · have hlt := (cmpU512_eq_lt x (fromU256 den)).mp below
    rw [value_fromU256] at hlt
    obtain ⟨r, returned, value⟩ := expectU256_ok (x := x) (by omega)
    rw [Nat.div_eq_of_lt hlt, Nat.mod_eq_of_lt hlt]
    constructor
    · intro _
      refine ⟨U256.ZERO, r, ?_, rfl, value⟩
      rw [if_neg zero, if_pos below, returned]
      rfl
    · intro large
      omega
  have hge : (fromU256 den).value ≤ x.value :=
    Nat.le_of_not_lt fun h => below ((cmpU512_eq_lt x (fromU256 den)).mpr h)
  have hpos : (fromU256 den).value ≠ 0 := by
    rw [value_fromU256]
    exact hden
  have zn := leadingZeros_spec (x := x) (by omega)
  have zd := leadingZeros_spec hpos
  have order := zn.order zd hge
  have few := zd.fewer
  obtain ⟨fits, reach⟩ := zn.aligned zd order
  obtain ⟨quotient, remainder⟩ := divRemLoop_divides.divides (Nat.pos_of_ne_zero hpos) (by omega)
    value_zero (shlU512_value (by omega) fits) reach
  rw [value_fromU256] at quotient remainder
  have left : x.value % den.value < 2 ^ 256 :=
    Nat.lt_trans (Nat.mod_lt _ (Nat.pos_of_ne_zero hden)) narrow
  obtain ⟨r, expected, vr⟩ := expectU256_ok (by rw [remainder]; exact left)
  simp only [if_neg zero, if_neg below, if_neg (Nat.not_lt.mpr order), bind, Except.bind]
  constructor
  · intro small
    obtain ⟨q, some, vq⟩ := tryIntoU256_some (by rw [quotient]; exact small)
    refine ⟨q, r, ?_, by rw [vq, quotient], by rw [vr, remainder]⟩
    rw [some, expected]
    rfl
  · intro large
    rw [tryIntoU256_none (by rw [quotient]; exact large)]
    rfl

end U512

/-- Wide division is exact: `mul_div_floor_u256_with_rem` returns the quotient and
the remainder of the whole product when the quotient is a `U256` and panics when
it is not, `div_rem_u256` divides any two numbers, and `widening_mul_u128` returns
both words of a product. -/
theorem wideDivision_exact (a b : U256) {d : U256} (hd : d.value ≠ 0) (x y : U128) :
    (a.value * b.value / d.value < 2 ^ 256 →
      ∃ q r, mulDivFloorU256WithRem a b d = .ok (q, r) ∧
        q.value * d.value + r.value = a.value * b.value ∧ r.value < d.value) ∧
    (mulDivFloorU256WithRem a b d = .error .panic ↔ 2 ^ 256 ≤ a.value * b.value / d.value) ∧
    (∃ q r, divRemU256 a d = .ok (q, r) ∧
      q.value * d.value + r.value = a.value ∧ r.value < d.value) ∧
    ∃ lo hi, wideningMulU128 x y = .ok (lo, hi) ∧
      lo.toNat + 2 ^ 128 * hi.toNat = x.toNat * y.toNat := by
  have below : ∀ n, n % d.value < d.value := by
    intro n
    exact Nat.mod_lt n (Nat.pos_of_ne_zero hd)
  obtain ⟨p, product, vp⟩ := U512.mulU256_spec a b
  obtain ⟨divides, overflows⟩ := U512.checkedDivRemByU256_spec p hd
  rw [vp] at divides overflows
  have returned : a.value * b.value / d.value < 2 ^ 256 →
      ∃ q r, mulDivFloorU256WithRem a b d = .ok (q, r) ∧
        q.value * d.value + r.value = a.value * b.value ∧ r.value < d.value := by
    intro small
    obtain ⟨q, r, answer, vq, vr⟩ := divides small
    refine ⟨q, r, ?_, ?_, ?_⟩
    · rw [mulDivFloorU256WithRem, if_neg fun h => hd ((U256.isZero_iff d).mp h)]
      simp only [product, U512.divRemByU256, answer, bind, Except.bind, pure, Except.pure]
    · rw [vq, vr, Nat.mul_comm, Nat.div_add_mod]
    · rw [vr]
      exact below _
  refine ⟨returned, ?_, ?_, wideningMulU128_spec x y⟩
  · constructor
    · intro panicked
      by_contra small
      obtain ⟨q, r, answer, -, -⟩ := returned (by omega)
      rw [answer] at panicked
      cases panicked
    · intro large
      rw [mulDivFloorU256WithRem, if_neg fun h => hd ((U256.isZero_iff d).mp h)]
      simp only [product, U512.divRemByU256, overflows large, bind, Except.bind]
      rfl
  · obtain ⟨q, r, answer, vq, vr⟩ := divRemU256_spec a hd
    refine ⟨q, r, answer, ?_, ?_⟩
    · rw [vq, vr, Nat.mul_comm, Nat.div_add_mod]
    · rw [vr]
      exact below _

/-- `MAX * MAX / MAX` comes out of the 512-bit product, and `MAX * MAX / ONE` does not
fit. -/
theorem wideDivision_max :
    (∃ q r, mulDivFloorU256WithRem U256.MAX U256.MAX U256.MAX = .ok (q, r) ∧
      q.value * U256.MAX.value + r.value = U256.MAX.value * U256.MAX.value ∧
        r.value < U256.MAX.value) ∧
      mulDivFloorU256WithRem U256.MAX U256.MAX U256.ONE = .error .panic :=
  ⟨(wideDivision_exact U256.MAX U256.MAX (d := U256.MAX) (by decide) 0 0).1 (by decide),
    (wideDivision_exact U256.MAX U256.MAX (d := U256.ONE) (by decide) 0 0).2.1.mpr (by decide)⟩

end Wide
end Percolator
