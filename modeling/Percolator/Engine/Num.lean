import Mathlib.Algebra.Group.Int.Defs
import Mathlib.Algebra.Group.Nat.Defs
import Percolator.Base.Effect

/-!
Machine integers and the wide arithmetic of the engine.

`u64`, `u128` and `U256` values are natural numbers, `i128` and `I256` values
are integers; every operation of the source that can leave its type is a
checked one here, with `none` for the source's `None`. A `U256` or `I256`
operation is what it does to the value; `Wide` has the operations on limbs.
-/

namespace Percolator

def U16_MAX : Nat := 2 ^ 16 - 1
def U64_MAX : Nat := 2 ^ 64 - 1
def U128_MAX : Nat := 2 ^ 128 - 1
def U256_MAX : Nat := 2 ^ 256 - 1
def I128_MAX : Int := 2 ^ 127 - 1
def I128_MIN : Int := -2 ^ 127
def I256_MAX : Int := 2 ^ 255 - 1
def I256_MIN : Int := -2 ^ 255

/-! ### Constants of the engine -/

def POS_SCALE : Nat := 1000000
def ADL_ONE : Nat := 1000000000000000
def MIN_A_SIDE : Nat := 100000000000000
def MAX_ORACLE_PRICE : Nat := 1000000000000
def FUNDING_DEN : Nat := 1000000000
def MAX_ABS_FUNDING_E9_PER_SLOT : Nat := 1000000000
def MAX_VAULT_TVL : Nat := 10000000000000000
def MAX_POSITION_ABS_Q : Nat := 100000000000000
def MAX_ACCOUNT_NOTIONAL : Nat := 100000000000000000000
def MAX_TRADE_SIZE_Q : Nat := MAX_POSITION_ABS_Q
def MAX_OI_SIDE_Q : Nat := 100000000000000
def MAX_MATERIALIZED_ACCOUNTS : Nat := 1000000
def MAX_ACCOUNT_POSITIVE_PNL : Nat := 100000000000000000000000000000000
def MAX_PNL_POS_TOT : Nat := 100000000000000000000000000000000000000
def MAX_PROTOCOL_FEE_ABS : Nat := 1000000000000000000000000000000000000
def MAX_RESOLVE_PRICE_DEVIATION_BPS : Nat := 10000
def MAX_TOUCHED_PER_INSTRUCTION : Nat := 64

/-! ### Checked arithmetic -/

/-- `u128::checked_add`, also used for the `U128` wrapper. -/
def checkedAddU128 (a b : Nat) : Option Nat := if a + b ≤ U128_MAX then some (a + b) else none

def checkedAddU64 (a b : Nat) : Option Nat := if a + b ≤ U64_MAX then some (a + b) else none

/-- `checked_sub` of an unsigned type. -/
def checkedSub (a b : Nat) : Option Nat := if b ≤ a then some (a - b) else none

def checkedMulU128 (a b : Nat) : Option Nat := if a * b ≤ U128_MAX then some (a * b) else none

theorem checkedMulU128_eq {a b c : Nat} (h : checkedMulU128 a b = some c) : c = a * b := by
  unfold checkedMulU128 at h
  split at h
  · exact (Option.some.inj h).symm
  · cases h

/-- The `i128` value `v`, if it is one. -/
def toI128 (v : Int) : Option Int := if I128_MIN ≤ v ∧ v ≤ I128_MAX then some v else none

def checkedAddI128 (a b : Int) : Option Int := toI128 (a + b)

def checkedSubI128 (a b : Int) : Option Int := toI128 (a - b)

def checkedNegI128 (a : Int) : Option Int := toI128 (-a)

/-- `saturating_sub` of `i128`. -/
def saturatingSubI128 (a b : Int) : Int := max I128_MIN (min I128_MAX (a - b))

/-- `saturating_add` of `u64`. -/
def saturatingAddU64 (a b : Nat) : Nat := min (a + b) U64_MAX

/-- The cast `v as i128` of a `u128`. -/
def asI128 (v : Nat) : Int := if (v : Int) ≤ I128_MAX then v else v - 2 ^ 128

/-- `i128_clamp_pos`: `max(v, 0)` as an unsigned value. -/
def i128ClampPos (v : Int) : Nat := v.toNat

/-- `fee_debt_u128_checked`: the debt that negative fee credits stand for. -/
def feeDebtU128Checked (feeCredits : Int) : Nat := (-feeCredits).toNat

/-! ### Wide values -/

def U256.checkedMul (a b : Nat) : Option Nat := if a * b ≤ U256_MAX then some (a * b) else none

def U256.checkedAdd (a b : Nat) : Option Nat := if a + b ≤ U256_MAX then some (a + b) else none

def U256.tryIntoU128 (a : Nat) : Option Nat := if a ≤ U128_MAX then some a else none

/-- The `I256` value `v`, if it is one. -/
def toI256 (v : Int) : Option Int := if I256_MIN ≤ v ∧ v ≤ I256_MAX then some v else none

def I256.checkedAdd (a b : Int) : Option Int := toI256 (a + b)

def I256.checkedSub (a b : Int) : Option Int := toI256 (a - b)

/-- `I256::from_i128`: the value must be one of the type. -/
def I256.fromI128 (v : Int) : Option Int := toI128 v

/-- `I256::from_u256_or_overflow`. -/
def I256.fromU256OrOverflow (a : Nat) : Option Int := toI256 a

/-- `I256::checked_mul_i256`, through the product of the magnitudes. -/
def I256.checkedMulI256 (a b : Int) : Option Int :=
  if a = 0 ∨ b = 0 then some 0
  else if a = I256_MIN then (if b = 1 then some I256_MIN else none)
  else if b = I256_MIN then (if a = 1 then some I256_MIN else none)
  else do
    let product ← U256.checkedMul a.natAbs b.natAbs
    if decide (a < 0) ≠ decide (b < 0) then
      -- the magnitude of `MIN` is meant, but the source compares with `2^127`
      if product = 2 ^ 127 then some I256_MIN
      else if 2 ^ 127 < product then none
      else do
        let pos ← I256.fromU256OrOverflow product
        toI256 (-pos)
    else I256.fromU256OrOverflow product

def I256.tryIntoI128 (a : Int) : Option Int := toI128 a

/-- `mul_div_floor_u128`: the native product must fit; `none` is a panic. -/
def mulDivFloorU128 (a b d : Nat) : Option Nat :=
  if d = 0 ∨ U128_MAX < a * b then none else some (a * b / d)

/-- Ceiling division. -/
def ceilDiv (n d : Nat) : Nat := if n % d = 0 then n / d else n / d + 1

/-- `mul_div_ceil_u128`; `none` is a panic. -/
def mulDivCeilU128 (a b d : Nat) : Option Nat :=
  if d = 0 ∨ U128_MAX < a * b then none else some (ceilDiv (a * b) d)

/-- `wide_mul_div_floor_u128`: exact product; `none` is a panic. -/
def wideMulDivFloorU128 (a b d : Nat) : Option Nat :=
  if d = 0 ∨ U128_MAX < a * b / d then none else some (a * b / d)

/-- `mul_div_floor_u256_with_rem`: exact 512-bit product; `none` is a panic. -/
def mulDivFloorU256WithRem (a b d : Nat) : Option (Nat × Nat) :=
  if d = 0 ∨ U256_MAX < a * b / d then none else some (a * b / d, a * b % d)

/-- The two answers of `wide_mul_div_ceil_u128_or_over_i128max`. -/
inductive DeltaK where
  | fits (v : Nat)
  | overI128Magnitude
deriving DecidableEq, Repr

/-- `wide_mul_div_ceil_u128_or_over_i128max`: `none` is a panic. -/
def wideMulDivCeilU128OrOverI128max (a b d : Nat) : Option DeltaK :=
  if d = 0 ∨ U256_MAX < ceilDiv (a * b) d then none
  else if (ceilDiv (a * b) d : Int) ≤ I128_MAX then some (.fits (ceilDiv (a * b) d))
  else some .overI128Magnitude

/-- `checked_u128_mul_i128`: magnitudes up to `i128::MAX` for both signs. -/
def checkedU128MulI128 (a : Nat) (b : Int) : Option Int :=
  if a = 0 ∨ b = 0 then some 0
  else if b = I128_MIN then none
  else if (a * b.natAbs : Int) ≤ I128_MAX then some (a * b) else none

/-- Signed floor of `± p / d` from the quotient and remainder of magnitudes, as
the settlement helpers compute it; `none` when the magnitude leaves `i128`, and
for a zero denominator, where the source panics. -/
def signedFloorDiv (negative : Bool) (p d : Nat) : Option Int :=
  let mag := if negative then ceilDiv p d else p / d
  if d ≠ 0 ∧ (mag : Int) ≤ I128_MAX then some (if negative then -mag else mag) else none

/-- `compute_trade_pnl`: `floor(size_q * price_diff / POS_SCALE)`. -/
def computeTradePnl (sizeQ priceDiff : Int) : Option Int :=
  if sizeQ = 0 ∨ priceDiff = 0 then some 0
  else signedFloorDiv (decide (sizeQ < 0) != decide (priceDiff < 0))
    (sizeQ.natAbs * priceDiff.natAbs) POS_SCALE

/-- `compute_kf_pnl_delta_wide`: the floor of
`abs_basis * (ΔK * FUNDING_DEN + ΔF) / (den * FUNDING_DEN)` in 256-bit
intermediates; `none` is the source's `Overflow`. -/
def computeKfPnlDeltaWide (absBasis : Nat) (kSnap kNowWide fSnap fNowWide : Int) (den : Nat) :
    Option Int := do
  if absBasis = 0 then return 0
  let kDiff ← I256.checkedSub kNowWide kSnap
  let prod ← U256.checkedMul kDiff.natAbs FUNDING_DEN
  let pos ← I256.fromU256OrOverflow prod
  let kScaled := if kDiff < 0 then -pos else pos
  let fDiff ← I256.checkedSub fNowWide fSnap
  let combined ← I256.checkedAdd kScaled fDiff
  if combined = 0 then return 0
  if combined = I256_MIN then none
  let denWide ← U256.checkedMul den FUNDING_DEN
  let p ← U256.checkedMul absBasis combined.natAbs
  signedFloorDiv (decide (combined < 0)) p denWide

/-- `compute_kf_pnl_delta`: the same on `i128` values. -/
def computeKfPnlDelta (absBasis : Nat) (kSnap kNow fSnap fNow : Int) (den : Nat) : Option Int :=
  computeKfPnlDeltaWide absBasis kSnap kNow fSnap fNow den

end Percolator
