import Percolator.Engine.Accrual
import Percolator.Engine.Adl
import Percolator.Engine.Equity
import Percolator.Wide.SignedFloor

/-!
The 256-bit computations of the engine on limbs: accrual, trade PnL, equities,
fees, the haircut and ADL. Each computes the function on integers that the model
of the engine is stated with.
-/

namespace Percolator
namespace Wide

open Effect

/-- A computation on words in place of the one it computes. -/
theorem wp_orErr_computes {α β : Type} {value : α → β} {m : Except Halt α} {o : Option β}
    {Q : β → RiskEngine → List Event → Prop} {E : Plain → RiskEngine → Prop} {s : RiskEngine}
    {l : List Event}
    (h : Computes value m o) (ok : ∀ a, m = .ok a → Q (value a) s l)
    (overflow : m = .error .overflow → E (.err .overflow) s) :
    wp (orErr o .overflow) Q E s l := by
  rw [wp_orErr]
  cases h with
  | ok a =>
      refine ⟨fun absent => (by cases absent), fun b same => ?_⟩
      cases same
      exact ok a rfl
  | overflow => exact ⟨fun _ => overflow rfl, fun b same => (by cases same)⟩

/-! ### Accrual -/

/-- The words of a side that accrual reads. -/
structure IndexWords where
  adlMult : U128
  adlCoeff : U128
  fNum : U128
deriving DecidableEq, Repr

/-- The words hold the multiplier and the indices of a side. -/
structure IndexWords.Hold (w : IndexWords) (v : SideState) : Prop where
  adlMult : v.adlMult = w.adlMult.toNat
  adlCoeff : v.adlCoeff = w.adlCoeff.toInt
  fNum : v.fNum = w.fNum.toInt

/-- `index + a * delta`, as `accrue_market_to` computes it. -/
def scaledAdd (index a : U128) (delta : I256) : Except Halt U128 := do
  let moved ← okOr (← (I256.fromU128 a).checkedMulI256 delta)
  let wide ← okOr ((I256.fromI128 index).checkedAdd moved)
  okOr wide.tryIntoI128

/-- `index - a * delta`, as `accrue_market_to` computes it. -/
def scaledSub (index a : U128) (delta : I256) : Except Halt U128 := do
  let moved ← okOr (← (I256.fromU128 a).checkedMulI256 delta)
  let wide ← okOr ((I256.fromI128 index).checkedSub moved)
  okOr wide.tryIntoI128

/-- `fund_num_total`. -/
def fundNumTotal (fundPx : U64) (rate : U128) (dt : U64) : Except Halt I256 := do
  let scaled ← okOr
    (← (I256.fromU128 (fundPx.setWidth 128)).checkedMulI256 (I256.fromI128 rate))
  okOr (← scaled.checkedMulI256 (I256.fromU128 (dt.setWidth 128)))

/-- The K indices after a mark of `deltaP`. -/
def markIndices (long short : IndexWords) (longLive shortLive : Bool) (deltaP : U128) :
    Except Halt (U128 × U128) := do
  let kLong ← (if deltaP ≠ 0 ∧ longLive = true then
      scaledAdd long.adlCoeff long.adlMult (I256.fromI128 deltaP) else .ok long.adlCoeff)
  let kShort ← (if deltaP ≠ 0 ∧ shortLive = true then
      scaledSub short.adlCoeff short.adlMult (I256.fromI128 deltaP) else .ok short.adlCoeff)
  return (kLong, kShort)

/-- The F indices after funding at `rate` over `dt` slots. -/
def fundIndices (long short : IndexWords) (longLive shortLive : Bool) (fundPx : U64) (rate : U128)
    (dt : U64) : Except Halt (U128 × U128) :=
  if rate ≠ 0 ∧ dt ≠ 0 ∧ longLive = true ∧ shortLive = true ∧ fundPx ≠ 0 then do
    let total ← fundNumTotal fundPx rate dt
    let fLong ← scaledSub long.fNum long.adlMult total
    let fShort ← scaledAdd short.fNum short.adlMult total
    return (fLong, fShort)
  else .ok (long.fNum, short.fNum)

/-- The two numbers of a pair of `i128`. -/
def toInts (p : U128 × U128) : Int × Int := (p.1.toInt, p.2.toInt)

theorem toI128_toInt (v : U128) : toI128 v.toInt = some v.toInt := by
  have := v.isLt
  unfold toI128 I128_MIN I128_MAX
  rcases I256.toInt_cases v with ⟨_, _, _⟩ | ⟨_, _, _⟩ <;> rw [if_pos (by omega)]

theorem scaledAdd_computes (index a : U128) (delta : I256) :
    Computes BitVec.toInt (scaledAdd index a delta)
      (Percolator.scaledAdd index.toInt a.toNat delta.value) := by
  unfold scaledAdd Percolator.scaledAdd
  have product := I256.checkedMulI256_spec (I256.fromU128 a) delta
  rw [I256.fromU128_value] at product
  refine Computes.step product fun moved _ => ?_
  have sum := I256.checkedAdd_spec (I256.fromI128 index) moved
  rw [I256.fromI128_value] at sum
  rw [Percolator.I256.fromI128, toI128_toInt, Option.bind_eq_bind, Option.bind_some]
  exact Computes.bind (.okOr sum) fun wide _ => .okOr (I256.tryIntoI128_spec wide)

theorem scaledSub_computes (index a : U128) (delta : I256) :
    Computes BitVec.toInt (scaledSub index a delta)
      (Percolator.scaledSub index.toInt a.toNat delta.value) := by
  unfold scaledSub Percolator.scaledSub
  have product := I256.checkedMulI256_spec (I256.fromU128 a) delta
  rw [I256.fromU128_value] at product
  refine Computes.step product fun moved _ => ?_
  have difference := I256.checkedSub_spec (I256.fromI128 index) moved
  rw [I256.fromI128_value] at difference
  rw [Percolator.I256.fromI128, toI128_toInt, Option.bind_eq_bind, Option.bind_some]
  exact Computes.bind (.okOr difference) fun wide _ => .okOr (I256.tryIntoI128_spec wide)

theorem toNat_widened (v : U64) : (v.setWidth 128).toNat = v.toNat := by
  have := v.isLt
  rw [BitVec.toNat_setWidth]
  omega

theorem fundNumTotal_computes (fundPx : U64) (rate : U128) (dt : U64) :
    Computes I256.value (fundNumTotal fundPx rate dt)
      (Percolator.fundNumTotal fundPx.toNat rate.toInt dt.toNat) := by
  unfold fundNumTotal Percolator.fundNumTotal
  have scaled := I256.checkedMulI256_spec (I256.fromU128 (fundPx.setWidth 128)) (I256.fromI128 rate)
  rw [I256.fromU128_value, I256.fromI128_value, toNat_widened] at scaled
  refine Computes.step scaled fun moved _ => ?_
  obtain ⟨r, multiplied, value⟩ := I256.checkedMulI256_spec moved (I256.fromU128 (dt.setWidth 128))
  rw [I256.fromU128_value, toNat_widened] at value
  rw [multiplied, ok_bind]
  exact .okOr value

theorem toInt_eq_zero_iff {v : U128} : v.toInt = 0 ↔ v = 0 := by
  rw [← BitVec.toInt_zero, BitVec.toInt_inj]
  rfl

theorem markIndices_computes {s : RiskEngine} {long short : IndexWords} {longLive shortLive : Bool}
    (deltaP : U128) (onLong : long.Hold (s.sides .long)) (onShort : short.Hold (s.sides .short)) :
    Computes toInts (markIndices long short longLive shortLive deltaP)
      (Percolator.markIndices s longLive shortLive deltaP.toInt) := by
  have moved {live : Bool} {k : U128} {m : Except Halt U128} {o : Option Int}
      (h : Computes BitVec.toInt m o) : Computes BitVec.toInt
        (if deltaP ≠ 0 ∧ live = true then m else .ok k)
        (if deltaP.toInt ≠ 0 ∧ live = true then o else some k.toInt) := by
    by_cases marked : deltaP ≠ 0 ∧ live = true
    · rw [if_pos marked, if_pos ⟨fun zero => marked.1 (toInt_eq_zero_iff.mp zero), marked.2⟩]
      exact h
    · rw [if_neg marked, if_neg fun both => marked ⟨fun zero => both.1 (toInt_eq_zero_iff.mpr zero), both.2⟩]
      exact .ok k
  have kLong := scaledAdd_computes long.adlCoeff long.adlMult (I256.fromI128 deltaP)
  have kShort := scaledSub_computes short.adlCoeff short.adlMult (I256.fromI128 deltaP)
  rw [I256.fromI128_value] at kLong kShort
  unfold markIndices Percolator.markIndices
  rw [onLong.adlMult, onLong.adlCoeff, onShort.adlMult, onShort.adlCoeff]
  refine Computes.bind (moved kLong) fun k _ => ?_
  exact Computes.bind (moved kShort) fun k' _ => .ok (k, k')

theorem fundIndices_computes {s : RiskEngine} {long short : IndexWords} {longLive shortLive : Bool}
    {fundPx : U64} (rate : U128) (dt : U64) (onLong : long.Hold (s.sides .long))
    (onShort : short.Hold (s.sides .short)) (px : s.fundPxLast = fundPx.toNat) :
    Computes toInts (fundIndices long short longLive shortLive fundPx rate dt)
      (Percolator.fundIndices s longLive shortLive rate.toInt dt.toNat) := by
  have active : (rate ≠ 0 ∧ dt ≠ 0 ∧ longLive = true ∧ shortLive = true ∧ fundPx ≠ 0) ↔
      (rate.toInt ≠ 0 ∧ 0 < dt.toNat ∧ longLive = true ∧ shortLive = true ∧ 0 < s.fundPxLast) := by
    have positive (v : U64) : v ≠ 0 ↔ 0 < v.toNat := by
      rw [Nat.pos_iff_ne_zero, ne_eq, ne_eq, toNat_eq_zero_iff]
    rw [px, positive, positive, ne_eq, ne_eq, toInt_eq_zero_iff]
  unfold fundIndices Percolator.fundIndices
  rw [onLong.adlMult, onLong.fNum, onShort.adlMult, onShort.fNum]
  by_cases funded : rate ≠ 0 ∧ dt ≠ 0 ∧ longLive = true ∧ shortLive = true ∧ fundPx ≠ 0
  · rw [if_pos funded, if_pos (active.mp funded), px]
    refine Computes.bind (fundNumTotal_computes fundPx rate dt) fun total _ => ?_
    refine Computes.bind (scaledSub_computes long.fNum long.adlMult total) fun f _ => ?_
    exact Computes.bind (scaledAdd_computes short.fNum short.adlMult total) fun f' _ => .ok (f, f')
  · rw [if_neg funded, if_neg fun h => funded (active.mpr h)]
    exact .returns rfl

/-! ### Trade PnL -/

/-- A product narrowed to a magnitude of `i128`, with the sign put back. -/
def signedMagnitude (negative : Bool) (product : U256) : Except Halt U128 := do
  let v ← okOr product.tryIntoU128
  if I128_MAX < v.toNat then .error .overflow
  else if negative then negate v
  else .ok v

/-- `checked_u128_mul_i128`. -/
def checkedU128MulI128 (a b : U128) : Except Halt U128 := do
  if a = 0 ∨ b = 0 then .ok 0
  else if b.toInt = I128_MIN then .error .overflow
  else do
    let product ← okOr (← (U256.fromU128 a).checkedMul (U256.fromU128 (unsignedAbs b)))
    signedMagnitude (decide (b.toInt < 0)) product

/-- `compute_trade_pnl`. -/
def computeTradePnl (sizeQ priceDiff : U128) : Except Halt U128 := do
  if sizeQ = 0 ∨ priceDiff = 0 then .ok 0
  else do
    let resultNegative := decide (sizeQ.toInt < 0) != decide (priceDiff.toInt < 0)
    let (q, r) ← mulDivFloorU256WithRem (U256.fromU128 (unsignedAbs sizeQ))
      (U256.fromU128 (unsignedAbs priceDiff)) (U256.fromU128 (BitVec.ofNat 128 POS_SCALE))
    signedQuotient resultNegative q r

theorem signedMagnitude_computes (negative : Bool) (product : U256) :
    Computes BitVec.toInt (signedMagnitude negative product)
      (if (product.value : Int) ≤ I128_MAX then
        some (if negative = true then -(product.value : Int) else product.value) else none) := by
  unfold signedMagnitude
  cases negative with
  | false =>
      refine narrow_computes fun v hv small => ⟨v, rfl, ?_⟩
      rw [toInt_small small, hv]
      rfl
  | true =>
      refine narrow_computes fun v hv small => ?_
      rw [if_pos rfl, ← hv]
      exact negate_small small

theorem checkedU128MulI128_computes (a b : U128) :
    Computes BitVec.toInt (checkedU128MulI128 a b)
      (Percolator.checkedU128MulI128 a.toNat b.toInt) := by
  unfold checkedU128MulI128 Percolator.checkedU128MulI128
  by_cases zero : a = 0 ∨ b = 0
  · rw [if_pos zero, if_pos (by rwa [toNat_eq_zero_iff, toInt_eq_zero_iff])]
    exact .returns BitVec.toInt_zero
  have nonzero : ¬ (a.toNat = 0 ∨ b.toInt = 0) := by rwa [toNat_eq_zero_iff, toInt_eq_zero_iff]
  rw [if_neg zero, if_neg nonzero]
  by_cases min : b.toInt = I128_MIN
  · rw [if_pos min, if_pos min]
    exact .overflow
  rw [if_neg min, if_neg min]
  obtain ⟨r, multiplied, product⟩ := U256.checkedMul_spec (U256.fromU128 a) (U256.fromU128 (unsignedAbs b))
  have fits := product_narrow a (unsignedAbs b)
  simp only [U256.value_fromU128, toNat_unsignedAbs] at product fits
  unfold Percolator.U256.checkedMul at product
  rw [if_pos fits] at product
  obtain ⟨p, rfl, value⟩ := Option.map_eq_some_iff.mp product
  have narrowed := signedMagnitude_computes (decide (b.toInt < 0)) p
  have signed : (if decide (b.toInt < 0) = true then -(p.value : Int) else p.value) =
      (a.toNat : Int) * b.toInt := by
    rw [value, Int.natCast_mul]
    by_cases neg : b.toInt < 0
    · rw [if_pos (decide_eq_true neg), Int.ofNat_natAbs_of_nonpos neg.le]
      ring
    · rw [if_neg (by simpa using neg), Int.natAbs_of_nonneg (not_lt.mp neg)]
  rw [signed, value, Int.natCast_mul] at narrowed
  rw [multiplied, ok_bind]
  exact narrowed

theorem computeTradePnl_computes (sizeQ priceDiff : U128) :
    Computes BitVec.toInt (computeTradePnl sizeQ priceDiff)
      (Percolator.computeTradePnl sizeQ.toInt priceDiff.toInt) := by
  unfold computeTradePnl Percolator.computeTradePnl
  by_cases zero : sizeQ = 0 ∨ priceDiff = 0
  · rw [if_pos zero, if_pos (by rwa [toInt_eq_zero_iff, toInt_eq_zero_iff])]
    exact .returns BitVec.toInt_zero
  rw [if_neg zero, if_neg (by rwa [toInt_eq_zero_iff, toInt_eq_zero_iff])]
  have scale : (U256.fromU128 (BitVec.ofNat 128 POS_SCALE)).value = POS_SCALE := by decide
  have fits := product_narrow (unsignedAbs sizeQ) (unsignedAbs priceDiff)
  obtain ⟨product, multiplied, ⟨q, r, divided, hq, hr⟩ | ⟨panicked, large⟩⟩ := product_divided
    (U256.fromU128 (unsignedAbs sizeQ)) (U256.fromU128 (unsignedAbs priceDiff))
    (d := U256.fromU128 (BitVec.ofNat 128 POS_SCALE)) (by rw [scale]; decide)
  · rw [scale, U256.value_fromU128, U256.value_fromU128, toNat_unsignedAbs, toNat_unsignedAbs] at hq hr
    have whole : mulDivFloorU256WithRem (U256.fromU128 (unsignedAbs sizeQ))
        (U256.fromU128 (unsignedAbs priceDiff)) (U256.fromU128 (BitVec.ofNat 128 POS_SCALE)) =
        .ok (q, r) := by
      unfold mulDivFloorU256WithRem
      rw [if_neg (by decide), multiplied]
      exact divided
    rw [whole, ok_bind]
    exact signedQuotient_computes (by decide) hq hr
  · rw [scale, U256.value_fromU128, U256.value_fromU128] at large
    have := Nat.div_le_self ((unsignedAbs sizeQ).toNat * (unsignedAbs priceDiff).toNat) POS_SCALE
    omega

/-! ### Equities and fees -/

/-- `fee_debt_u128_checked`. -/
def feeDebtU128Checked (feeCredits : U128) : U128 :=
  if feeCredits.toInt < 0 then unsignedAbs feeCredits else 0

/-- `account_equity_maint_raw_wide`. -/
def accountEquityMaintRawWide (capital pnl feeCredits : U128) : Except Halt I256 := do
  let sum ← expect ((I256.fromU128 capital).checkedAdd (I256.fromI128 pnl))
  expect (sum.checkedSub (I256.fromU128 (feeDebtU128Checked feeCredits)))

/-- An equity narrowed to `i128`, or the most restrictive one. -/
def narrowEquity (wide : I256) : U128 := wide.tryIntoI128.getD (BitVec.ofInt 128 (I128_MIN + 1))

/-- The sum of the lanes that count losses in full and gains as far as `eff`:
`account_equity_withdraw_raw`, `account_equity_init_raw` and
`account_equity_trade_open_raw` end in it. -/
def equityLane (capital negPnl eff feeCredits : U128) : Except Halt U128 := do
  let sum ← expect ((I256.fromU128 capital).checkedAdd (I256.fromI128 negPnl))
  let sum ← expect (sum.checkedAdd (I256.fromU128 eff))
  let sum ← expect (sum.checkedSub (I256.fromU128 (feeDebtU128Checked feeCredits)))
  return narrowEquity sum

/-- The fee of `dt` slots at `rate`, as `sync_account_fee_to_slot` caps it. -/
def cappedFee (rate : U128) (dt : U64) : Except Halt U128 := do
  let raw ← okOr (← (U256.fromU128 rate).checkedMul (U256.fromU128 (dt.setWidth 128)))
  let cap := U256.fromU128 (BitVec.ofNat 128 MAX_PROTOCOL_FEE_ABS)
  okOr (if U256.lt cap raw then cap else raw).tryIntoU128

theorem toNat_feeDebtU128Checked (v : U128) :
    (feeDebtU128Checked v).toNat = Percolator.feeDebtU128Checked v.toInt := by
  unfold feeDebtU128Checked Percolator.feeDebtU128Checked
  by_cases neg : v.toInt < 0
  · rw [if_pos neg, toNat_unsignedAbs]
    omega
  · rw [if_neg neg, toNat_zero]
    omega

/-- The sum of two numbers far inside 256 bits. -/
theorem checkedAdd_returns {x y : I256} (h : (x.value + y.value).natAbs < 2 ^ 255) :
    Returns I256.value (expect (x.checkedAdd y)) (some (x.value + y.value)) := by
  refine .expect ((I256.checkedAdd_spec x y).trans ?_)
  exact if_pos (by unfold I256_MIN I256_MAX; omega)

theorem checkedSub_returns {x y : I256} (h : (x.value - y.value).natAbs < 2 ^ 255) :
    Returns I256.value (expect (x.checkedSub y)) (some (x.value - y.value)) := by
  refine .expect ((I256.checkedSub_spec x y).trans ?_)
  exact if_pos (by unfold I256_MIN I256_MAX; omega)

theorem natAbs_toInt_le (v : U128) : v.toInt.natAbs ≤ 2 ^ 127 := by
  have := v.isLt
  rcases I256.toInt_cases v with ⟨_, _, _⟩ | ⟨_, _, _⟩ <;> omega

/-- The 256-bit maintenance equity never overflows. -/
theorem accountEquityMaintRawWide_returns (a : Account) {capital pnl feeCredits : U128}
    (hcapital : a.capital = capital.toNat) (hpnl : a.pnl = pnl.toInt)
    (hfees : a.feeCredits = feeCredits.toInt) :
    Returns I256.value (accountEquityMaintRawWide capital pnl feeCredits)
      (some (Percolator.accountEquityMaintRawWide a)) := by
  have := capital.isLt
  have := natAbs_toInt_le pnl
  have := natAbs_toInt_le feeCredits
  have debt := toNat_feeDebtU128Checked feeCredits
  unfold Percolator.feeDebtU128Checked at debt
  obtain ⟨sum, added, value⟩ := (checkedAdd_returns (x := I256.fromU128 capital)
    (y := I256.fromI128 pnl) (by simp only [I256.fromU128_value, I256.fromI128_value]; omega)).returned
  rw [I256.fromU128_value, I256.fromI128_value] at value
  have difference := checkedSub_returns (x := sum) (y := I256.fromU128 (feeDebtU128Checked feeCredits))
    (by rw [value, I256.fromU128_value]; omega)
  rw [value, I256.fromU128_value, toNat_feeDebtU128Checked] at difference
  unfold accountEquityMaintRawWide Percolator.accountEquityMaintRawWide
  rw [added, ok_bind, hcapital, hpnl, hfees]
  exact difference

theorem toInt_narrowEquity (wide : I256) : (narrowEquity wide).toInt = projectEquity wide.value := by
  have narrowed := I256.tryIntoI128_spec wide
  unfold narrowEquity projectEquity
  unfold Percolator.I256.tryIntoI128 at narrowed
  cases answer : wide.tryIntoI128 with
  | none =>
      rw [answer, Option.map_none] at narrowed
      rw [← narrowed]
      decide
  | some v =>
      rw [answer, Option.map_some] at narrowed
      rw [← narrowed]
      rfl

theorem equityLane_returns {negPnl : U128} (capital eff feeCredits : U128) (loss : negPnl.toInt ≤ 0) :
    Returns BitVec.toInt (equityLane capital negPnl eff feeCredits)
      (some (projectEquity (capital.toNat + negPnl.toInt + eff.toNat -
        Percolator.feeDebtU128Checked feeCredits.toInt))) := by
  have := capital.isLt
  have := eff.isLt
  have := natAbs_toInt_le negPnl
  have := natAbs_toInt_le feeCredits
  have debt := toNat_feeDebtU128Checked feeCredits
  unfold Percolator.feeDebtU128Checked at debt
  obtain ⟨s₁, added, v₁⟩ := (checkedAdd_returns (x := I256.fromU128 capital)
    (y := I256.fromI128 negPnl) (by simp only [I256.fromU128_value, I256.fromI128_value]; omega)).returned
  rw [I256.fromU128_value, I256.fromI128_value] at v₁
  obtain ⟨s₂, gained, v₂⟩ := (checkedAdd_returns (x := s₁) (y := I256.fromU128 eff)
    (by rw [v₁, I256.fromU128_value]; omega)).returned
  rw [v₁, I256.fromU128_value] at v₂
  obtain ⟨s₃, paid, v₃⟩ := (checkedSub_returns (x := s₂)
    (y := I256.fromU128 (feeDebtU128Checked feeCredits)) (by rw [v₂, I256.fromU128_value]; omega)).returned
  rw [v₂, I256.fromU128_value, toNat_feeDebtU128Checked] at v₃
  unfold equityLane
  rw [added, ok_bind, gained, ok_bind, paid, ok_bind]
  refine .of_value ?_
  rw [toInt_narrowEquity, v₃]

theorem cappedFee_returns (rate : U128) (dt : U64) :
    Computes BitVec.toNat (cappedFee rate dt)
      ((Percolator.U256.checkedMul rate.toNat dt.toNat).map (min · MAX_PROTOCOL_FEE_ABS)) := by
  have product := U256.checkedMul_spec (U256.fromU128 rate) (U256.fromU128 (dt.setWidth 128))
  rw [U256.value_fromU128, U256.value_fromU128, toNat_widened] at product
  have target : (Percolator.U256.checkedMul rate.toNat dt.toNat).map (min · MAX_PROTOCOL_FEE_ABS) =
      (Percolator.U256.checkedMul rate.toNat dt.toNat >>= fun raw => some (min raw MAX_PROTOCOL_FEE_ABS)) := by
    cases Percolator.U256.checkedMul rate.toNat dt.toNat <;> rfl
  rw [target]
  refine Computes.step product fun raw _ => ?_
  have cap : (U256.fromU128 (BitVec.ofNat 128 MAX_PROTOCOL_FEE_ABS)).value = MAX_PROTOCOL_FEE_ABS := by
    decide
  have least : (if U256.lt (U256.fromU128 (BitVec.ofNat 128 MAX_PROTOCOL_FEE_ABS)) raw then
      U256.fromU128 (BitVec.ofNat 128 MAX_PROTOCOL_FEE_ABS) else raw).value =
        min raw.value MAX_PROTOCOL_FEE_ABS := by
    by_cases above : U256.lt (U256.fromU128 (BitVec.ofNat 128 MAX_PROTOCOL_FEE_ABS)) raw = true
    · rw [if_pos above, cap]
      rw [U256.lt_iff, cap] at above
      omega
    · rw [if_neg above]
      rw [U256.lt_iff, cap] at above
      omega
  refine .okOr ((U256.tryIntoU128_spec _).trans ?_)
  rw [least]
  exact if_pos ((min_le_right _ _).trans (by decide))

end Wide
end Percolator
