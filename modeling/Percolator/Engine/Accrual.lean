import Percolator.Engine.State

/-!
Accrual: the mark and funding indices of both sides, the live accrual envelope,
and the check of an admission pair.
-/

namespace Percolator

open Effect

/-- `check_live_accrual_envelope`. -/
def checkLiveAccrualEnvelope (nowSlot : Nat) : Act Unit := do
  let s ← read
  rejectIf (saturatingAddU64 s.lastMarketSlot s.params.maxAccrualDtSlots < nowSlot) .overflow

/-- `index + a * delta` through 256-bit intermediates. -/
def scaledAdd (index : Int) (a : Nat) (delta : Int) : Option Int := do
  let moved ← I256.checkedMulI256 a delta
  let wide ← I256.checkedAdd (← I256.fromI128 index) moved
  I256.tryIntoI128 wide

/-- `index - a * delta` through 256-bit intermediates. -/
def scaledSub (index : Int) (a : Nat) (delta : Int) : Option Int := do
  let moved ← I256.checkedMulI256 a delta
  let wide ← I256.checkedSub (← I256.fromI128 index) moved
  I256.tryIntoI128 wide

/-- `fund_num_total = fund_px_0 * rate * dt`. -/
def fundNumTotal (fundPx : Nat) (rate : Int) (dt : Nat) : Option Int := do
  let scaled ← I256.checkedMulI256 fundPx rate
  I256.checkedMulI256 scaled dt

/-- The K indices after a mark of `deltaP`. -/
def markIndices (s : RiskEngine) (longLive shortLive : Bool) (deltaP : Int) : Option (Int × Int) := do
  let kLong ← (if deltaP ≠ 0 ∧ longLive = true then
      scaledAdd (s.sides .long).adlCoeff (s.sides .long).adlMult deltaP
    else some (s.sides .long).adlCoeff)
  let kShort ← (if deltaP ≠ 0 ∧ shortLive = true then
      scaledSub (s.sides .short).adlCoeff (s.sides .short).adlMult deltaP
    else some (s.sides .short).adlCoeff)
  return (kLong, kShort)

/-- The F indices after funding at `rate` over `dt` slots. -/
def fundIndices (s : RiskEngine) (longLive shortLive : Bool) (rate : Int) (dt : Nat) :
    Option (Int × Int) :=
  if rate ≠ 0 ∧ 0 < dt ∧ longLive = true ∧ shortLive = true ∧ 0 < s.fundPxLast then do
    let total ← fundNumTotal s.fundPxLast rate dt
    let fLong ← scaledSub (s.sides .long).fNum (s.sides .long).adlMult total
    let fShort ← scaledAdd (s.sides .short).fNum (s.sides .short).adlMult total
    return (fLong, fShort)
  else some ((s.sides .long).fNum, (s.sides .short).fNum)

/-- `accrue_market_to`. -/
def accrueMarketTo (nowSlot oraclePrice : Nat) (fundingRateE9 : Int) : Act Unit := do
  let s ← read
  rejectIf (s.marketMode ≠ .live) .unauthorized
  rejectIf (oraclePrice = 0 ∨ MAX_ORACLE_PRICE < oraclePrice) .overflow
  rejectIf (s.params.maxAbsFundingE9PerSlot < fundingRateE9.natAbs) .overflow
  rejectIf (nowSlot < s.currentSlot) .overflow
  rejectIf (nowSlot < s.lastMarketSlot) .overflow
  let longLive := decide ((s.sides .long).oiEffQ ≠ 0)
  let shortLive := decide ((s.sides .short).oiEffQ ≠ 0)
  let totalDt := nowSlot - s.lastMarketSlot
  if totalDt = 0 ∧ s.lastOraclePrice = oraclePrice then
    update (·.withCurrentSlot nowSlot)
  else do
    rejectIf ((fundingRateE9 ≠ 0 ∧ longLive = true ∧ shortLive = true ∧ 0 < s.fundPxLast) ∧
      s.params.maxAccrualDtSlots < totalDt) .overflow
    let deltaP : Int := oraclePrice - s.lastOraclePrice
    let (kLong, kShort) ← orErr (markIndices s longLive shortLive deltaP) .overflow
    let (fLong, fShort) ← orErr (fundIndices s longLive shortLive fundingRateE9 totalDt) .overflow
    writeSide .long ({ · with adlCoeff := kLong, fNum := fLong })
    writeSide .short ({ · with adlCoeff := kShort, fNum := fShort })
    update ({ · with
      currentSlot := nowSlot, lastMarketSlot := nowSlot
      lastOraclePrice := oraclePrice, fundPxLast := oraclePrice })
    emit (.accrued deltaP s.fundPxLast fundingRateE9 totalDt)

/-- The conditions of `validate_admission_pair`. -/
structure AdmissionPair (p : RiskParams) (admitHMin admitHMax : Nat) : Prop where
  max_pos : 0 < admitHMax
  floor_le : p.hMin ≤ admitHMax
  min_le : admitHMin ≤ admitHMax
  max_le : admitHMax ≤ p.hMax
  min_ge : 0 < admitHMin → p.hMin ≤ admitHMin

instance (p : RiskParams) (admitHMin admitHMax : Nat) :
    Decidable (AdmissionPair p admitHMin admitHMax) :=
  decidable_of_iff (0 < admitHMax ∧ p.hMin ≤ admitHMax ∧ admitHMin ≤ admitHMax ∧
      admitHMax ≤ p.hMax ∧ (0 < admitHMin → p.hMin ≤ admitHMin))
    ⟨fun ⟨a, b, c, d, e⟩ => ⟨a, b, c, d, e⟩, fun ⟨a, b, c, d, e⟩ => ⟨a, b, c, d, e⟩⟩

/-- `validate_admission_pair`. -/
def validateAdmissionPair (admitHMin admitHMax : Nat) : Act Unit := do
  let s ← read
  rejectIf (¬ AdmissionPair s.params admitHMin admitHMax) .overflow

end Percolator
