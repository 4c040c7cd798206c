import Percolator.Engine.Touch

/-!
Haircut, equity, margin and the conservation check.

Equities are exact integers, as the 256-bit intermediates of the source never
overflow on them; a partial function answers `none` where the source panics.
-/

namespace Percolator

open Effect

/-- `haircut_ratio`. -/
def haircutRatio (s : RiskEngine) : Nat × Nat :=
  if s.pnlMaturedPosTot = 0 then (1, 1)
  else (min s.residual s.pnlMaturedPosTot, s.pnlMaturedPosTot)

/-- `effective_matured_pnl`. -/
def effectiveMaturedPnl (s : RiskEngine) (idx : Nat) : Option Nat :=
  let released := (s.accounts idx).releasedPos
  if released = 0 then some 0
  else wideMulDivFloorU128 released (haircutRatio s).1 (haircutRatio s).2

/-- An equity as `i128`; what does not fit fails every gate. -/
def projectEquity (wide : Int) : Int := (toI128 wide).getD (I128_MIN + 1)

/-- `account_equity_maint_raw_wide`. -/
def accountEquityMaintRawWide (a : Account) : Int :=
  a.capital + a.pnl - feeDebtU128Checked a.feeCredits

/-- `account_equity_maint_raw`. -/
def accountEquityMaintRaw (a : Account) : Int := projectEquity (accountEquityMaintRawWide a)

/-- `account_equity_net`. -/
def accountEquityNet (a : Account) : Int := max 0 (accountEquityMaintRaw a)

/-- `account_equity_withdraw_raw`. -/
def accountEquityWithdrawRaw (s : RiskEngine) (idx : Nat) : Option Int := do
  let a := s.accounts idx
  let effMatured ← effectiveMaturedPnl s idx
  return projectEquity (a.capital + min a.pnl 0 + effMatured - feeDebtU128Checked a.feeCredits)

/-- `max_safe_flat_conversion_released`. -/
def maxSafeFlatConversionReleased (s : RiskEngine) (idx xCap hNum hDen : Nat) : Option Nat :=
  let eBefore := accountEquityMaintRaw (s.accounts idx)
  if xCap = 0 ∨ eBefore ≤ 0 then some 0
  else if hDen = 0 ∨ hNum = hDen then some xCap
  else (wideMulDivFloorU128 eBefore.toNat hDen (hDen - hNum)).map (min xCap)

/-- The notional of a position of `absQ`. -/
def notionalOf (absQ oraclePrice : Nat) : Option Nat := mulDivFloorU128 absQ oraclePrice POS_SCALE

/-- `notional`. -/
def notional (s : RiskEngine) (idx oraclePrice : Nat) : Option Nat := do
  let eff ← effectivePosQ s idx
  if eff = 0 then return 0
  notionalOf eff.natAbs oraclePrice

/-- A margin requirement: `bps` of a notional, and at least `floor`. -/
def marginReq (notionalValue bps floor : Nat) : Option Nat := do
  let proportional ← mulDivFloorU128 notionalValue bps 10000
  return max proportional floor

/-- The maintenance requirement of a notional. -/
def mmReq (p : RiskParams) (notionalValue : Nat) : Option Nat :=
  marginReq notionalValue p.maintenanceMarginBps p.minNonzeroMmReq

/-- The initial requirement of a notional. -/
def imReq (p : RiskParams) (notionalValue : Nat) : Option Nat :=
  marginReq notionalValue p.initialMarginBps p.minNonzeroImReq

/-- `is_above_maintenance_margin`. -/
def isAboveMaintenanceMargin (s : RiskEngine) (idx oraclePrice : Nat) : Option Bool := do
  let eqNet := accountEquityNet (s.accounts idx)
  let eff ← effectivePosQ s idx
  if eff = 0 then return decide (0 < eqNet)
  let req ← mmReq s.params (← notional s idx oraclePrice)
  return decide (min (req : Int) I128_MAX < eqNet)

/-- `account_equity_trade_open_raw`. -/
def accountEquityTradeOpenRaw (s : RiskEngine) (idx : Nat) (candidateTradePnl : Int) :
    Option Int := do
  let a := s.accounts idx
  let tradeGain := i128ClampPos candidateTradePnl
  let posPnl := i128ClampPos a.pnl
  let posPnlTradeOpen := posPnl - tradeGain
  let pnlTradeOpen := (checkedSubI128 a.pnl tradeGain).getD (I128_MIN + 1)
  match (checkedSub s.pnlPosTot posPnl).bind (checkedAddU128 · posPnlTradeOpen) with
  | none => return I128_MIN + 1
  | some totOpen => do
      let pnlEff ← if totOpen = 0 then some posPnlTradeOpen
        else mulDivFloorU128 posPnlTradeOpen (min s.residual totOpen) totOpen
      return projectEquity
        (a.capital + min pnlTradeOpen 0 + pnlEff - feeDebtU128Checked a.feeCredits)

/-- `is_above_initial_margin_trade_open`. -/
def isAboveInitialMarginTradeOpen (s : RiskEngine) (idx oraclePrice : Nat)
    (candidateTradePnl : Int) : Option Bool := do
  let eq ← accountEquityTradeOpenRaw s idx candidateTradePnl
  let eff ← effectivePosQ s idx
  if eff = 0 then return decide (0 ≤ eq)
  let req ← imReq s.params (← notional s idx oraclePrice)
  return decide (min (req : Int) I128_MAX ≤ eq)

/-- `check_conservation`. -/
def checkConservation (s : RiskEngine) : Bool :=
  decide (s.cTot + s.insuranceFund ≤ U128_MAX) && decide (s.cTot + s.insuranceFund ≤ s.vault)

/-- `sweep_empty_market_surplus_to_insurance`. -/
def sweepEmptyMarketSurplusToInsurance : Act Unit := do
  let s ← read
  whenever (s.numUsedAccounts = 0 ∧ s.cTot = 0 ∧ s.pnlPosTot = 0 ∧ s.pnlMaturedPosTot = 0 ∧
      (s.sides .long).oiEffQ = 0 ∧ (s.sides .short).oiEffQ = 0) (do
    rejectIf (s.vault < s.insuranceFund) .corruptState
    let fund ← orErr (checkedAddU128 s.insuranceFund (s.vault - s.insuranceFund)) .overflow
    update (·.withInsuranceFund fund))

/-- `assert_public_postconditions`. -/
def assertPublicPostconditions : Op Unit := do
  let s ← read
  corruptIf (checkConservation s = false) .assertPublicPostconditions
  corruptIf ((s.sides .long).oiEffQ ≠ (s.sides .short).oiEffQ) .assertPublicPostconditions

end Percolator
