import Percolator.Engine.Liquidation
import Percolator.Engine.Slots

/-!
The Live instructions on single accounts and on the insurance fund.
-/

namespace Percolator

open Effect

/-- `set_owner`. -/
def setOwner (idx : Nat) (owner : Bytes32) : Op Unit := do
  let s ← read
  rejectIf (s.isUsed idx = false) .unauthorized
  rejectIf (owner = 0) .unauthorized
  rejectIf ((s.accounts idx).owner ≠ 0) .unauthorized
  writeAccount idx (·.withOwner owner)

/-- The preconditions on the slot that every Live instruction without accrual makes. -/
def checkLiveSlot (nowSlot : Nat) : Act Unit := do
  let s ← read
  rejectIf (nowSlot < s.currentSlot) .overflow
  checkLiveAccrualEnvelope nowSlot

/-- The vault after `amount` comes in. -/
def vaultAfter (s : RiskEngine) (amount : Nat) : Act Nat := do
  let v ← orErr (checkedAddU128 s.vault amount) .overflow
  rejectIf (MAX_VAULT_TVL < v) .overflow
  pure v

/-- Book a deposit of `amount` into account `idx`. -/
def creditDeposit (idx amount vault : Nat) : Act Unit := do
  update (·.withVault vault)
  let s ← read
  let newCap ← orErr (checkedAddU128 (s.accounts idx).capital amount) .overflow
  setCapital idx newCap

/-- `deposit_not_atomic`. -/
def deposit (idx amount nowSlot : Nat) : Op Unit := do
  let s ← read
  rejectIf (s.marketMode ≠ .live) .unauthorized
  rejectIf (nowSlot < s.currentSlot) .overflow
  rejectIf (nowSlot < s.lastMarketSlot) .overflow
  checkLiveAccrualEnvelope nowSlot
  let vCandidate ← vaultAfter s amount
  (if s.isUsed idx = false then do
    rejectIf (amount < s.params.minInitialDeposit) .insufficientBalance
    materializeAt idx nowSlot
  else pure ())
  let s ← read
  rejectIf ((s.accounts idx).pnl = I128_MIN) .corruptState
  update (·.withCurrentSlot nowSlot)
  creditDeposit idx amount vCandidate
  settleLosses idx
  let s ← read
  whenever ((s.accounts idx).positionBasisQ = 0 ∧ 0 ≤ (s.accounts idx).pnl) (feeDebtSweep idx)
  assertPublicPostconditions

/-- The post-withdrawal margin of an open position. -/
def checkWithdrawMargin (idx amount oraclePrice : Nat) : Act Unit := do
  let s ← read
  let eff ← expect (effectivePosQ s idx)
  whenever (eff ≠ 0) (do
    let eqWithdraw ← expect (accountEquityWithdrawRaw s idx)
    let req ← expect ((notional s idx oraclePrice).bind (imReq s.params))
    rejectIf (saturatingSubI128 eqWithdraw (asI128 amount) < asI128 req) .undercollateralized)

/-- Pay `amount` of the capital of account `idx` out of the vault. -/
def payOut (idx amount : Nat) : Act Unit := do
  let s ← read
  setCapital idx ((s.accounts idx).capital - amount)
  let v ← orErr (checkedSub s.vault amount) .corruptState
  update (·.withVault v)

/-- `withdraw_not_atomic`. -/
def withdraw (idx amount oraclePrice nowSlot : Nat) (fundingRateE9 : Int)
    (admitHMin admitHMax : Nat) : Op Unit := do
  validateAdmissionPair admitHMin admitHMax
  rejectIf (oraclePrice = 0 ∨ MAX_ORACLE_PRICE < oraclePrice) .overflow
  let s ← read
  rejectIf (s.isUsed idx = false) .accountNotFound
  rejectIf (s.marketMode ≠ .live) .unauthorized
  accrueAndAnchor nowSlot oraclePrice fundingRateE9
  let ctx ← touchAccountLiveLocal idx (.newWithAdmission admitHMin admitHMax)
  finalizeTouchedAccountsPostLive ctx
  let s ← read
  rejectIf ((s.accounts idx).capital < amount) .insufficientBalance
  rejectIf ((s.accounts idx).capital - amount ≠ 0 ∧
    (s.accounts idx).capital - amount < s.params.minInitialDeposit) .insufficientBalance
  checkWithdrawMargin idx amount oraclePrice
  payOut idx amount
  endOfInstructionResets ctx
  assertPublicPostconditions

/-- `settle_account_not_atomic`. -/
def settleAccount (idx oraclePrice nowSlot : Nat) (fundingRateE9 : Int)
    (admitHMin admitHMax : Nat) : Op Unit := do
  validateAdmissionPair admitHMin admitHMax
  rejectIf (oraclePrice = 0 ∨ MAX_ORACLE_PRICE < oraclePrice) .overflow
  let s ← read
  rejectIf (s.isUsed idx = false) .accountNotFound
  rejectIf (s.marketMode ≠ .live) .unauthorized
  accrueAndAnchor nowSlot oraclePrice fundingRateE9
  let ctx ← touchAccountLiveLocal idx (.newWithAdmission admitHMin admitHMax)
  finalizeTouchedAccountsPostLive ctx
  endOfInstructionResets ctx
  assertPublicPostconditions

/-- Convert `xReq` of released PnL at the current haircut. -/
def convertAtHaircut (idx xReq : Nat) : Act Unit := do
  let s ← read
  rejectIf (xReq = 0 ∨ (s.accounts idx).releasedPos < xReq) .overflow
  let (hNum, hDen) := haircutRatio s
  whenever ((s.accounts idx).positionBasisQ = 0) (do
    let maxSafe ← expect (maxSafeFlatConversionReleased s idx xReq hNum hDen)
    rejectIf (maxSafe < xReq) .undercollateralized)
  let y ← expect (wideMulDivFloorU128 xReq hNum hDen)
  convertInto idx xReq y

/-- The health an account must have after a conversion. -/
def checkConverted (idx oraclePrice : Nat) : Act Unit := do
  let s ← read
  let eff ← expect (effectivePosQ s idx)
  if eff ≠ 0 then do
    let healthy ← expect (isAboveMaintenanceMargin s idx oraclePrice)
    rejectIf (healthy = false) .undercollateralized
  else rejectIf (accountEquityMaintRaw (s.accounts idx) < 0) .undercollateralized

/-- `convert_released_pnl_not_atomic`. -/
def convertReleasedPnl (idx xReq oraclePrice nowSlot : Nat) (fundingRateE9 : Int)
    (admitHMin admitHMax : Nat) : Op Unit := do
  validateAdmissionPair admitHMin admitHMax
  rejectIf (oraclePrice = 0 ∨ MAX_ORACLE_PRICE < oraclePrice) .overflow
  let s ← read
  rejectIf (s.isUsed idx = false) .accountNotFound
  rejectIf (s.marketMode ≠ .live) .unauthorized
  accrueAndAnchor nowSlot oraclePrice fundingRateE9
  let ctx ← touchAccountLiveLocal idx (.newWithAdmission admitHMin admitHMax)
  convertAtHaircut idx xReq
  feeDebtSweep idx
  checkConverted idx oraclePrice
  finalizeTouchedAccountsPostLive ctx
  endOfInstructionResets ctx
  assertPublicPostconditions

/-- Pay the whole capital of account `idx` out of the vault. -/
def payOutAll (idx : Nat) : Act Nat := do
  let s ← read
  let capital := (s.accounts idx).capital
  rejectIf (s.vault < capital) .insufficientBalance
  update (·.withVault (s.vault - capital))
  setCapital idx 0
  pure capital

/-- `close_account_not_atomic`. -/
def closeAccount (idx nowSlot oraclePrice : Nat) (fundingRateE9 : Int)
    (admitHMin admitHMax : Nat) : Op Nat := do
  validateAdmissionPair admitHMin admitHMax
  let s ← read
  rejectIf (s.marketMode ≠ .live) .unauthorized
  rejectIf (s.isUsed idx = false) .accountNotFound
  accrueAndAnchor nowSlot oraclePrice fundingRateE9
  let ctx ← touchAccountLiveLocal idx (.newWithAdmission admitHMin admitHMax)
  finalizeTouchedAccountsPostLive ctx
  let s ← read
  let a := s.accounts idx
  let eff ← expect (effectivePosQ s idx)
  rejectIf (eff ≠ 0) .undercollateralized
  rejectIf (0 < a.pnl) .pnlNotWarmedUp
  rejectIf (a.pnl < 0) .undercollateralized
  rejectIf (a.feeCredits < 0) .undercollateralized
  rejectIf (a.reservedPnl ≠ 0 ∨ a.schedPresent = true ∨ a.pendingPresent = true) .undercollateralized
  let capital ← payOutAll idx
  endOfInstructionResets ctx
  freeSlot idx
  sweepEmptyMarketSurplusToInsurance
  assertPublicPostconditions
  pure capital

/-- Move the dust capital of account `idx` to insurance and forgive its fee debt. -/
def reclaimDust (idx : Nat) : Act Unit := do
  let s ← read
  let dustCap := (s.accounts idx).capital
  whenever (0 < dustCap) (do
    let fund ← orErr (checkedAddU128 s.insuranceFund dustCap) .overflow
    setCapital idx 0
    update (·.withInsuranceFund fund))
  writeAccount idx fun a => a.withFeeCredits (max a.feeCredits 0)

/-- `reclaim_empty_account_not_atomic`. -/
def reclaimEmptyAccount (idx nowSlot : Nat) : Op Unit := do
  let s ← read
  rejectIf (s.marketMode ≠ .live) .unauthorized
  rejectIf (s.isUsed idx = false) .accountNotFound
  checkLiveSlot nowSlot
  let a := s.accounts idx
  rejectIf (a.positionBasisQ ≠ 0) .undercollateralized
  rejectIf (a.pnl ≠ 0) .undercollateralized
  rejectIf (a.reservedPnl ≠ 0) .undercollateralized
  rejectIf (a.schedPresent = true ∨ a.pendingPresent = true) .undercollateralized
  rejectIf (0 < a.feeCredits) .corruptState
  update (·.withCurrentSlot nowSlot)
  rejectIf (s.params.minInitialDeposit ≤ a.capital ∧ a.capital ≠ 0) .undercollateralized
  reclaimDust idx
  freeSlot idx
  sweepEmptyMarketSurplusToInsurance
  assertPublicPostconditions

/-- `top_up_insurance_fund`. -/
def topUpInsuranceFund (amount nowSlot : Nat) : Op Bool := do
  let s ← read
  rejectIf (s.marketMode ≠ .live) .unauthorized
  checkLiveSlot nowSlot
  let newVault ← vaultAfter s amount
  let newIns ← orErr (checkedAddU128 s.insuranceFund amount) .overflow
  update fun s => ((s.withCurrentSlot nowSlot).withVault newVault).withInsuranceFund newIns
  pure (decide (s.params.insuranceFloor < newIns))

/-- `charge_account_fee_not_atomic`. -/
def chargeAccountFee (idx feeAbs nowSlot : Nat) : Op Unit := do
  let s ← read
  rejectIf (s.marketMode ≠ .live) .unauthorized
  rejectIf (s.isUsed idx = false) .accountNotFound
  checkLiveSlot nowSlot
  rejectIf (MAX_PROTOCOL_FEE_ABS < feeAbs) .overflow
  update (·.withCurrentSlot nowSlot)
  whenever (0 < feeAbs) (do
    let _ ← chargeFeeToInsurance idx feeAbs)
  assertPublicPostconditions

/-- `settle_flat_negative_pnl_not_atomic`. -/
def settleFlatNegativePnl (idx nowSlot : Nat) : Op Unit := do
  let s ← read
  rejectIf (s.marketMode ≠ .live) .unauthorized
  rejectIf (s.isUsed idx = false) .accountNotFound
  checkLiveSlot nowSlot
  let a := s.accounts idx
  rejectIf (a.positionBasisQ ≠ 0) .undercollateralized
  rejectIf (a.reservedPnl ≠ 0 ∨ a.schedPresent = true ∨ a.pendingPresent = true) .undercollateralized
  if 0 ≤ a.pnl then pure ()
  else do
    update (·.withCurrentSlot nowSlot)
    settleLosses idx
    resolveFlatNegative idx
    assertPublicPostconditions

/-- `sync_account_fee_to_slot_not_atomic`. -/
def syncAccountFee (idx nowSlot feeRatePerSlot : Nat) : Op Unit := do
  let s ← read
  rejectIf (s.isUsed idx = false) .accountNotFound
  rejectIf (nowSlot < s.currentSlot) .overflow
  match s.marketMode with
  | .live => do
      checkLiveAccrualEnvelope nowSlot
      update (·.withCurrentSlot nowSlot)
      syncAccountFeeToSlot idx nowSlot feeRatePerSlot
      assertPublicPostconditions
  | .resolved => do
      syncAccountFeeToSlot idx s.resolvedSlot feeRatePerSlot
      assertPublicPostconditions

/-- `deposit_fee_credits`. -/
def depositFeeCredits (idx amount nowSlot : Nat) : Op Unit := do
  let s ← read
  rejectIf (s.marketMode ≠ .live) .unauthorized
  rejectIf (s.isUsed idx = false) .accountNotFound
  checkLiveSlot nowSlot
  rejectIf (feeDebtU128Checked (s.accounts idx).feeCredits < amount) .overflow
  if amount = 0 then update (·.withCurrentSlot nowSlot)
  else do
    rejectIf (I128_MAX < amount) .overflow
    let newVault ← vaultAfter s amount
    let newIns ← orErr (checkedAddU128 s.insuranceFund amount) .overflow
    let newCredits ← orErr (checkedAddI128 (s.accounts idx).feeCredits amount) .overflow
    update fun s => ((s.withCurrentSlot nowSlot).withVault newVault).withInsuranceFund newIns
    writeAccount idx (·.withFeeCredits newCredits)

end Percolator
