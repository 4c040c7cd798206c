import Percolator.Oracle.State
import Percolator.Program.Crank
import Percolator.Program.Params

/-!
The instructions of the program on one market.

A handler runs on the engine in the slab and lists the token transfers it invokes. It starts
where the accounts of the transaction have been checked; `slot` is what `Clock::get` returns.
A transaction with a check or a transfer that fails is rolled back as a whole.
-/

namespace Percolator.Program

open Effect

/-- How an instruction fails: with an error of the program, or by a panic. -/
inductive Failure where
  | error (e : PercolatorError)
  | panic
deriving DecidableEq, Repr

/-- A token transfer that the program invokes. -/
inductive Transfer where
  | toVault (amount : Nat)
  | fromVault (amount : Nat)
deriving DecidableEq, Repr

abbrev Handler : Type → Type := Effect Failure Transfer RiskEngine

/-- `return Err(e)` if `c` holds. -/
def reject (c : Prop) [Decidable c] (e : PercolatorError) : Handler Unit := failIf c (.error e)

/-- `ok_or(e)?`. -/
def okOr {α : Type} (o : Option α) (e : PercolatorError) : Handler α := demand o (.error e)

/-- A call of the engine: its errors are `EngineError`, its panics abort the transaction. -/
def callEngine {α : Type} (op : Op α) : Handler α := fun s =>
  match op s with
  | .ok a s' _ => .ok a s' []
  | .fault f s' => .fault (if f.riskError = none then .panic else .error .engineError) s'

def PROTOCOL_LP_OWNER_SENTINEL : Bytes32 := BitVec.allOnes 256
def KIND_LP : Nat := 1
def LIQ_BOUNTY_BPS : Nat := 50
def CRANK_BOUNTY : Nat := 1000
def STALE_SLOTS : Nat := 150

/-- The scan of the account table for the slot of an owner. -/
def findOwner (s : RiskEngine) (key : Bytes32) : Option Nat :=
  (List.range (min s.params.maxAccounts s.maxAccounts)).find? fun i =>
    s.isUsed i && decide ((s.accounts i).owner = key)

/-- `read_oracle_price` from the bytes of the feed account. -/
def readOraclePrice (data : List Byte) (currentSlot : Nat) : Except PercolatorError Nat :=
  match Oracle.Feed.readFrom data with
  | .error _ => .error .staleOracle
  | .ok feed =>
      if feed.isInitialized = false then .error .staleOracle
      else if currentSlot < feed.lastUpdateSlot.toNat then .error .staleOracle
      else if STALE_SLOTS < currentSlot - feed.lastUpdateSlot.toNat then .error .staleOracle
      else if feed.priceLamportsPerToken.toNat = 0 ∨ MAX_ORACLE_PRICE < feed.priceLamportsPerToken.toNat then
        .error .staleOracle
      else .ok feed.priceLamportsPerToken.toNat

def oraclePrice (data : List Byte) (slot : UInt64) : Handler Nat :=
  match readOraclePrice data slot.toNat with
  | .error e => fail (.error e)
  | .ok price => pure price

/-! ### Deposits and withdrawals -/

/-- The slot of a depositor: the one it has, or else the head of the free list. -/
def depositSlot (user : Bytes32) : Handler (Nat × Bool) := do
  let s ← read
  match findOwner s user with
  | some i => pure (i, false)
  | none => do
      reject (s.freeHead = NIL) .slabFull
      pure (s.freeHead, true)

def processDeposit (user : Bytes32) (args : DepositArgs) (slot : UInt64) : Handler Unit := do
  reject (args.amount = 0) .zeroAmount
  let (chosenIdx, isFreshAccount) ← depositSlot user
  callEngine (deposit chosenIdx args.amount.toNat slot.toNat)
  whenever (isFreshAccount = true) (callEngine (setOwner chosenIdx user))
  emit (.toVault args.amount.toNat)

def processWithdraw (user : Bytes32) (args : WithdrawArgs) (slot : UInt64) : Handler Unit := do
  reject (args.amount = 0) .zeroAmount
  let s ← read
  let chosenIdx ← okOr (findOwner s user) .engineError
  callEngine (withdraw chosenIdx args.amount.toNat s.lastOraclePrice slot.toNat 0 s.params.hMin s.params.hMax)
  emit (.fromVault args.amount.toNat)

/-- Mark an account as the one of the protocol LP. -/
def Account.asLp (a : Account) : Account := { a with kind := KIND_LP, owner := PROTOCOL_LP_OWNER_SENTINEL }

def processBootstrapLp (args : BootstrapLpArgs) (slot : UInt64) : Handler Unit := do
  reject (args.amount = 0) .zeroAmount
  let s ← read
  reject (s.isUsed PROTOCOL_LP_SLOT = true) .lpAlreadyBootstrapped
  reject (s.freeHead ≠ PROTOCOL_LP_SLOT) .lpAlreadyBootstrapped
  callEngine (deposit PROTOCOL_LP_SLOT args.amount.toNat slot.toNat)
  update fun s => s.setAccount PROTOCOL_LP_SLOT (Account.asLp (s.accounts PROTOCOL_LP_SLOT))
  emit (.toVault args.amount.toNat)

/-! ### Orders -/

/-- `opens_on_user_side`: the order opens or grows a position on the side it is for. -/
def opensOnUserSide (curUserPos : Int) (userSide : Side) (size : Nat) : Prop :=
  sideOfI128 curUserPos = none ∨ sideOfI128 curUserPos = some userSide ∨ curUserPos.natAbs < size

instance (curUserPos : Int) (userSide : Side) (size : Nat) : Decidable (opensOnUserSide curUserPos userSide size) := by
  unfold opensOnUserSide
  infer_instance

/-- The counterparty is bootstrapped, and the side of the user is open to the order. -/
def sideModeGate (userIdx : Nat) (userSide : Side) (size : Nat) : Handler Unit := do
  let s ← read
  reject (s.isUsed PROTOCOL_LP_SLOT = false ∨
    (s.accounts PROTOCOL_LP_SLOT).owner ≠ PROTOCOL_LP_OWNER_SENTINEL) .lpNotBootstrapped
  let curUserPos ← demand (effectivePosQ s userIdx) .panic
  reject (opensOnUserSide curUserPos userSide size ∧ (s.sides userSide).sideMode ≠ .normal) .drainOnly

/-- The side of an order. -/
def PlaceOrderArgs.userSide (args : PlaceOrderArgs) : Side := if args.side = 0 then .long else .short

/-- The parties of the trade, the buyer first. -/
def tradeParties (userSide : Side) (userIdx : Nat) : Nat × Nat :=
  match userSide with
  | .long => (userIdx, PROTOCOL_LP_SLOT)
  | .short => (PROTOCOL_LP_SLOT, userIdx)

def processPlaceOrder (user : Bytes32) (args : PlaceOrderArgs) (feed : List Byte) (slot : UInt64) :
    Handler Unit := do
  reject (args.size = 0) .zeroSize
  reject (1 < args.side) .invalidSide
  reject (args.maxPrice < args.minPrice) .slippageExceeded
  let price ← oraclePrice feed slot
  reject (price < args.minPrice.toNat ∨ args.maxPrice.toNat < price) .slippageExceeded
  let s ← read
  let userIdx ← okOr (findOwner s user) .engineError
  sideModeGate userIdx args.userSide args.size.toNat
  let (a, b) := tradeParties args.userSide userIdx
  callEngine (executeTrade a b price slot.toNat args.size.toNat price 0 s.params.hMin s.params.hMax)

/-! ### Liquidations -/

/-- `saturating_mul` of `u128`. -/
def saturatingMulU128 (a b : Nat) : Nat := min (a * b) U128_MAX

/-- Take `b` out of account `victim`, `c_tot` and the vault. -/
def payLiquidationBounty (victim b : Nat) : Handler Unit := do
  let s ← read
  update fun s => s.setAccount victim ((s.accounts victim).withCapital ((s.accounts victim).capital - b))
  let newCTot ← okOr (checkedSub s.cTot b) .engineError
  update (·.withCTot newCTot)
  let newV ← okOr (checkedSub s.vault b) .engineError
  update (·.withVault newV)

def processLiquidate (args : LiquidateArgs) (feed : List Byte) (slot : UInt64) : Handler Unit := do
  let victim := args.victimSlot.toNat
  let s ← read
  reject (victim = PROTOCOL_LP_SLOT) .protocolLpNotLiquidatable
  reject (s.maxAccounts ≤ victim) .invalidVictimSlot
  let price ← oraclePrice feed slot
  reject (s.isUsed victim = false) .invalidVictimSlot
  let origCapital := (s.accounts victim).capital
  let didLiquidate ← callEngine
    (liquidateAtOracle victim slot.toNat price .fullClose 0 s.params.hMin s.params.hMax)
  reject (didLiquidate = false) .accountHealthy
  let s ← read
  let target := saturatingMulU128 origCapital LIQ_BOUNTY_BPS / 10000
  let bounty := min target (s.accounts victim).capital
  whenever (0 < bounty) (payLiquidationBounty victim bounty)
  -- the amount of the transfer is cast to `u64`
  whenever (0 < bounty) (emit (.fromVault (bounty % 2 ^ 64)))

/-! ### Cranks -/

inductive CrankKind where
  | funding
  | gc
  | adlReset
deriving DecidableEq, Repr

def crankKind (kind : U8) : Option CrankKind :=
  if kind = 0 then some .funding
  else if kind = 1 then some .gc
  else if kind = 2 then some .adlReset
  else none

def crankFunding (slot : UInt64) : Handler Unit := do
  let s ← read
  reject (slot.toNat ≤ s.lastMarketSlot) .nothingToDo
  callEngine (liftM (accrueMarketTo slot.toNat s.lastOraclePrice 0))
  update ({ · with currentSlot := slot.toNat, lastCrankSlot := slot.toNat })

def crankGc (slot : UInt64) : Handler Unit := fun s =>
  match processCrankGc slot.toNat s with
  | .ok s' => .ok () s' []
  | .error .nothingToDo => .fault (.error .nothingToDo) s
  | .error .panic => .fault .panic s

/-- The account that an `AdlReset` settles. -/
def resetAnchor (s : RiskEngine) : Option Nat :=
  if s.isUsed PROTOCOL_LP_SLOT = true then some PROTOCOL_LP_SLOT
  else (List.range s.params.maxAccounts).find? (s.isUsed ·)

def crankAdlReset (slot : UInt64) : Handler Unit := do
  let before ← read
  let anchor ← okOr (resetAnchor before) .nothingToDo
  callEngine (settleAccount anchor before.lastOraclePrice slot.toNat 0 before.params.hMin before.params.hMax)
  let after ← read
  reject ((after.sides .long).sideMode = (before.sides .long).sideMode ∧
    (after.sides .short).sideMode = (before.sides .short).sideMode) .nothingToDo

/-- The bounty of a crank that did work, out of the insurance above its floor. -/
def payCrankBounty : Handler Unit := do
  let s ← read
  let available := s.insuranceFund - s.params.insuranceFloor
  let pay := min available CRANK_BOUNTY
  whenever (0 < pay) (do
    update (·.withInsuranceFund (s.insuranceFund - pay))
    let newV ← okOr (checkedSub s.vault pay) .engineError
    update (·.withVault newV))
  whenever (0 < pay) (emit (.fromVault pay))

def processCrank (args : CrankArgs) (slot : UInt64) : Handler Unit := do
  let kind ← okOr (crankKind args.kind) .invalidCrankKind
  match kind with
  | .funding => crankFunding slot
  | .gc => crankGc slot
  | .adlReset => crankAdlReset slot
  payCrankBounty

end Percolator.Program
