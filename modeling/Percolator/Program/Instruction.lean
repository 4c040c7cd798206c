import Mathlib.Data.Set.Operations
import Percolator.Base.Wire

/-!
The wire format of the Percolator program: one tag byte and the fields of the
variant, written by borsh, which writes integers little endian in their own
width and the fields of a struct in their order.
-/

namespace Percolator.Program

abbrev U8 := BitVec 8
abbrev U16 := BitVec 16
abbrev U64 := BitVec 64
abbrev U128 := BitVec 128

def u8 : Codec U8 := .int 1
def u16 : Codec U16 := .int 2
def u64 : Codec U64 := .int 8
def u128 : Codec U128 := .int 16

/-- The errors of the program that its modelled functions answer. -/
inductive PercolatorError where
  | invalidInstructionData
  | invalidRiskParams
  | zeroAmount
  | slabFull
  | engineError
  | staleOracle
  | slippageExceeded
  | drainOnly
  | invalidSide
  | lpNotBootstrapped
  | lpAlreadyBootstrapped
  | zeroSize
  | accountHealthy
  | invalidVictimSlot
  | protocolLpNotLiquidatable
  | invalidCrankKind
  | nothingToDo
deriving DecidableEq, Repr

inductive InstructionTag where
  | createSlab
  | deposit
  | withdraw
  | placeOrder
  | liquidate
  | crank
  | initializeEngine
  | bootstrapLp
  | createMarket
deriving DecidableEq, Repr

def InstructionTag.toU8 : InstructionTag → U8
  | .createSlab => 0
  | .deposit => 1
  | .withdraw => 2
  | .placeOrder => 3
  | .liquidate => 4
  | .crank => 5
  | .initializeEngine => 6
  | .bootstrapLp => 7
  | .createMarket => 8

/-! ### Arguments -/

structure CreateSlabArgs where
  bump : U8
  vaultBump : U8
deriving DecidableEq, Repr

structure DepositArgs where
  amount : U64
deriving DecidableEq, Repr

structure WithdrawArgs where
  amount : U64
deriving DecidableEq, Repr

structure PlaceOrderArgs where
  side : U8
  size : U64
  maxPrice : U64
  minPrice : U64
deriving DecidableEq, Repr

structure BootstrapLpArgs where
  amount : U64
deriving DecidableEq, Repr

structure CreateMarketArgs where
  vaultBump : U8
  feeLamports : U64
deriving DecidableEq, Repr

structure LiquidateArgs where
  victimSlot : U16
deriving DecidableEq, Repr

structure CrankArgs where
  kind : U8
deriving DecidableEq, Repr

/-- The mirror of `RiskParams` on the wire. -/
structure RiskParamsArgs where
  maintenanceMarginBps : U64
  initialMarginBps : U64
  tradingFeeBps : U64
  maxAccounts : U64
  maxCrankStalenessSlots : U64
  liquidationFeeBps : U64
  liquidationFeeCap : U128
  minLiquidationAbs : U128
  minInitialDeposit : U128
  minNonzeroMmReq : U128
  minNonzeroImReq : U128
  insuranceFloor : U128
  hMin : U64
  hMax : U64
  resolvePriceDeviationBps : U64
  maxAccrualDtSlots : U64
  maxAbsFundingE9PerSlot : U64
  minFundingLifetimeSlots : U64
  maxActivePositionsPerSide : U64
deriving DecidableEq, Repr

structure InitializeEngineArgs where
  riskParams : RiskParamsArgs
  initOraclePrice : U64
deriving DecidableEq, Repr

inductive PercolatorInstruction where
  | createSlab (a : CreateSlabArgs)
  | deposit (a : DepositArgs)
  | withdraw (a : WithdrawArgs)
  | placeOrder (a : PlaceOrderArgs)
  | liquidate (a : LiquidateArgs)
  | crank (a : CrankArgs)
  | initializeEngine (a : InitializeEngineArgs)
  | bootstrapLp (a : BootstrapLpArgs)
  | createMarket (a : CreateMarketArgs)
deriving DecidableEq, Repr

/-! ### Borsh formats of the arguments, field after field -/

def CreateSlabArgs.borsh : Codec CreateSlabArgs :=
  (u8.pair u8).as
    { toFun := fun (bump, vaultBump) => ⟨bump, vaultBump⟩
      invFun := fun a => (a.bump, a.vaultBump)
      left_inv := fun _ => rfl
      right_inv := fun _ => rfl }

def DepositArgs.borsh : Codec DepositArgs :=
  u64.as ⟨fun amount => ⟨amount⟩, fun a => a.amount, fun _ => rfl, fun _ => rfl⟩

def WithdrawArgs.borsh : Codec WithdrawArgs :=
  u64.as ⟨fun amount => ⟨amount⟩, fun a => a.amount, fun _ => rfl, fun _ => rfl⟩

def PlaceOrderArgs.borsh : Codec PlaceOrderArgs :=
  (u8.pair (u64.pair (u64.pair u64))).as
    { toFun := fun (side, size, maxPrice, minPrice) => ⟨side, size, maxPrice, minPrice⟩
      invFun := fun a => (a.side, a.size, a.maxPrice, a.minPrice)
      left_inv := fun _ => rfl
      right_inv := fun _ => rfl }

def BootstrapLpArgs.borsh : Codec BootstrapLpArgs :=
  u64.as ⟨fun amount => ⟨amount⟩, fun a => a.amount, fun _ => rfl, fun _ => rfl⟩

def CreateMarketArgs.borsh : Codec CreateMarketArgs :=
  (u8.pair u64).as
    { toFun := fun (vaultBump, feeLamports) => ⟨vaultBump, feeLamports⟩
      invFun := fun a => (a.vaultBump, a.feeLamports)
      left_inv := fun _ => rfl
      right_inv := fun _ => rfl }

def LiquidateArgs.borsh : Codec LiquidateArgs :=
  u16.as ⟨fun victimSlot => ⟨victimSlot⟩, fun a => a.victimSlot, fun _ => rfl, fun _ => rfl⟩

def CrankArgs.borsh : Codec CrankArgs :=
  u8.as ⟨fun kind => ⟨kind⟩, fun a => a.kind, fun _ => rfl, fun _ => rfl⟩

def RiskParamsArgs.borsh : Codec RiskParamsArgs :=
  (u64.pair (u64.pair (u64.pair (u64.pair (u64.pair (u64.pair
    (u128.pair (u128.pair (u128.pair (u128.pair (u128.pair (u128.pair
      (u64.pair (u64.pair (u64.pair (u64.pair (u64.pair (u64.pair u64)))))))))))))))))).as
    { toFun := fun (maintenanceMarginBps, initialMarginBps, tradingFeeBps, maxAccounts,
          maxCrankStalenessSlots, liquidationFeeBps, liquidationFeeCap, minLiquidationAbs,
          minInitialDeposit, minNonzeroMmReq, minNonzeroImReq, insuranceFloor, hMin, hMax,
          resolvePriceDeviationBps, maxAccrualDtSlots, maxAbsFundingE9PerSlot,
          minFundingLifetimeSlots, maxActivePositionsPerSide) =>
        { maintenanceMarginBps, initialMarginBps, tradingFeeBps, maxAccounts,
          maxCrankStalenessSlots, liquidationFeeBps, liquidationFeeCap, minLiquidationAbs,
          minInitialDeposit, minNonzeroMmReq, minNonzeroImReq, insuranceFloor, hMin, hMax,
          resolvePriceDeviationBps, maxAccrualDtSlots, maxAbsFundingE9PerSlot,
          minFundingLifetimeSlots, maxActivePositionsPerSide }
      invFun := fun a => (a.maintenanceMarginBps, a.initialMarginBps, a.tradingFeeBps,
        a.maxAccounts, a.maxCrankStalenessSlots, a.liquidationFeeBps, a.liquidationFeeCap,
        a.minLiquidationAbs, a.minInitialDeposit, a.minNonzeroMmReq, a.minNonzeroImReq,
        a.insuranceFloor, a.hMin, a.hMax, a.resolvePriceDeviationBps, a.maxAccrualDtSlots,
        a.maxAbsFundingE9PerSlot, a.minFundingLifetimeSlots, a.maxActivePositionsPerSide)
      left_inv := fun _ => rfl
      right_inv := fun _ => rfl }

def InitializeEngineArgs.borsh : Codec InitializeEngineArgs :=
  (RiskParamsArgs.borsh.pair u64).as
    { toFun := fun (riskParams, initOraclePrice) => ⟨riskParams, initOraclePrice⟩
      invFun := fun a => (a.riskParams, a.initOraclePrice)
      left_inv := fun _ => rfl
      right_inv := fun _ => rfl }

/-! ### The instruction -/

/-- `try_from_slice` of the arguments, with every failure one error. -/
def decode {α : Type} (borsh : Codec α) (variant : α → PercolatorInstruction)
    (rest : List Byte) : Except PercolatorError PercolatorInstruction :=
  match borsh.trySlice rest with
  | some a => .ok (variant a)
  | none => .error .invalidInstructionData

def unpack (input : List Byte) : Except PercolatorError PercolatorInstruction :=
  match input with
  | [] => .error .invalidInstructionData
  | tag :: rest =>
      if tag = InstructionTag.createSlab.toU8 then decode CreateSlabArgs.borsh .createSlab rest
      else if tag = InstructionTag.deposit.toU8 then decode DepositArgs.borsh .deposit rest
      else if tag = InstructionTag.withdraw.toU8 then decode WithdrawArgs.borsh .withdraw rest
      else if tag = InstructionTag.placeOrder.toU8 then
        decode PlaceOrderArgs.borsh .placeOrder rest
      else if tag = InstructionTag.liquidate.toU8 then decode LiquidateArgs.borsh .liquidate rest
      else if tag = InstructionTag.crank.toU8 then decode CrankArgs.borsh .crank rest
      else if tag = InstructionTag.initializeEngine.toU8 then
        decode InitializeEngineArgs.borsh .initializeEngine rest
      else if tag = InstructionTag.bootstrapLp.toU8 then
        decode BootstrapLpArgs.borsh .bootstrapLp rest
      else if tag = InstructionTag.createMarket.toU8 then
        decode CreateMarketArgs.borsh .createMarket rest
      else .error .invalidInstructionData

def PercolatorInstruction.pack : PercolatorInstruction → List Byte
  | .createSlab a => InstructionTag.createSlab.toU8 :: CreateSlabArgs.borsh.write a
  | .deposit a => InstructionTag.deposit.toU8 :: DepositArgs.borsh.write a
  | .withdraw a => InstructionTag.withdraw.toU8 :: WithdrawArgs.borsh.write a
  | .placeOrder a => InstructionTag.placeOrder.toU8 :: PlaceOrderArgs.borsh.write a
  | .liquidate a => InstructionTag.liquidate.toU8 :: LiquidateArgs.borsh.write a
  | .crank a => InstructionTag.crank.toU8 :: CrankArgs.borsh.write a
  | .initializeEngine a =>
      InstructionTag.initializeEngine.toU8 :: InitializeEngineArgs.borsh.write a
  | .bootstrapLp a => InstructionTag.bootstrapLp.toU8 :: BootstrapLpArgs.borsh.write a
  | .createMarket a => InstructionTag.createMarket.toU8 :: CreateMarketArgs.borsh.write a

/-! ### Exactness -/

section Exact

variable {α : Type} {borsh : Codec α} {variant : α → PercolatorInstruction}
  {ix : PercolatorInstruction} {input rest : List Byte}

theorem decode_write (a : α) : decode borsh variant (borsh.write a) = .ok (variant a) := by
  rw [decode, borsh.trySlice_write]

/-- Arguments that decode are written back byte for byte. -/
theorem of_decode (h : decode borsh variant rest = .ok ix) :
    ∃ a, ix = variant a ∧ rest = borsh.write a := by
  unfold decode at h
  split at h
  · rename_i a hread
    cases h
    exact ⟨a, rfl, Codec.of_trySlice hread⟩
  · cases h

theorem unpack_pack (ix : PercolatorInstruction) : unpack ix.pack = .ok ix := by
  cases ix <;>
    simp [PercolatorInstruction.pack, unpack, InstructionTag.toU8, decode_write]

theorem pack_of_unpack (h : unpack input = .ok ix) : ix.pack = input := by
  cases input with
  | nil => cases h
  | cons tag rest =>
      simp only [unpack] at h
      -- one case a tag: the arguments give the rest of the bytes and the tag the first
      split_ifs at h
      all_goals
        subst tag
        obtain ⟨a, rfl, rfl⟩ := of_decode h
        rfl

end Exact

/-- `unpack` accepts exactly what `pack` writes: every instruction reads back,
and nothing but its own encoding decodes to it. -/
theorem wire_exact :
    (∀ ix : PercolatorInstruction, unpack ix.pack = .ok ix) ∧
      (∀ b ix, unpack b = .ok ix → ix.pack = b) ∧
      (∀ b, (∃ ix, unpack b = .ok ix) ↔ b ∈ Set.range PercolatorInstruction.pack) ∧
      ∀ b b' ix, unpack b = .ok ix → unpack b' = .ok ix → b = b' := by
  refine ⟨unpack_pack, fun b ix h => pack_of_unpack h, fun b => ?_, fun b b' ix h h' => ?_⟩
  · constructor
    · rintro ⟨ix, h⟩
      exact ⟨ix, pack_of_unpack h⟩
    · rintro ⟨ix, rfl⟩
      exact ⟨ix, unpack_pack ix⟩
  · rw [← pack_of_unpack h, pack_of_unpack h']

example : unpack [5, 1] = .ok (.crank ⟨1⟩) := by decide

end Percolator.Program
