import Percolator.Program.Runs
import Percolator.Program.State

/-!
The entry points of the program on the accounts of a transaction.

A handler gets the accounts as they are named, checks them, and writes to the ledger. Where the checks
have passed, the market in the slab is served as `Request.process` says, and the token transfers follow.
A check of the arguments that the source makes before those of the accounts stands before them here, and
the part on the market makes it again. A failed instruction is rolled back by the runtime.
-/

namespace Percolator.Program

open Effect

/-- `system_program::ID`. -/
def SYSTEM_PROGRAM_ID : Pubkey := 0

/-- `spl_token::ID`. -/
def SPL_TOKEN_ID : Pubkey := 0xa900ff7e85f58c3a91375b5fed85b41cac79ebce46e1cbd993a165d7e1f6dd06

def TREASURY_PUBKEY : Pubkey := 0x370894fe48b0e2759183bf5a07a588215ff2d63d1467e74e60e9e934d2324fc6

def MIN_MARKET_CREATION_FEE_LAMPORTS : Nat := 500000000

/-! ### Accounts and the ledger -/

/-- A token account of the token program. -/
structure TokenAccount where
  mint : Pubkey
  owner : Pubkey
  amount : Nat
  frozen : Bool
deriving DecidableEq, Repr

/-- The data of an account: as long as a slab, an initialized token account, or other bytes. -/
inductive AccountData where
  | slab (d : SlabData)
  | token (t : TokenAccount)
  | bytes (data : List Byte)

/-- `data_len() == slab_account_size()`, and then the data. -/
def AccountData.slab? : AccountData → Option SlabData
  | .slab d => some d
  | _ => none

/-- `spl_token::state::Account::unpack`. -/
def AccountData.token? : AccountData → Option TokenAccount
  | .token t => some t
  | _ => none

structure Holding where
  owner : Pubkey
  lamports : Nat
  data : AccountData

abbrev Ledger : Type := Pubkey → Holding

/-- An account as a handler gets it. -/
structure AccountInfo where
  key : Pubkey
  owner : Pubkey
  isSigner : Bool
  isWritable : Bool
  lamports : Nat
  data : AccountData

/-- What the program runs on: its address and its compiled size, and the parts of the chain it calls. -/
structure Runtime where
  programId : Pubkey
  /-- `MAX_ACCOUNTS`. -/
  maxAccounts : Nat
  /-- `create_program_address` of the vault seeds of a slab with a bump. -/
  createProgramAddress : Pubkey → U8 → Option Pubkey
  /-- Whether lamports exempt a slab from rent. -/
  isExempt : Nat → Bool
  /-- The bytes of an account's data. -/
  bytes : AccountData → List Byte
  /-- The keys that a transaction can be signed with. -/
  signs : Pubkey → Prop

/-- How an instruction fails: by a check of its accounts, on the market, for want of an account, or in a
call of another program. -/
inductive ProcessFailure where
  | account (e : AccountError)
  | market (f : Failure)
  | notEnoughAccountKeys
  | invocation
deriving DecidableEq, Repr

/-- What a successful instruction did. -/
inductive Receipt where
  /-- A slab got its header; the listing fee that was paid for it. -/
  | created (slab : Pubkey) (header : SlabHeader) (fee : Nat)
  | started (slab creator : Pubkey) (args : InitializeEngineArgs) (slot : UInt64)
  | served (slab : Pubkey) (request : Request) (slot : UInt64)

abbrev Invocation : Type → Type := Effect ProcessFailure Receipt Ledger

/-- `return Err(e)` if `c` holds. -/
def refuseIf (c : Prop) [Decidable c] (e : AccountError) : Invocation Unit := failIf c (.account e)

/-- `return Err(e)` of the market if `c` holds. -/
def rejectEarly (c : Prop) [Decidable c] (e : PercolatorError) : Invocation Unit := failIf c (.market (.error e))

/-- `ok_or(e)?`. -/
def okOrRefuse {α : Type} (o : Option α) (e : AccountError) : Invocation α := demand o (.account e)

/-- `?` on a result of the program. -/
def orRefuse {α : Type} : Except AccountError α → Invocation α
  | .ok a => pure a
  | .error e => fail (.account e)

def Ledger.info (L : Ledger) (key : Pubkey) (isSigner isWritable : Bool) : AccountInfo where
  key := key
  owner := (L key).owner
  isSigner := isSigner
  isWritable := isWritable
  lamports := (L key).lamports
  data := (L key).data

/-- Write the data of an account. -/
def Ledger.write (L : Ledger) (k : Pubkey) (data : AccountData) : Ledger :=
  Function.update L k { L k with data }

def Ledger.withLamports (L : Ledger) (k : Pubkey) (lamports : Nat) : Ledger :=
  Function.update L k { L k with lamports }

/-! ### Calls of other programs -/

/-- A transfer of the token program, by the owner of the source. -/
def tokenTransfer (source destination authority : Pubkey) (amount : Nat) : Invocation Unit := do
  let L ← read
  let from_ ← demand (L source).data.token? .invocation
  let to_ ← demand (L destination).data.token? .invocation
  failIf (from_.frozen = true ∨ to_.frozen = true) .invocation
  failIf (from_.amount < amount) .invocation
  failIf (from_.mint ≠ to_.mint) .invocation
  failIf (from_.owner ≠ authority) .invocation
  whenever (source ≠ destination) (do
    failIf (U64_MAX < to_.amount + amount) .invocation
    update fun L => (L.write source (.token { from_ with amount := from_.amount - amount })).write destination
      (.token { to_ with amount := to_.amount + amount }))

/-- The token accounts of the market's two parties to a transfer. -/
structure Counter where
  holderTa : Pubkey
  vaultTa : Pubkey
  holder : Pubkey

/-- A transfer between a holder and the vault, which is its own authority. -/
def invokeTransfer (c : Counter) : Transfer → Invocation Unit
  | .toVault amount => tokenTransfer c.holderTa c.vaultTa c.holder amount
  | .fromVault amount => tokenTransfer c.vaultTa c.holderTa c.vaultTa amount

/-- A transfer of lamports by the system program. -/
def systemTransfer (rt : Runtime) (source destination : Pubkey) (lamports : Nat) : Invocation Unit := do
  let L ← read
  failIf ((L source).owner ≠ SYSTEM_PROGRAM_ID ∨ rt.bytes (L source).data ≠ []) .invocation
  failIf ((L source).lamports < lamports) .invocation
  whenever (source ≠ destination) (update fun L =>
    (L.withLamports source ((L source).lamports - lamports)).withLamports destination
      ((L destination).lamports + lamports))

/-! ### The checks that handlers share -/

/-- The slab of a market: an account of the program of the right size. -/
def ownedSlab (rt : Runtime) (slab : AccountInfo) : Invocation SlabData := do
  refuseIf (slab.owner ≠ rt.programId) .slabNotInitialized
  okOrRefuse slab.data.slab? .slabSizeMismatch

/-- The header of a market that runs. -/
def runningHeader (d : SlabData) : Invocation SlabHeader := do
  let header ← orRefuse (SlabHeader.readFrom d.header)
  refuseIf (header.isInitialized = false) .slabNotInitialized
  pure header

/-- The vault's account is at the address derived from the bump in the header. -/
def checkVaultAddress (rt : Runtime) (slab : AccountInfo) (header : SlabHeader) (vaultTa : AccountInfo) :
    Invocation Unit := do
  let expectedVault ← okOrRefuse (rt.createProgramAddress slab.key header.vaultBump) .vaultPdaMismatch
  refuseIf (expectedVault ≠ vaultTa.key) .vaultPdaMismatch

/-- Both are token accounts of the slab's mint, and the first is the holder's. The result is the vault's. -/
def checkTokenAccounts (header : SlabHeader) (holder holderTa vaultTa : AccountInfo) : Invocation TokenAccount := do
  refuseIf (holderTa.owner ≠ SPL_TOKEN_ID ∨ vaultTa.owner ≠ SPL_TOKEN_ID) .tokenAccountWrongOwner
  let holderToken ← okOrRefuse holderTa.data.token? .tokenAccountWrongOwner
  let vaultToken ← okOrRefuse vaultTa.data.token? .tokenAccountWrongOwner
  refuseIf (holderToken.mint ≠ header.mint ∨ vaultToken.mint ≠ header.mint) .tokenAccountWrongMint
  refuseIf (holderToken.owner ≠ holder.key) .tokenAccountWrongOwner
  pure vaultToken

/-- Run a handler on the engine in a slab. -/
def onEngine (slab : Pubkey) (handler : Handler Unit) : Invocation (List Transfer) := fun L =>
  match (L slab).data with
  | .slab d =>
      match handler d.engine with
      | .ok _ engine transfers => .ok transfers (L.write slab (.slab (d.withEngine engine))) []
      | .fault f _ => .fault (.market f) L
  | _ => .fault (.account .slabSizeMismatch) L

/-- Serve a request on a market, and then make its transfers. -/
def serve (slab : Pubkey) (request : Request) (slot : UInt64) (c : Counter) : Invocation Unit := do
  let transfers ← onEngine slab (request.process slot)
  forEach (invokeTransfer c) transfers
  emit (.served slab request slot)

/-! ### Listing -/

/-- A slab that a client has allocated for the program and nobody has written. -/
def allocatedSlab (rt : Runtime) (slab : AccountInfo) : Invocation SlabData := do
  let d ← okOrRefuse slab.data.slab? .slabSizeMismatch
  refuseIf (slab.owner ≠ rt.programId) .slabAlreadyInitialized
  refuseIf (rt.isExempt slab.lamports = false) .slabSizeMismatch
  refuseIf d.Written .slabAlreadyInitialized
  pure d

/-- Write the header of a new slab, and zeros behind it. -/
def writeListing (rt : Runtime) (slab : Pubkey) (d : SlabData) (header : SlabHeader) : Invocation Unit :=
  update fun L => L.write slab (.slab ((d.withHeader header).withEngine (zeroedEngine rt.maxAccounts)))

def processCreateSlab (rt : Runtime) (args : CreateSlabArgs) : List AccountInfo → Invocation Unit
  | payer :: slabAccount :: mint :: oracle :: system :: _ => do
      refuseIf (payer.isSigner = false) .missingSigner
      refuseIf (payer.isWritable = false) .accountNotWritable
      refuseIf (slabAccount.isWritable = false) .accountNotWritable
      refuseIf (system.key ≠ SYSTEM_PROGRAM_ID) .invalidSystemProgram
      let d ← allocatedSlab rt slabAccount
      let _ ← okOrRefuse (rt.createProgramAddress slabAccount.key args.vaultBump) .vaultPdaMismatch
      let header := SlabHeader.new mint.key oracle.key payer.key args.bump args.vaultBump
      writeListing rt slabAccount.key d header
      emit (.created slabAccount.key header 0)
  | _ => fail .notEnoughAccountKeys

def processCreateMarket (rt : Runtime) (args : CreateMarketArgs) : List AccountInfo → Invocation Unit
  | payer :: slabAccount :: mint :: oracle :: treasury :: system :: _tokenProgram :: _ => do
      refuseIf (payer.isSigner = false) .missingSigner
      refuseIf (payer.isWritable = false) .accountNotWritable
      refuseIf (slabAccount.isWritable = false ∨ treasury.isWritable = false) .accountNotWritable
      refuseIf (system.key ≠ SYSTEM_PROGRAM_ID) .invalidSystemProgram
      refuseIf (treasury.key ≠ TREASURY_PUBKEY) .wrongTreasury
      let d ← allocatedSlab rt slabAccount
      let _ ← okOrRefuse (rt.createProgramAddress slabAccount.key args.vaultBump) .vaultPdaMismatch
      refuseIf (args.feeLamports.toNat < MIN_MARKET_CREATION_FEE_LAMPORTS) .listingFeeTooLow
      systemTransfer rt payer.key treasury.key args.feeLamports.toNat
      let header := { SlabHeader.new mint.key oracle.key payer.key 0 args.vaultBump with origin := ORIGIN_OPEN }
      writeListing rt slabAccount.key d header
      emit (.created slabAccount.key header args.feeLamports.toNat)
  | _ => fail .notEnoughAccountKeys

/-- `init_in_place` on the engine region. -/
def startEngine (args : InitializeEngineArgs) (slot : UInt64) : Handler Unit :=
  callEngine (mapFault .plain (initInPlace args.riskParams.intoEngineParams slot.toNat args.initOraclePrice.toNat))

def processInitializeEngine (rt : Runtime) (args : InitializeEngineArgs) (slot : UInt64) :
    List AccountInfo → Invocation Unit
  | slabAccount :: creator :: _ => do
      refuseIf (slabAccount.isWritable = false) .accountNotWritable
      let d ← ownedSlab rt slabAccount
      refuseIf (creator.isSigner = false) .missingSigner
      let header ← orRefuse (SlabHeader.readFrom d.header)
      refuseIf (header.mint = 0 ∧ header.oracle = 0 ∧ header.creator = 0) .slabNotInitialized
      refuseIf (header.creator ≠ creator.key) .wrongSigner
      refuseIf (header.isInitialized = true) .alreadyInitialized
      match validateRiskParams rt.maxAccounts args.riskParams args.initOraclePrice with
      | .error e => fail (.market (.error e))
      | .ok () => do
          let _ ← onEngine slabAccount.key (startEngine args slot)
          update fun L =>
            match (L slabAccount.key).data with
            | .slab d => L.write slabAccount.key (.slab (d.withHeader { header with initialized := 1 }))
            | _ => L
          emit (.started slabAccount.key creator.key args slot)
  | _ => fail .notEnoughAccountKeys

/-! ### Markets -/

def processDepositOn (rt : Runtime) (args : DepositArgs) (slot : UInt64) : List AccountInfo → Invocation Unit
  | slabAccount :: user :: userTa :: vaultTa :: mint :: tokenProgram :: _system :: _ => do
      rejectEarly (args.amount = 0) .zeroAmount
      refuseIf (user.isSigner = false) .missingSigner
      refuseIf (slabAccount.isWritable = false ∨ userTa.isWritable = false ∨ vaultTa.isWritable = false)
        .accountNotWritable
      let d ← ownedSlab rt slabAccount
      refuseIf (tokenProgram.key ≠ SPL_TOKEN_ID) .invalidTokenProgram
      let header ← runningHeader d
      refuseIf (header.mint ≠ mint.key) .wrongMint
      checkVaultAddress rt slabAccount header vaultTa
      let _ ← checkTokenAccounts header user userTa vaultTa
      serve slabAccount.key (.deposit user.key args) slot ⟨userTa.key, vaultTa.key, user.key⟩
  | _ => fail .notEnoughAccountKeys

/-- The vault's token account is its own owner. -/
def checkSelfOwned (vaultTa : AccountInfo) (vaultToken : TokenAccount) : Invocation Unit :=
  refuseIf (vaultToken.owner ≠ vaultTa.key) .vaultPdaMismatch

def processWithdrawOn (rt : Runtime) (args : WithdrawArgs) (slot : UInt64) : List AccountInfo → Invocation Unit
  | slabAccount :: user :: userTa :: vaultTa :: mint :: tokenProgram :: _system :: _ => do
      rejectEarly (args.amount = 0) .zeroAmount
      refuseIf (user.isSigner = false) .missingSigner
      refuseIf (slabAccount.isWritable = false ∨ userTa.isWritable = false ∨ vaultTa.isWritable = false)
        .accountNotWritable
      let d ← ownedSlab rt slabAccount
      refuseIf (tokenProgram.key ≠ SPL_TOKEN_ID) .invalidTokenProgram
      let header ← runningHeader d
      refuseIf (header.mint ≠ mint.key) .wrongMint
      checkVaultAddress rt slabAccount header vaultTa
      let vaultToken ← checkTokenAccounts header user userTa vaultTa
      checkSelfOwned vaultTa vaultToken
      serve slabAccount.key (.withdraw user.key args) slot ⟨userTa.key, vaultTa.key, user.key⟩
  | _ => fail .notEnoughAccountKeys

def processBootstrapLpOn (rt : Runtime) (args : BootstrapLpArgs) (slot : UInt64) : List AccountInfo → Invocation Unit
  | slabAccount :: creator :: creatorTa :: vaultTa :: mint :: tokenProgram :: _system :: _ => do
      rejectEarly (args.amount = 0) .zeroAmount
      refuseIf (creator.isSigner = false) .missingSigner
      refuseIf (slabAccount.isWritable = false ∨ creatorTa.isWritable = false ∨ vaultTa.isWritable = false)
        .accountNotWritable
      let d ← ownedSlab rt slabAccount
      refuseIf (tokenProgram.key ≠ SPL_TOKEN_ID) .invalidTokenProgram
      let header ← runningHeader d
      refuseIf (header.creator ≠ creator.key) .wrongSigner
      refuseIf (header.mint ≠ mint.key) .wrongMint
      checkVaultAddress rt slabAccount header vaultTa
      let _ ← checkTokenAccounts header creator creatorTa vaultTa
      serve slabAccount.key (.bootstrapLp args) slot ⟨creatorTa.key, vaultTa.key, creator.key⟩
  | _ => fail .notEnoughAccountKeys

/-- An order moves no tokens. -/
def processPlaceOrderOn (rt : Runtime) (args : PlaceOrderArgs) (slot : UInt64) : List AccountInfo → Invocation Unit
  | slabAccount :: user :: oracleAccount :: _clock :: _ => do
      rejectEarly (args.size = 0) .zeroSize
      rejectEarly (1 < args.side) .invalidSide
      rejectEarly (args.maxPrice < args.minPrice) .slippageExceeded
      refuseIf (user.isSigner = false) .missingSigner
      refuseIf (slabAccount.isWritable = false) .accountNotWritable
      let d ← ownedSlab rt slabAccount
      let header ← runningHeader d
      rejectEarly (oracleAccount.key ≠ header.oracle) .staleOracle
      let request := Request.placeOrder user.key args (rt.bytes oracleAccount.data)
      let _ ← onEngine slabAccount.key (request.process slot)
      emit (.served slabAccount.key request slot)
  | _ => fail .notEnoughAccountKeys

def processLiquidateOn (rt : Runtime) (args : LiquidateArgs) (slot : UInt64) : List AccountInfo → Invocation Unit
  | slabAccount :: liquidator :: liquidatorTa :: oracleAccount :: _clock :: vaultTa :: tokenProgram :: _ => do
      refuseIf (liquidator.isSigner = false) .missingSigner
      refuseIf (slabAccount.isWritable = false ∨ liquidatorTa.isWritable = false ∨ vaultTa.isWritable = false)
        .accountNotWritable
      let d ← ownedSlab rt slabAccount
      refuseIf (tokenProgram.key ≠ SPL_TOKEN_ID) .invalidTokenProgram
      rejectEarly (args.victimSlot.toNat = PROTOCOL_LP_SLOT) .protocolLpNotLiquidatable
      rejectEarly (rt.maxAccounts ≤ args.victimSlot.toNat) .invalidVictimSlot
      let header ← runningHeader d
      rejectEarly (oracleAccount.key ≠ header.oracle) .staleOracle
      checkVaultAddress rt slabAccount header vaultTa
      let vaultToken ← checkTokenAccounts header liquidator liquidatorTa vaultTa
      checkSelfOwned vaultTa vaultToken
      serve slabAccount.key (.liquidate args (rt.bytes oracleAccount.data)) slot
        ⟨liquidatorTa.key, vaultTa.key, liquidator.key⟩
  | _ => fail .notEnoughAccountKeys

def processCrankOn (rt : Runtime) (args : CrankArgs) (slot : UInt64) : List AccountInfo → Invocation Unit
  | slabAccount :: caller :: _clock :: callerTa :: vaultTa :: tokenProgram :: _ => do
      refuseIf (caller.isSigner = false) .missingSigner
      refuseIf (slabAccount.isWritable = false ∨ callerTa.isWritable = false ∨ vaultTa.isWritable = false)
        .accountNotWritable
      let d ← ownedSlab rt slabAccount
      refuseIf (tokenProgram.key ≠ SPL_TOKEN_ID) .invalidTokenProgram
      rejectEarly (crankKind args.kind = none) .invalidCrankKind
      let header ← runningHeader d
      checkVaultAddress rt slabAccount header vaultTa
      let vaultToken ← checkTokenAccounts header caller callerTa vaultTa
      checkSelfOwned vaultTa vaultToken
      serve slabAccount.key (.crank args) slot ⟨callerTa.key, vaultTa.key, caller.key⟩
  | _ => fail .notEnoughAccountKeys

/-- `Processor::process`. -/
def process (rt : Runtime) (slot : UInt64) (accounts : List AccountInfo) (instructionData : List Byte) :
    Invocation Unit :=
  match unpack instructionData with
  | .error e => fail (.market (.error e))
  | .ok (.createSlab args) => processCreateSlab rt args accounts
  | .ok (.initializeEngine args) => processInitializeEngine rt args slot accounts
  | .ok (.deposit args) => processDepositOn rt args slot accounts
  | .ok (.withdraw args) => processWithdrawOn rt args slot accounts
  | .ok (.bootstrapLp args) => processBootstrapLpOn rt args slot accounts
  | .ok (.placeOrder args) => processPlaceOrderOn rt args slot accounts
  | .ok (.liquidate args) => processLiquidateOn rt args slot accounts
  | .ok (.crank args) => processCrankOn rt args slot accounts
  | .ok (.createMarket args) => processCreateMarket rt args accounts

end Percolator.Program
