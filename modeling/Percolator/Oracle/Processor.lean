import Mathlib.Algebra.Group.Int.Defs
import Percolator.Engine.Num
import Percolator.Oracle.Instruction

/-!
The source readers and the instructions of the oracle program.

A handler gets the accounts of the transaction as they are and answers the new
bytes of the feed account, the only one it writes, and the line it logs. The
slot is what `Clock::get` returns. Borrows of account data never overlap, so
they do not fail.
-/

namespace Percolator.Oracle

/-- How an instruction fails: with an error of the program, for want of an
account, or by an index out of bounds. -/
inductive Failure where
  | error (e : OracleError)
  | notEnoughAccountKeys
  | panic
deriving DecidableEq, Repr

structure AccountInfo where
  key : Pubkey
  owner : Pubkey
  isWritable : Bool
  data : List Byte
deriving DecidableEq, Repr

/-- What a handler logs. -/
inductive Log where
  | initializeFeed (feed mint : Pubkey) (kind : U8) (price : U64)
  | update (feed : Pubkey) (instant median slot : U64)
  | graduate (feed : Pubkey)
  | convertSource (feed : Pubkey) (newKind : U8) (fresh : U64)
deriving DecidableEq, Repr

/-! ### Source readers -/

/-- The little-endian integer in the `n` bytes at an offset. -/
def fromLeBytes (data : List Byte) (offset n : Nat) : Nat := leValue ((data.drop offset).take n)

/-- `numerator * POS_SCALE / denominator`. -/
def ammPrice (numerator denominator : Nat) : Except OracleError U64 :=
  if denominator = 0 then .error .staleSource
  else match checkedMulU128 numerator POS_SCALE with
    | none => .error .overflow
    | some scaled =>
        if U64_MAX < scaled / denominator then .error .overflow
        else .ok (BitVec.ofNat 64 (scaled / denominator))

def readPumpBonding (data : List Byte) : Except OracleError U64 :=
  if data.length < 0x18 then .error .staleSource
  else
    let solReserves := fromLeBytes data 0x08 8
    let tokenReserves := fromLeBytes data 0x10 8
    if solReserves = 0 ∨ tokenReserves = 0 then .error .staleSource
    else ammPrice solReserves tokenReserves

def readPumpswap (data : List Byte) : Except OracleError U64 :=
  if data.length < 0x18 then .error .staleSource
  else
    let base := fromLeBytes data 0x08 8
    let quote := fromLeBytes data 0x10 8
    if base = 0 ∨ quote = 0 then .error .staleSource
    else ammPrice quote base

def readRaydiumCpmm (data : List Byte) : Except OracleError U64 :=
  if data.length < 0x18 then .error .staleSource
  else
    let base := fromLeBytes data 0x08 8
    let quote := fromLeBytes data 0x10 8
    if base = 0 ∨ quote = 0 then .error .staleSource
    else ammPrice quote base

/-- `steps` multiplications by `num / den`, each rounded down; a zero ends them. -/
def compound (num den : Nat) : Nat → Nat → Except OracleError Nat
  | 0, price => .ok price
  | steps + 1, price =>
      match checkedMulU128 price num with
      | none => .error .overflow
      | some scaled => if scaled / den = 0 then .ok 0 else compound num den steps (scaled / den)

def readMeteoraDlmm (data : List Byte) : Except OracleError U64 :=
  if data.length < 0x16 then .error .staleSource
  else
    let binId : Int := (BitVec.ofNat 32 (fromLeBytes data 0x08 4)).toInt
    let binStep := fromLeBytes data 0x0C 2
    let basePrice := fromLeBytes data 0x0E 8
    if basePrice = 0 ∨ binStep = 0 ∨ 10000 < binStep then .error .staleSource
    else
      let steps := min binId.natAbs 10000
      let mulNum := 10000 + binStep
      let mulDen := 10000
      match if 0 ≤ binId then compound mulNum mulDen steps basePrice
          else compound mulDen mulNum steps basePrice with
      | .error e => .error e
      | .ok price => if U64_MAX < price then .error .overflow else .ok (BitVec.ofNat 64 price)

def readSourcePrice (kind : SourceKind) (source : AccountInfo) : Except OracleError U64 :=
  match kind with
  | .pumpBonding => readPumpBonding source.data
  | .pumpSwap => readPumpswap source.data
  | .raydiumCpmm => readRaydiumCpmm source.data
  | .meteoraDlmm => readMeteoraDlmm source.data

/-! ### Handlers -/

abbrev Handler (α : Type) : Type := Except Failure α

/-- Fail unless the condition holds. -/
def ensure (c : Prop) [Decidable c] (e : OracleError) : Handler Unit :=
  if c then .ok () else .error (.error e)

/-- `?` on a result of the program's own errors. -/
def orFail {α : Type} : Except OracleError α → Handler α
  | .ok a => .ok a
  | .error e => .error (.error e)

/-- `ok_or`. -/
def okOr {α : Type} (e : OracleError) : Option α → Handler α
  | some a => .ok a
  | none => .error (.error e)

/-- `Feed::read_from(&data[..Feed::LEN])`. -/
def readFeed (feedAi : AccountInfo) : Handler Feed :=
  if feedAi.data.length < Feed.LEN then .error .panic
  else orFail (Feed.readFrom (feedAi.data.take Feed.LEN))

/-- `feed.write_into(&mut data[..Feed::LEN])`. -/
def writeFeed (feedAi : AccountInfo) (feed : Feed) : Handler (List Byte) :=
  if feedAi.data.length < Feed.LEN then .error .panic
  else do
    let head ← orFail (feed.writeInto (feedAi.data.take Feed.LEN))
    return head ++ feedAi.data.drop Feed.LEN

/-- The first two accounts. -/
def nextAccounts : List AccountInfo → Handler (AccountInfo × AccountInfo)
  | feedAi :: sourceAi :: _ => .ok (feedAi, sourceAi)
  | _ => .error .notEnoughAccountKeys

/-- A ring with `price` alone in it. -/
def bootstrapRing (price : U64) : Fin RING_LEN → U64 :=
  Function.update (fun _ => 0) ⟨0, by decide⟩ price

def processInitializeFeed (programId : Pubkey) (slot : U64) (accounts : List AccountInfo)
    (args : InitializeFeedArgs) : Handler (List Byte × Log) := do
  let (feedAi, sourceAi) ← nextAccounts accounts
  ensure (feedAi.isWritable = true) .accountNotWritable
  ensure (feedAi.owner = programId) .feedSizeMismatch
  ensure (Feed.LEN ≤ feedAi.data.length) .feedSizeMismatch
  let sourceKind ← okOr .invalidSourceKind (SourceKind.fromU8 args.sourceKind)
  ensure (sourceAi.key = args.source) .wrongSourceAccount
  let existing ← readFeed feedAi
  ensure (existing.isInitialized = false) .feedAlreadyInitialized
  let initPrice ← orFail (readSourcePrice sourceKind sourceAi)
  ensure (initPrice ≠ 0) .staleSource
  let feed : Feed :=
    { priceLamportsPerToken := initPrice
      lastUpdateSlot := slot
      mint := args.mint
      source := args.source
      sourceKind := args.sourceKind
      graduated := 0
      initialized := 1
      ringIdx := 1
      pad := 0
      ringBuffer := bootstrapRing initPrice }
  let data ← writeFeed feedAi feed
  return (data, .initializeFeed feedAi.key args.mint args.sourceKind initPrice)

def processUpdate (programId : Pubkey) (slot : U64) (accounts : List AccountInfo) :
    Handler (List Byte × Log) := do
  let (feedAi, sourceAi) ← nextAccounts accounts
  ensure (feedAi.isWritable = true) .accountNotWritable
  ensure (feedAi.owner = programId) .feedSizeMismatch
  ensure (Feed.LEN ≤ feedAi.data.length) .feedSizeMismatch
  let feed ← readFeed feedAi
  ensure (feed.isInitialized = true) .feedNotInitialized
  ensure (feed.source = sourceAi.key) .wrongSourceAccount
  let sourceKind ← okOr .invalidSourceKind feed.sourceKindEnum
  -- a graduated curve is dead until its feed is converted
  ensure (¬ (sourceKind = .pumpBonding ∧ feed.isGraduated = true)) .alreadyGraduated
  let instantPrice ← orFail (readSourcePrice sourceKind sourceAi)
  ensure (instantPrice ≠ 0) .staleSource
  if inRing : feed.ringIdx.toNat < RING_LEN then
    let ringBuffer := Function.update feed.ringBuffer ⟨feed.ringIdx.toNat, inRing⟩ instantPrice
    let ringIdx : U8 := BitVec.ofNat 8 ((feed.ringIdx.toNat + 1) % RING_LEN)
    let median ← okOr .staleSource (ringMedian ringBuffer)
    let data ← writeFeed feedAi
      { feed with ringBuffer, ringIdx, priceLamportsPerToken := median, lastUpdateSlot := slot }
    return (data, .update feedAi.key instantPrice median slot)
  else .error .panic

def processGraduate (programId : Pubkey) (accounts : List AccountInfo) :
    Handler (List Byte × Log) := do
  let (feedAi, sourceAi) ← nextAccounts accounts
  ensure (feedAi.isWritable = true) .accountNotWritable
  ensure (feedAi.owner = programId) .feedSizeMismatch
  let feed ← readFeed feedAi
  ensure (feed.isInitialized = true) .feedNotInitialized
  ensure (feed.source = sourceAi.key) .wrongSourceAccount
  ensure (feed.isGraduated = false) .alreadyGraduated
  let kind ← okOr .invalidSourceKind feed.sourceKindEnum
  ensure (kind = .pumpBonding) .invalidSourceKind
  let complete ← okOr .staleSource sourceAi.data[0xA6]?
  ensure (complete ≠ 0) .notGraduated
  let data ← writeFeed feedAi { feed with graduated := 1 }
  return (data, .graduate feedAi.key)

def processConvertSource (programId : Pubkey) (slot : U64) (accounts : List AccountInfo)
    (args : ConvertSourceArgs) : Handler (List Byte × Log) := do
  let (feedAi, newSourceAi) ← nextAccounts accounts
  ensure (feedAi.isWritable = true) .accountNotWritable
  ensure (feedAi.owner = programId) .feedSizeMismatch
  let newKind ← okOr .invalidSourceKind (SourceKind.fromU8 args.newKind)
  ensure (newSourceAi.key = args.newSource) .wrongSourceAccount
  let feed ← readFeed feedAi
  ensure (feed.isInitialized = true) .feedNotInitialized
  ensure (feed.isGraduated = true) .convertRequiresGraduation
  let fresh ← orFail (readSourcePrice newKind newSourceAi)
  ensure (fresh ≠ 0) .staleSource
  let data ← writeFeed feedAi
    { feed with
      source := args.newSource
      sourceKind := args.newKind
      ringBuffer := bootstrapRing fresh
      ringIdx := 1
      priceLamportsPerToken := fresh
      lastUpdateSlot := slot }
  return (data, .convertSource feedAi.key args.newKind fresh)

def process (programId : Pubkey) (slot : U64) (accounts : List AccountInfo)
    (instructionData : List Byte) : Handler (List Byte × Log) := do
  let ix ← orFail (unpack instructionData)
  match ix with
  | .initializeFeed a => processInitializeFeed programId slot accounts a
  | .update => processUpdate programId slot accounts
  | .graduate => processGraduate programId accounts
  | .convertSource a => processConvertSource programId slot accounts a

end Percolator.Oracle
