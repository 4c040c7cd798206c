import Percolator.Engine.Slots
import Percolator.Program.Instruction

/-!
The slab account: the header of the program and, behind it, the engine.

The header is read and written as its bytes. The engine region is not: where the source casts it to
a `RiskEngine`, the model holds the engine, and where the source fills it with zeros, the engine
whose fields are all zero.
-/

namespace Percolator.Program

/-- A key is the number its 32 bytes are in little-endian order. -/
abbrev Pubkey := Bytes32

/-- The errors of the program that its checks of accounts answer. -/
inductive AccountError where
  | slabAlreadyInitialized
  | slabSizeMismatch
  | accountNotWritable
  | missingSigner
  | invalidSystemProgram
  | alreadyInitialized
  | slabNotInitialized
  | wrongSigner
  | wrongMint
  | vaultPdaMismatch
  | tokenAccountWrongOwner
  | tokenAccountWrongMint
  | invalidTokenProgram
  | wrongTreasury
  | listingFeeTooLow
deriving DecidableEq, Repr

def ORIGIN_SEEDED : U8 := 0
def ORIGIN_OPEN : U8 := 1

structure SlabHeader where
  mint : Pubkey
  oracle : Pubkey
  creator : Pubkey
  bump : U8
  initialized : U8
  vaultBump : U8
  origin : U8
  pad : BitVec 32
deriving DecidableEq, Repr

namespace SlabHeader

/-- `size_of::<SlabHeader>()`. -/
def LEN : Nat := 104

def new (mint oracle creator : Pubkey) (bump vaultBump : U8) : SlabHeader where
  mint := mint
  oracle := oracle
  creator := creator
  bump := bump
  initialized := 0
  vaultBump := vaultBump
  origin := ORIGIN_SEEDED
  pad := 0

/-- The fields in their order, without gaps. -/
def layout : Codec SlabHeader :=
  ((Codec.int 32).pair ((Codec.int 32).pair ((Codec.int 32).pair
    (u8.pair (u8.pair (u8.pair (u8.pair (Codec.int 4)))))))).as
    { toFun := fun (mint, oracle, creator, bump, initialized, vaultBump, origin, pad) =>
        { mint, oracle, creator, bump, initialized, vaultBump, origin, pad }
      invFun := fun h => (h.mint, h.oracle, h.creator, h.bump, h.initialized, h.vaultBump, h.origin, h.pad)
      left_inv := fun _ => rfl
      right_inv := fun _ => rfl }

theorem width_layout : layout.width = LEN := rfl

def writeInto (h : SlabHeader) (dst : List Byte) : Except AccountError (List Byte) :=
  if dst.length < LEN then .error .slabSizeMismatch else .ok (layout.write h ++ dst.drop LEN)

/-- `layout.read` fails exactly on fewer than `LEN` bytes. -/
def readFrom (src : List Byte) : Except AccountError SlabHeader :=
  match layout.read src with
  | some (h, _) => .ok h
  | none => .error .slabSizeMismatch

def isInitialized (h : SlabHeader) : Bool := h.initialized != 0

end SlabHeader

/-! ### The bytes of a slab -/

/-- An account of `slab_account_size()` bytes: the bytes of the header, and the engine region. -/
structure SlabData where
  header : List Byte
  engine : RiskEngine
  length : header.length = SlabHeader.LEN

/-- Some byte of the header is set. -/
def SlabData.Written (d : SlabData) : Prop := ∃ b ∈ d.header, b ≠ 0

instance (d : SlabData) : Decidable d.Written := by unfold SlabData.Written; infer_instance

/-- An account slot whose bytes are all zero. -/
def zeroedAccount : Account := { emptyAccount with adlABasis := 0 }

/-- A side whose bytes are all zero. -/
def zeroedSide : SideState := { freshSide with adlMult := 0 }

def zeroedParams : RiskParams where
  maintenanceMarginBps := 0
  initialMarginBps := 0
  tradingFeeBps := 0
  maxAccounts := 0
  maxCrankStalenessSlots := 0
  liquidationFeeBps := 0
  liquidationFeeCap := 0
  minLiquidationAbs := 0
  minInitialDeposit := 0
  minNonzeroMmReq := 0
  minNonzeroImReq := 0
  insuranceFloor := 0
  hMin := 0
  hMax := 0
  resolvePriceDeviationBps := 0
  maxAccrualDtSlots := 0
  maxAbsFundingE9PerSlot := 0
  minFundingLifetimeSlots := 0
  maxActivePositionsPerSide := 0

/-- An engine region of `slab` account slots whose bytes are all zero. -/
def zeroedEngine (slab : Nat) : RiskEngine :=
  { freshEngine slab zeroedParams 0 0 with
    sides := fun _ => zeroedSide, nextFree := fun _ => 0, prevFree := fun _ => 0
    accounts := fun _ => zeroedAccount }

/-- The slab with `h` in its header. -/
def SlabData.withHeader (d : SlabData) (h : SlabHeader) : SlabData where
  header := SlabHeader.layout.write h
  engine := d.engine
  length := SlabHeader.layout.length_write h

def SlabData.withEngine (d : SlabData) (engine : RiskEngine) : SlabData := { d with engine }

/-! ### Reading back -/

section Layout

variable {d : SlabData} {h : SlabHeader} {dst src : List Byte}

/-- The bytes of a slab's header are those of some header. -/
theorem SlabData.header_eq (d : SlabData) : ∃ h, d.header = SlabHeader.layout.write h := by
  cases hread : SlabHeader.layout.read d.header with
  | none =>
      have short := (SlabHeader.layout.read_eq_none).mp hread
      rw [d.length, SlabHeader.width_layout] at short
      exact absurd short (lt_irrefl _)
  | some p =>
      obtain ⟨h, rest⟩ := p
      have bytes := SlabHeader.layout.of_read hread
      have long := congrArg List.length bytes
      rw [d.length, List.length_append, SlabHeader.layout.length_write, SlabHeader.width_layout] at long
      have none : rest = [] := List.eq_nil_of_length_eq_zero (by omega)
      rw [none, List.append_nil] at bytes
      exact ⟨h, bytes⟩

/-- The header of a slab always reads. -/
theorem SlabData.readFrom_header (d : SlabData) : ∃ h, SlabHeader.readFrom d.header = .ok h ∧
    d.header = SlabHeader.layout.write h := by
  obtain ⟨h, bytes⟩ := d.header_eq
  refine ⟨h, ?_, bytes⟩
  have back := SlabHeader.layout.read_write h []
  rw [List.append_nil] at back
  unfold SlabHeader.readFrom
  rw [bytes, back]

theorem SlabHeader.readFrom_write (h : SlabHeader) : readFrom (layout.write h) = .ok h := by
  have back := layout.read_write h []
  rw [List.append_nil] at back
  unfold readFrom
  rw [back]

/-- A header that is written over the start of a buffer of any length is what reads back from it, and the
rest of the buffer stays. -/
theorem SlabHeader.readFrom_writeInto (wrote : h.writeInto dst = .ok src) :
    readFrom src = .ok h ∧ src.drop LEN = dst.drop LEN ∧ src.length = dst.length := by
  unfold writeInto at wrote
  split_ifs at wrote with short
  cases wrote
  have width : (layout.write h).length = LEN := layout.length_write h
  refine ⟨?_, List.drop_left' width, ?_⟩
  · unfold readFrom
    rw [layout.read_write]
  · rw [List.length_append, width, List.length_drop]
    omega

theorem leBytes_zero (n : Nat) : ∀ b ∈ leBytes n 0, b = 0 := by
  induction n with
  | zero => exact fun _ hb => absurd hb List.not_mem_nil
  | succ n ih =>
      intro b hb
      rcases List.mem_cons.mp hb with rfl | hb
      · rfl
      · exact ih b hb

theorem leValue_zero {bs : List Byte} (h : ∀ b ∈ bs, b = 0) : leValue bs = 0 := by
  induction bs with
  | nil => rfl
  | cons b bs ih =>
      rw [List.forall_mem_cons] at h
      rw [leValue, h.1, ih h.2]
      rfl

/-- A number whose bytes are all zero is zero. -/
theorem Codec.int_zero {n : Nat} {v : BitVec (8 * n)} (h : ∀ b ∈ (Codec.int n).write v, b = 0) : v = 0 := by
  have value : leValue (leBytes n v.toNat) = 0 := leValue_zero h
  rw [leValue_leBytes, Nat.mod_eq_of_lt v.isLt] at value
  exact BitVec.eq_of_toNat_eq value

/-- A header with a creator has a byte that is set. -/
theorem SlabHeader.written_of_creator (creator : h.creator ≠ 0) : ∃ b ∈ layout.write h, b ≠ 0 := by
  by_contra blank
  push Not at blank
  refine creator (Codec.int_zero (n := 32) (v := h.creator) fun b hb => blank b ?_)
  exact List.mem_append_right _ (List.mem_append_right _ (List.mem_append_left _ hb))

/-- So has one that is initialized. -/
theorem SlabHeader.written_of_initialized (running : h.isInitialized = true) : ∃ b ∈ layout.write h, b ≠ 0 := by
  by_contra blank
  push Not at blank
  have zero : h.initialized = 0 := by
    refine Codec.int_zero (n := 1) (v := h.initialized) fun b hb => blank b ?_
    exact List.mem_append_right _ (List.mem_append_right _ (List.mem_append_right _ (List.mem_append_right _
      (List.mem_append_left _ hb))))
  unfold isInitialized at running
  rw [zero] at running
  cases running

end Layout

end Percolator.Program
