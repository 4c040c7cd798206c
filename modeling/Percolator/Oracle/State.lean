import Mathlib.Algebra.Group.Nat.Defs
import Percolator.Base.Median
import Percolator.Base.Wire

/-!
The feed account of the oracle program and the median of its ring.

A key is the number its 32 bytes are in little-endian order, so that keys and
`[u8; 32]` arguments are compared as the source compares them.
-/

namespace Percolator

/-- The unsigned order of machine words. -/
instance wordOrder {w : Nat} : LinearOrder (BitVec w) where
  le_refl := BitVec.le_refl
  le_trans _ _ _ := BitVec.le_trans
  le_antisymm _ _ := BitVec.le_antisymm
  le_total := BitVec.le_total
  lt_iff_le_not_ge a b := by
    rw [BitVec.not_le]
    exact ⟨fun h => ⟨BitVec.le_of_lt h, h⟩, And.right⟩
  toDecidableLE := inferInstance

namespace Oracle

abbrev U8 := BitVec 8
abbrev U64 := BitVec 64
abbrev Pubkey := BitVec 256

inductive OracleError where
  | invalidInstructionData
  | feedSizeMismatch
  | feedAlreadyInitialized
  | feedNotInitialized
  | missingAccount
  | accountNotWritable
  | wrongSourceAccount
  | staleSource
  | invalidSourceKind
  | notGraduated
  | alreadyGraduated
  | convertRequiresGraduation
  | overflow
  | invalidParameters
deriving DecidableEq, Repr

def RING_LEN : Nat := 30

inductive SourceKind where
  | pumpBonding
  | pumpSwap
  | raydiumCpmm
  | meteoraDlmm
deriving DecidableEq, Repr

def SourceKind.fromU8 (v : U8) : Option SourceKind :=
  if v = 0 then some .pumpBonding
  else if v = 1 then some .pumpSwap
  else if v = 2 then some .raydiumCpmm
  else if v = 3 then some .meteoraDlmm
  else none

structure Feed where
  priceLamportsPerToken : U64
  lastUpdateSlot : U64
  mint : Pubkey
  source : Pubkey
  sourceKind : U8
  graduated : U8
  initialized : U8
  ringIdx : U8
  pad : BitVec 32
  ringBuffer : Fin RING_LEN → U64

/-- The `#[repr(C)]` layout: the fields in their order, without gaps. -/
def Feed.layout : Codec Feed :=
  ((Codec.int 8).pair ((Codec.int 8).pair ((Codec.int 32).pair ((Codec.int 32).pair
    ((Codec.int 1).pair ((Codec.int 1).pair ((Codec.int 1).pair ((Codec.int 1).pair
      ((Codec.int 4).pair ((Codec.int 8).array RING_LEN)))))))))).as
    { toFun := fun (priceLamportsPerToken, lastUpdateSlot, mint, source, sourceKind, graduated,
          initialized, ringIdx, pad, ringBuffer) =>
        { priceLamportsPerToken, lastUpdateSlot, mint, source, sourceKind, graduated, initialized,
          ringIdx, pad, ringBuffer }
      invFun := fun f => (f.priceLamportsPerToken, f.lastUpdateSlot, f.mint, f.source, f.sourceKind,
        f.graduated, f.initialized, f.ringIdx, f.pad, f.ringBuffer)
      left_inv := fun _ => rfl
      right_inv := fun _ => rfl }

/-- `size_of::<Feed>()`. -/
def Feed.LEN : Nat := 328

theorem Feed.width_layout : layout.width = LEN := rfl

def Feed.writeInto (f : Feed) (dst : List Byte) : Except OracleError (List Byte) :=
  if dst.length < LEN then .error .feedSizeMismatch else .ok (layout.write f ++ dst.drop LEN)

/-- `layout.read` fails exactly on fewer than `LEN` bytes. -/
def Feed.readFrom (src : List Byte) : Except OracleError Feed :=
  match layout.read src with
  | some (f, _) => .ok f
  | none => .error .feedSizeMismatch

def Feed.isInitialized (f : Feed) : Bool := f.initialized != 0

def Feed.isGraduated (f : Feed) : Bool := f.graduated != 0

def Feed.sourceKindEnum (f : Feed) : Option SourceKind := SourceKind.fromU8 f.sourceKind

/-- The entries of the ring that have been written: zero is the mark of one that
has not. -/
def ringEntries (ring : Fin RING_LEN → U64) : List U64 := (List.ofFn ring).filter (· ≠ 0)

def ringMedian (ring : Fin RING_LEN → U64) : Option U64 :=
  let n := (ringEntries ring).length
  let slice := sortBySwaps (ringEntries ring)
  if n = 0 then none
  else if n % 2 = 1 then slice[n / 2]?
  else slice[n / 2 - 1]?

/-- The median of the ring is the lower median of its entries. -/
theorem ringMedian_eq (ring : Fin RING_LEN → U64) :
    ringMedian ring = lowerMedian (ringEntries ring) := by
  obtain ⟨perm, sorted⟩ := sortBySwaps_spec (ringEntries ring)
  rw [lowerMedian_of_perm perm sorted]
  unfold ringMedian
  simp only
  split_ifs with empty odd
  · rw [List.length_eq_zero_iff] at empty
    rw [empty]
    rfl
  · rw [show ((ringEntries ring).length - 1) / 2 = (ringEntries ring).length / 2 by omega]
  · rw [show ((ringEntries ring).length - 1) / 2 = (ringEntries ring).length / 2 - 1 by omega]

end Oracle

end Percolator
