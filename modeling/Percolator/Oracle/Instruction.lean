import Percolator.Oracle.State

/-!
The wire format of the oracle program.
-/

namespace Percolator.Oracle

inductive InstructionTag where
  | initializeFeed
  | update
  | graduate
  | convertSource
deriving DecidableEq, Repr

def InstructionTag.toU8 : InstructionTag → U8
  | .initializeFeed => 0
  | .update => 1
  | .graduate => 2
  | .convertSource => 3

structure InitializeFeedArgs where
  mint : BitVec 256
  source : BitVec 256
  sourceKind : U8
deriving DecidableEq, Repr

structure ConvertSourceArgs where
  newKind : U8
  newSource : BitVec 256
deriving DecidableEq, Repr

inductive OracleInstruction where
  | initializeFeed (a : InitializeFeedArgs)
  | update
  | graduate
  | convertSource (a : ConvertSourceArgs)
deriving DecidableEq, Repr

def InitializeFeedArgs.borsh : Codec InitializeFeedArgs :=
  ((Codec.int 32).pair ((Codec.int 32).pair (Codec.int 1))).as
    { toFun := fun (mint, source, sourceKind) => ⟨mint, source, sourceKind⟩
      invFun := fun a => (a.mint, a.source, a.sourceKind)
      left_inv := fun _ => rfl
      right_inv := fun _ => rfl }

def ConvertSourceArgs.borsh : Codec ConvertSourceArgs :=
  ((Codec.int 1).pair (Codec.int 32)).as
    { toFun := fun (newKind, newSource) => ⟨newKind, newSource⟩
      invFun := fun a => (a.newKind, a.newSource)
      left_inv := fun _ => rfl
      right_inv := fun _ => rfl }

/-- The bodies of `Update` and `Graduate` are not looked at. -/
def unpack (input : List Byte) : Except OracleError OracleInstruction :=
  match input with
  | [] => .error .invalidInstructionData
  | tag :: rest =>
      if tag = InstructionTag.initializeFeed.toU8 then
        match InitializeFeedArgs.borsh.trySlice rest with
        | some a => .ok (.initializeFeed a)
        | none => .error .invalidInstructionData
      else if tag = InstructionTag.update.toU8 then .ok .update
      else if tag = InstructionTag.graduate.toU8 then .ok .graduate
      else if tag = InstructionTag.convertSource.toU8 then
        match ConvertSourceArgs.borsh.trySlice rest with
        | some a => .ok (.convertSource a)
        | none => .error .invalidInstructionData
      else .error .invalidInstructionData

def OracleInstruction.pack : OracleInstruction → List Byte
  | .initializeFeed a => InstructionTag.initializeFeed.toU8 :: InitializeFeedArgs.borsh.write a
  | .update => [InstructionTag.update.toU8]
  | .graduate => [InstructionTag.graduate.toU8]
  | .convertSource a => InstructionTag.convertSource.toU8 :: ConvertSourceArgs.borsh.write a

theorem unpack_pack (ix : OracleInstruction) : unpack ix.pack = .ok ix := by
  cases ix <;> simp [OracleInstruction.pack, unpack, InstructionTag.toU8]

variable {b : List Byte} {ix : OracleInstruction}

/-- What `unpack` accepts is what `pack` writes, up to what trails a tag that has no payload. -/
theorem unpack_eq_ok (h : unpack b = .ok ix) :
    ix.pack = b ∨
      ∃ tag rest, b = tag :: rest ∧ ix.pack = [tag] ∧
        (tag = InstructionTag.update.toU8 ∨ tag = InstructionTag.graduate.toU8) := by
  cases b with
  | nil => cases h
  | cons tag rest =>
      simp only [unpack] at h
      split at h
      · rename_i first
        split at h
        · rename_i a read
          cases h
          left
          rw [OracleInstruction.pack, first, Codec.of_trySlice read]
        · cases h
      · split at h
        · rename_i second
          cases h
          exact .inr ⟨tag, rest, rfl, by rw [second]; rfl, .inl second⟩
        · split at h
          · rename_i third
            cases h
            exact .inr ⟨tag, rest, rfl, by rw [third]; rfl, .inr third⟩
          · split at h
            · rename_i last
              split at h
              · rename_i a read
                cases h
                left
                rw [OracleInstruction.pack, last, Codec.of_trySlice read]
              · cases h
            · cases h

theorem unpack_update (rest : List Byte) :
    unpack (InstructionTag.update.toU8 :: rest) = .ok .update := rfl

theorem unpack_graduate (rest : List Byte) :
    unpack (InstructionTag.graduate.toU8 :: rest) = .ok .graduate := rfl

/-- Every instruction reads back, and a byte string is taken for what `pack` writes and
nothing else exactly when nothing trails the tag of an instruction without a payload. -/
theorem wire_exact_iff (b : List Byte) :
    (∀ ix : OracleInstruction, unpack ix.pack = .ok ix) ∧
      ((∀ ix, unpack b = .ok ix → ix.pack = b) ↔
        ∀ tag rest, b = tag :: rest →
          tag = InstructionTag.update.toU8 ∨ tag = InstructionTag.graduate.toU8 → rest = []) := by
  constructor
  · exact unpack_pack
  constructor
  · rintro strict tag rest rfl (rfl | rfl)
    · have same := strict _ (unpack_update rest)
      exact (List.cons.inj same).2.symm
    · have same := strict _ (unpack_graduate rest)
      exact (List.cons.inj same).2.symm
  · intro bare ix accepted
    rcases unpack_eq_ok accepted with same | ⟨tag, rest, rfl, packed, empty⟩
    · exact same
    · rw [packed, bare tag rest rfl empty]

/-- A trailing byte behind the tag of `Update` goes unnoticed. -/
theorem unpack_takes_trailing :
    ¬ ∀ (b : List Byte) (ix : OracleInstruction), unpack b = .ok ix → ix.pack = b := by
  intro strict
  have same := strict [1, 0] .update rfl
  exact absurd same (by decide)

end Percolator.Oracle
