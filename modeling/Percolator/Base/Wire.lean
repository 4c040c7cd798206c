import Mathlib.Data.Nat.ModEq
import Mathlib.Logic.Equiv.Basic

/-!
Fixed-width binary formats.

A `Codec` writes values of a type and reads them from the front of a byte
string, and carries the facts that make it exact: what was written reads back
and leaves the rest alone, what a read consumed is what the value writes, and a
read fails for want of bytes only. Formats are built from little-endian integers by pairing and by
renaming along an equivalence, and the facts are built along with them.
-/

namespace Percolator

abbrev Byte := BitVec 8

/-! ### Little-endian numbers -/

/-- The low `n` bytes of `v`, least significant first. -/
def leBytes : Nat → Nat → List Byte
  | 0, _ => []
  | n + 1, v => BitVec.ofNat 8 v :: leBytes n (v / 256)

/-- The number whose bytes these are, least significant first. -/
def leValue : List Byte → Nat
  | [] => 0
  | b :: bs => b.toNat + 256 * leValue bs

@[simp] theorem leBytes_length (n v : Nat) : (leBytes n v).length = n := by
  induction n generalizing v with
  | zero => rfl
  | succ n ih => simp only [leBytes, List.length_cons, ih]

theorem leValue_leBytes (n v : Nat) : leValue (leBytes n v) = v % 2 ^ (8 * n) := by
  induction n generalizing v with
  | zero => simp [leBytes, leValue, Nat.mod_one]
  | succ n ih =>
      have hpow : 2 ^ (8 * (n + 1)) = 256 * 2 ^ (8 * n) := by
        rw [Nat.mul_succ, Nat.pow_add, Nat.mul_comm]
      rw [leBytes, leValue, ih, BitVec.toNat_ofNat, hpow, Nat.mod_mul]

theorem leValue_lt (bs : List Byte) : leValue bs < 2 ^ (8 * bs.length) := by
  induction bs with
  | nil => simp [leValue]
  | cons b bs ih =>
      have hb : b.toNat < 256 := b.isLt
      have hpow : 2 ^ (8 * (b :: bs).length) = 256 * 2 ^ (8 * bs.length) := by
        rw [List.length_cons, Nat.mul_succ, Nat.pow_add, Nat.mul_comm]
      rw [leValue, hpow]
      omega

theorem leBytes_leValue (bs : List Byte) : leBytes bs.length (leValue bs) = bs := by
  induction bs with
  | nil => rfl
  | cons b bs ih =>
      have hb : b.toNat < 256 := b.isLt
      have low : BitVec.ofNat 8 (b.toNat + 256 * leValue bs) = b := by
        apply BitVec.eq_of_toNat_eq
        rw [BitVec.toNat_ofNat]
        omega
      have high : (b.toNat + 256 * leValue bs) / 256 = leValue bs := by omega
      rw [List.length_cons, leValue, leBytes, low, high, ih]

/-! ### Codecs -/

/-- A format of `width` bytes. -/
structure Codec (α : Type) where
  width : Nat
  write : α → List Byte
  read : List Byte → Option (α × List Byte)
  length_write : ∀ a, (write a).length = width
  read_write : ∀ a rest, read (write a ++ rest) = some (a, rest)
  of_read : ∀ {bytes a rest}, read bytes = some (a, rest) → bytes = write a ++ rest
  of_short : ∀ {bytes}, read bytes = none → bytes.length < width

namespace Codec

variable {α β : Type}

/-- An unsigned integer of `n` bytes. -/
def int (n : Nat) : Codec (BitVec (8 * n)) where
  width := n
  write v := leBytes n v.toNat
  read bytes :=
    if bytes.length < n then none
    else some (BitVec.ofNat (8 * n) (leValue (bytes.take n)), bytes.drop n)
  length_write v := leBytes_length n v.toNat
  read_write v rest := by
    have hlen : (leBytes n v.toNat).length = n := leBytes_length n v.toNat
    rw [if_neg (by simp), List.take_left' hlen, List.drop_left' hlen, leValue_leBytes,
      Nat.mod_eq_of_lt v.isLt, BitVec.ofNat_toNat, BitVec.setWidth_eq]
  of_read {bytes v rest} h := by
    split at h
    · cases h
    · rename_i hlong
      have hlen : (bytes.take n).length = n := by simpa using Nat.le_of_not_lt hlong
      have hlt : leValue (bytes.take n) < 2 ^ (8 * n) := by
        have := leValue_lt (bytes.take n)
        rwa [hlen] at this
      obtain ⟨rfl, rfl⟩ := Prod.mk.inj (Option.some.inj h)
      have hback : leBytes n (leValue (bytes.take n)) = bytes.take n := by
        conv_rhs => rw [← leBytes_leValue (bytes.take n), hlen]
      rw [BitVec.toNat_ofNat, Nat.mod_eq_of_lt hlt, hback, List.take_append_drop]
  of_short {bytes} h := by
    split at h
    · assumption
    · cases h

/-- No bytes for a type with one value. -/
def nil [Unique α] : Codec α where
  width := 0
  write _ := []
  read bytes := some (default, bytes)
  length_write _ := rfl
  read_write a rest := by rw [Unique.eq_default a, List.nil_append]
  of_read {bytes a rest} h := by
    obtain ⟨-, rfl⟩ := Prod.mk.inj (Option.some.inj h)
    rfl
  of_short h := by cases h

/-- One value after another. -/
def pair (c : Codec α) (d : Codec β) : Codec (α × β) where
  width := c.width + d.width
  write p := c.write p.1 ++ d.write p.2
  read bytes :=
    match c.read bytes with
    | none => none
    | some (a, rest) =>
        match d.read rest with
        | none => none
        | some (b, rest) => some ((a, b), rest)
  length_write p := by rw [List.length_append, c.length_write, d.length_write]
  read_write p rest := by simp only [List.append_assoc, c.read_write, d.read_write]
  of_read {bytes p rest} h := by
    split at h
    · cases h
    · rename_i a rest₁ hc
      split at h
      · cases h
      · rename_i b rest₂ hd
        obtain ⟨rfl, rfl⟩ := Prod.mk.inj (Option.some.inj h)
        rw [List.append_assoc, ← d.of_read hd, c.of_read hc]
  of_short {bytes} h := by
    split at h
    · rename_i hc
      have := c.of_short hc
      omega
    · rename_i a rest₁ hc
      split at h
      · rename_i hd
        have := d.of_short hd
        rw [c.of_read hc, List.length_append, c.length_write]
        omega
      · cases h

/-- The same bytes for another type of the same values: a record of its fields. -/
def as (c : Codec α) (e : α ≃ β) : Codec β where
  width := c.width
  write b := c.write (e.symm b)
  read bytes :=
    match c.read bytes with
    | none => none
    | some (a, rest) => some (e a, rest)
  length_write b := c.length_write _
  read_write b rest := by simp only [c.read_write, e.apply_symm_apply]
  of_read {bytes b rest} h := by
    split at h
    · cases h
    · rename_i a rest₁ hc
      obtain ⟨rfl, rfl⟩ := Prod.mk.inj (Option.some.inj h)
      rw [e.symm_apply_apply, ← c.of_read hc]
  of_short {bytes} h := by
    split at h
    · rename_i hc
      exact c.of_short hc
    · cases h

/-- A first entry and the rest of them. -/
def consEquiv (n : Nat) : α × (Fin n → α) ≃ (Fin (n + 1) → α) where
  toFun p
    | ⟨0, _⟩ => p.1
    | ⟨i + 1, h⟩ => p.2 ⟨i, Nat.lt_of_succ_lt_succ h⟩
  invFun v := (v 0, fun i => v i.succ)
  left_inv _ := rfl
  right_inv v := by
    funext ⟨i, h⟩
    cases i <;> rfl

/-- `n` values, one after another. -/
def array (c : Codec α) : (n : Nat) → Codec (Fin n → α)
  | 0 => nil
  | n + 1 => (c.pair (c.array n)).as (consEquiv n)

@[simp] theorem width_array (c : Codec α) (n : Nat) : (c.array n).width = n * c.width := by
  induction n with
  | zero => exact (Nat.zero_mul _).symm
  | succ n ih =>
      have : (c.array (n + 1)).width = c.width + (c.array n).width := rfl
      rw [this, ih, Nat.succ_mul, Nat.add_comm]

/-- A read fails for want of bytes and for nothing else. -/
theorem read_eq_none (c : Codec α) {bytes : List Byte} :
    c.read bytes = none ↔ bytes.length < c.width := by
  constructor
  · exact c.of_short
  · intro hshort
    cases hread : c.read bytes with
    | none => rfl
    | some p =>
        have := congrArg List.length (c.of_read hread)
        rw [List.length_append, c.length_write] at this
        omega

/-- Read a whole byte string: a rest is an error. -/
def trySlice (c : Codec α) (bytes : List Byte) : Option α :=
  match c.read bytes with
  | some (a, []) => some a
  | _ => none

@[simp] theorem trySlice_write (c : Codec α) (a : α) : c.trySlice (c.write a) = some a := by
  have h := c.read_write a []
  rw [List.append_nil] at h
  rw [trySlice, h]

theorem of_trySlice {c : Codec α} {bytes : List Byte} {a : α} (h : c.trySlice bytes = some a) :
    bytes = c.write a := by
  unfold trySlice at h
  split at h
  · rename_i a' hread
    cases h
    rw [c.of_read hread, List.append_nil]
  · cases h

/-- A byte string is accepted exactly when some value writes it. -/
theorem trySlice_eq_some (c : Codec α) {bytes : List Byte} {a : α} :
    c.trySlice bytes = some a ↔ bytes = c.write a := by
  constructor
  · exact of_trySlice
  · rintro rfl
    exact c.trySlice_write a

end Codec

end Percolator
