import Mathlib.Data.List.DropRight
import Mathlib.Data.List.OfFn
import Mathlib.Data.List.Rotate
import Mathlib.Logic.Function.Basic

/-!
Windows: the last `n` items of a history, kept in a ring of `n` cells.

The ring is read off from the cell that is overwritten next, which holds the
oldest item. Before the history has filled the ring, the cells not yet written
hold a blank that no item equals.
-/

namespace Percolator

variable {α : Type} {n : Nat} {ring : Fin n → α} {i : Nat} {blank : α} {history : List α}

/-- The cells, oldest first, when cell `i` is overwritten next. -/
def readOff (ring : Fin n → α) (i : Nat) : List α := (List.ofFn ring).rotate i

theorem readOff_perm : (readOff ring i).Perm (List.ofFn ring) := List.rotate_perm _ _

@[simp] theorem length_readOff : (readOff ring i).length = n := by simp [readOff]

/-- Overwriting the oldest cell drops it and appends the new item. -/
theorem readOff_update (j : Fin n) (a : α) :
    readOff (Function.update ring j a) ((j + 1) % n) = (readOff ring j).tail ++ [a] := by
  have hn : 0 < n := j.pos
  apply List.ext_getElem
  · simp only [length_readOff, List.length_append, List.length_tail, List.length_singleton]
    omega
  · intro k hk _
    have hk : k < n := by simpa using hk
    simp only [readOff, List.getElem_rotate, List.length_ofFn, List.getElem_ofFn]
    by_cases last : k = n - 1
    · -- the last item read is the cell just written
      have hcell : (k + (j + 1) % n) % n = j := by
        rw [Nat.add_mod_mod, show k + (j + 1) = j + n by omega, Nat.add_mod_right,
          Nat.mod_eq_of_lt j.isLt]
      simp only [hcell, Fin.eta, Function.update_self]
      rw [List.getElem_append_right (by simp; omega)]
      simp
    · have hcell : (k + (j + 1) % n) % n = (k + 1 + j) % n := by
        rw [Nat.add_mod_mod, Nat.add_right_comm, Nat.add_assoc]
      have hne : (k + 1 + j) % n ≠ j := by
        intro h
        have hdvd := Nat.sub_mod_eq_zero_of_mod_eq (h.trans (Nat.mod_eq_of_lt j.isLt).symm)
        rw [Nat.add_sub_cancel, Nat.mod_eq_of_lt (by omega)] at hdvd
        omega
      rw [List.getElem_append_left (by simp; omega), List.getElem_tail, List.getElem_rotate]
      simp only [hcell, List.length_ofFn, List.getElem_ofFn]
      apply Function.update_of_ne
      intro h
      exact hne (Fin.mk.inj_iff.mp h)

/-- The ring holds the last `n` items of the history, and blanks for those that
are missing. -/
structure Holds (ring : Fin n → α) (i : Nat) (blank : α) (history : List α) : Prop where
  lt : i < n
  cells : readOff ring i = (List.replicate n blank ++ history).rtake n

theorem Holds.start (h : 0 < n) : Holds (fun _ : Fin n => blank) 0 blank [] := by
  refine ⟨h, ?_⟩
  rw [readOff, List.rotate_zero, List.ofFn_const, List.append_nil, List.rtake]
  simp

theorem tail_rtake {l : List α} (h : n + 1 ≤ l.length) : (l.rtake (n + 1)).tail = l.rtake n := by
  rw [List.rtake, List.rtake, List.tail_drop]
  congr 1
  omega

theorem Holds.push (h : Holds ring i blank history) (a : α) :
    Holds (Function.update ring ⟨i, h.lt⟩ a) ((i + 1) % n) blank (history ++ [a]) := by
  obtain ⟨m, rfl⟩ := Nat.exists_eq_succ_of_ne_zero (Nat.ne_of_gt (Nat.zero_lt_of_lt h.lt))
  refine ⟨Nat.mod_lt _ (Nat.zero_lt_of_lt h.lt), ?_⟩
  rw [readOff_update ⟨i, h.lt⟩ a, h.cells, tail_rtake (by simp), ← List.append_assoc,
    List.rtake_concat_succ]

/-- What the ring holds apart from blanks are the last `n` items. -/
theorem Holds.items [DecidableEq α] (h : Holds ring i blank history)
    (proper : ∀ a ∈ history, a ≠ blank) :
    (readOff ring i).filter (· ≠ blank) = history.rtake n := by
  have hproper : history.rtake n = (history.rtake n).filter (· ≠ blank) := by
    symm
    apply List.filter_eq_self.mpr
    intro a ha
    exact decide_eq_true (proper a (List.mem_of_mem_drop ha))
  rw [h.cells, hproper, List.rtake, List.rtake, List.drop_append, List.filter_append,
    List.filter_eq_nil_iff.mpr ?_, List.nil_append]
  · congr 2
    simp
  · intro a ha
    have := List.eq_of_mem_replicate (List.mem_of_mem_drop ha)
    simp [this]

end Percolator
