import Mathlib.Data.List.Induction
import Mathlib.Data.List.Sort
import Mathlib.Order.Lattice

/-!
Insertion sort by swaps, and the lower median of a list.

The lower median is the middle item of the sorted list, and the lower of the
two middle ones when there are two. It lies among the items of any strict
majority.
-/

namespace Percolator

variable {α : Type} [LinearOrder α]

/-! ### Sorting -/

/-- Swap the item at `j` with its left neighbour as long as that one is greater. -/
def sink (l : List α) : Nat → List α
  | 0 => l
  | j + 1 =>
      match l[j]?, l[j + 1]? with
      | some a, some b => if b < a then sink ((l.set j b).set (j + 1) a) j else l
      | _, _ => l

/-- Sink the items from the second to the last. -/
def sortBySwaps (l : List α) : List α := (List.range' 1 (l.length - 1)).foldl sink l

/-- Sinking the item behind a sorted prefix inserts it into the prefix. -/
theorem sink_spec {pre : List α} (x : α) (post : List α) (sorted : pre.Pairwise (· ≤ ·)) :
    ∃ pre', sink (pre ++ x :: post) pre.length = pre' ++ post ∧ pre'.Perm (x :: pre) ∧
      pre'.Pairwise (· ≤ ·) := by
  induction pre using List.reverseRecOn generalizing post with
  | nil => exact ⟨[x], rfl, .refl _, List.pairwise_singleton _ _⟩
  | append_singleton pre a ih =>
      obtain ⟨hpre, -, hle⟩ := List.pairwise_append.mp sorted
      have ha : (pre ++ [a] ++ x :: post)[pre.length]? = some a := by simp
      have hx : (pre ++ [a] ++ x :: post)[pre.length + 1]? = some x := by simp
      rw [List.length_append, List.length_singleton, sink, ha, hx]
      by_cases swap : x < a
      · have hset : ((pre ++ [a] ++ x :: post).set pre.length x).set (pre.length + 1) a =
            pre ++ x :: a :: post := by simp
        obtain ⟨pre', heq, hperm, hsorted⟩ := ih (a :: post) hpre
        refine ⟨pre' ++ [a], ?_, ?_, ?_⟩
        · rw [List.append_assoc pre', List.singleton_append, ← heq, ← hset]
          exact if_pos swap
        · exact hperm.append_right [a]
        · apply List.pairwise_append.mpr
          refine ⟨hsorted, List.pairwise_singleton _ _, ?_⟩
          intro y hy b hb
          obtain rfl := List.mem_singleton.mp hb
          rcases List.mem_cons.mp (hperm.mem_iff.mp hy) with rfl | hy
          · exact swap.le
          · exact hle y hy b (List.mem_singleton_self b)
      · refine ⟨pre ++ [a] ++ [x], ?_, List.perm_append_singleton _ _, ?_⟩
        · rw [List.append_assoc (pre ++ [a])]
          exact if_neg swap
        · apply List.pairwise_append.mpr
          refine ⟨sorted, List.pairwise_singleton _ _, ?_⟩
          intro y hy b hb
          obtain rfl := List.mem_singleton.mp hb
          rcases List.mem_append.mp hy with hy | hy
          · exact (hle y hy a (List.mem_singleton_self a)).trans (not_lt.mp swap)
          · obtain rfl := List.mem_singleton.mp hy
            exact not_lt.mp swap

/-- After `m` rounds the first `m + 1` items are sorted and the rest is untouched. -/
theorem sortBySwaps_rounds {l : List α} {m : Nat} (hm : m < l.length) :
    ∃ pre, (List.range' 1 m).foldl sink l = pre ++ l.drop (m + 1) ∧
      pre.Perm (l.take (m + 1)) ∧ pre.Pairwise (· ≤ ·) := by
  induction m with
  | zero =>
      obtain ⟨x, rest, rfl⟩ := List.exists_cons_of_length_pos hm
      exact ⟨[x], rfl, .refl _, List.pairwise_singleton _ _⟩
  | succ m ih =>
      obtain ⟨pre, heq, hperm, hsorted⟩ := ih (Nat.lt_of_succ_lt hm)
      have hlen : pre.length = m + 1 := by
        rw [hperm.length_eq, List.length_take, Nat.min_eq_left (Nat.le_of_lt hm)]
      obtain ⟨pre', heq', hperm', hsorted'⟩ := sink_spec l[m + 1] (l.drop (m + 2)) hsorted
      refine ⟨pre', ?_, ?_, hsorted'⟩
      · rw [List.range'_concat, List.foldl_append, heq, Nat.one_mul, Nat.add_comm 1 m, ← hlen,
          List.drop_eq_getElem_cons (hlen ▸ hm)]
        simpa only [List.foldl_cons, List.foldl_nil, hlen] using heq'
      · rw [List.take_add_one, List.getElem?_eq_getElem hm]
        exact hperm'.trans ((List.perm_append_singleton _ _).symm.trans (hperm.append_right _))

theorem sortBySwaps_spec (l : List α) :
    (sortBySwaps l).Perm l ∧ (sortBySwaps l).Pairwise (· ≤ ·) := by
  cases l with
  | nil => exact ⟨.refl _, List.Pairwise.nil⟩
  | cons x rest =>
      obtain ⟨pre, heq, hperm, hsorted⟩ :=
        sortBySwaps_rounds (l := x :: rest) (m := rest.length) (Nat.lt_succ_self _)
      have hall : sortBySwaps (x :: rest) = pre := by simpa [sortBySwaps] using heq
      rw [hall]
      exact ⟨by simpa using hperm, hsorted⟩

/-! ### The lower median -/

/-- The item in the middle, the lower one of two. -/
def lowerMedian (l : List α) : Option α := (l.mergeSort (· ≤ ·))[(l.length - 1) / 2]?

theorem lowerMedian_of_perm {l l' : List α} (h : l'.Perm l) (sorted : l'.Pairwise (· ≤ ·)) :
    lowerMedian l = l'[(l.length - 1) / 2]? := by
  have hsort : l.mergeSort (· ≤ ·) = l' :=
    ((List.mergeSort_perm l _).trans h.symm).eq_of_pairwise' (List.pairwise_mergeSort' (· ≤ ·) l) sorted
  rw [lowerMedian, hsort]

@[simp] theorem lowerMedian_singleton (a : α) : lowerMedian [a] = some a := by
  rw [lowerMedian_of_perm (.refl [a]) (List.pairwise_singleton _ _)]
  simp

theorem lowerMedian_congr {l l' : List α} (h : l'.Perm l) : lowerMedian l' = lowerMedian l := by
  obtain ⟨perm, sorted⟩ := sortBySwaps_spec l'
  rw [lowerMedian_of_perm perm sorted, lowerMedian_of_perm (perm.trans h) sorted, h.length_eq]

section Majority

variable {l l' honest rest : List α} {m : α} {k : Nat}

/-- In a sorted list, the items up to a position are at most the one at it. -/
theorem succ_le_countP_le (sorted : l.Pairwise (· ≤ ·)) (h : l[k]? = some m) :
    k + 1 ≤ l.countP (· ≤ m) := by
  obtain ⟨hk, hm⟩ := List.getElem?_eq_some_iff.mp h
  calc k + 1 = (l.take (k + 1)).length := by rw [List.length_take, Nat.min_eq_left hk]
    _ = (l.take (k + 1)).countP (· ≤ m) := by
        symm
        apply List.countP_eq_length.mpr
        intro a ha
        obtain ⟨j, hj, rfl⟩ := List.mem_take_iff_getElem.mp ha
        have hjk : j ≤ k := by omega
        rcases Nat.eq_or_lt_of_le hjk with rfl | hlt
        · simp [hm]
        · simpa [hm] using List.pairwise_iff_getElem.mp sorted j k (by omega) hk hlt
    _ ≤ l.countP (· ≤ m) := (List.take_sublist _ _).countP_le

/-- In a sorted list, the items from a position on are at least the one at it. -/
theorem le_countP_ge (sorted : l.Pairwise (· ≤ ·)) (h : l[k]? = some m) :
    l.length - k ≤ l.countP (m ≤ ·) := by
  obtain ⟨hk, hm⟩ := List.getElem?_eq_some_iff.mp h
  calc l.length - k = (l.drop k).length := List.length_drop.symm
    _ = (l.drop k).countP (m ≤ ·) := by
        symm
        apply List.countP_eq_length.mpr
        intro a ha
        obtain ⟨j, hj, rfl⟩ := List.mem_drop_iff_getElem.mp ha
        rcases Nat.eq_zero_or_pos j with rfl | hpos
        · simp [hm]
        · simpa [hm] using List.pairwise_iff_getElem.mp sorted k (k + j) hk (by omega) (by omega)
    _ ≤ l.countP (m ≤ ·) := (List.drop_sublist _ _).countP_le

omit [LinearOrder α] in
/-- More items satisfy `p` than there are in the rest: an honest one does. -/
theorem exists_of_countP_lt {p : α → Prop} [DecidablePred p] (split : (honest ++ rest).Perm l)
    (h : rest.length < l.countP (p ·)) : ∃ a ∈ honest, p a := by
  rw [← split.countP_eq, List.countP_append] at h
  have hrest : rest.countP (p ·) ≤ rest.length := List.countP_le_length
  have hpos : 0 < honest.countP (p ·) := by omega
  obtain ⟨a, ha, hp⟩ := List.countP_pos_iff.mp hpos
  exact ⟨a, ha, of_decide_eq_true hp⟩

/-- Whatever a strict minority of the items is, the lower median lies between two
of the others. -/
theorem lowerMedian_between (h : lowerMedian l = some m) (split : (honest ++ rest).Perm l)
    (minority : 2 * rest.length < l.length) : ∃ lo ∈ honest, ∃ hi ∈ honest, lo ≤ m ∧ m ≤ hi := by
  obtain ⟨perm, sorted⟩ := sortBySwaps_spec l
  rw [lowerMedian_of_perm perm sorted] at h
  have below := succ_le_countP_le sorted h
  have above := le_countP_ge sorted h
  rw [perm.countP_eq] at below above
  rw [perm.length_eq] at above
  obtain ⟨lo, hlo, le⟩ := exists_of_countP_lt (p := (· ≤ m)) split (by omega)
  obtain ⟨hi, hhi, ge⟩ := exists_of_countP_lt (p := (m ≤ ·)) split (by omega)
  exact ⟨lo, hlo, hi, hhi, le, ge⟩

end Majority

end Percolator
