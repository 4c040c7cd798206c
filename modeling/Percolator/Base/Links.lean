import Mathlib.Data.List.Nodup
import Mathlib.Logic.Function.Basic

/-!
Doubly linked lists threaded through arrays: a head, and for every node the next
and the previous one, with a sentinel at both ends.

A segment is a stretch of such a list, from what comes before it to what comes
after it. Segments compose (`Segment.append`), a write away from a segment leaves
it alone (`Segment.congr`), and a write at one of its ends moves that end
(`Segment.setNext`, `Segment.setPrev`); insertion at the head and removal from any
place follow.
-/

namespace Percolator

/-- The head of a list and the two neighbours of every node. -/
structure Links (α : Type) where
  head : α
  next : α → α
  prev : α → α

variable {α : Type} {next prev next' prev' : α → α} {before start last stop i : α} {l l₁ l₂ : List α}

/-- The nodes `l` follow each other along `next` from `start` to `stop` and along
`prev` from `last` to `before`. -/
def Segment (next prev : α → α) : α → α → List α → α → α → Prop
  | before, start, [], last, stop => start = stop ∧ last = before
  | before, start, i :: l, last, stop =>
      start = i ∧ prev i = before ∧ Segment next prev i (next i) l last stop

namespace Segment

/-- A segment splits wherever its list does. -/
theorem append : Segment next prev before start (l₁ ++ l₂) last stop ↔
    ∃ m n, Segment next prev before start l₁ m n ∧ Segment next prev m n l₂ last stop := by
  induction l₁ generalizing before start with
  | nil =>
      constructor
      · intro h
        exact ⟨before, start, ⟨rfl, rfl⟩, h⟩
      · rintro ⟨m, n, ⟨rfl, rfl⟩, h⟩
        exact h
  | cons i l ih =>
      simp only [List.cons_append, Segment, ih]
      constructor
      · rintro ⟨first, back, m, n, left, right⟩
        exact ⟨m, n, ⟨first, back, left⟩, right⟩
      · rintro ⟨m, n, ⟨first, back, left⟩, right⟩
        exact ⟨first, back, m, n, left, right⟩

/-- Links that agree on the nodes of a segment have the segment too. -/
theorem congr (h : Segment next prev before start l last stop)
    (agree : ∀ i ∈ l, next' i = next i ∧ prev' i = prev i) :
    Segment next' prev' before start l last stop := by
  induction l generalizing before start with
  | nil => exact h
  | cons i l ih =>
      obtain ⟨first, back, rest⟩ := h
      obtain ⟨hnext, hprev⟩ := agree i List.mem_cons_self
      refine ⟨first, by rw [hprev, back], ?_⟩
      rw [hnext]
      exact ih rest fun j hj => agree j (List.mem_cons_of_mem i hj)

/-- The last node of a segment that has one. -/
theorem last_eq (h : Segment next prev before start (l ++ [i]) last stop) :
    last = i ∧ next i = stop := by
  obtain ⟨m, n, -, -, -, rfl, rfl⟩ := append.mp h
  exact ⟨rfl, rfl⟩

variable [DecidableEq α]

/-- A write to the last node's `next` moves the end of the segment. -/
theorem setNext (j : α) (h : Segment next prev before start (l ++ [i]) last stop)
    (fresh : i ∉ l) :
    Segment (Function.update next i j) prev before start (l ++ [i]) last j := by
  obtain ⟨m, n, left, first, back, -, ends⟩ := append.mp h
  refine append.mpr ⟨m, n, left.congr ?_, first, back, Function.update_self .., ends⟩
  intro k hk
  have other : k ≠ i := by
    rintro rfl
    exact fresh hk
  exact ⟨Function.update_of_ne other .., rfl⟩

/-- A write to the first node's `prev` moves the start of the segment. -/
theorem setPrev (j : α) (h : Segment next prev before start (i :: l) last stop)
    (fresh : i ∉ l) :
    Segment next (Function.update prev i j) j start (i :: l) last stop := by
  obtain ⟨first, -, rest⟩ := h
  refine ⟨first, Function.update_self .., rest.congr ?_⟩
  intro k hk
  have other : k ≠ i := by
    rintro rfl
    exact fresh hk
  exact ⟨rfl, Function.update_of_ne other ..⟩

end Segment

namespace Links

variable {nil : α} {L : Links α}

/-- The links run through the nodes `l`, from the head to the sentinel. -/
def Threads (nil : α) (L : Links α) (l : List α) : Prop :=
  ∃ last, Segment L.next L.prev nil L.head l last nil

/-- The neighbours of a node point back at it. -/
theorem Threads.neighbours (h : L.Threads nil l) (hi : i ∈ l) :
    (L.prev i = nil ∧ L.head = i ∨ L.prev i ∈ l ∧ L.next (L.prev i) = i) ∧
      (L.next i = nil ∨ L.next i ∈ l ∧ L.prev (L.next i) = i) := by
  obtain ⟨l₁, l₂, rfl⟩ := List.append_of_mem hi
  obtain ⟨last, whole⟩ := h
  obtain ⟨m, n, left, rfl, back, right⟩ := Segment.append.mp whole
  constructor
  · rcases List.eq_nil_or_concat' l₁ with rfl | ⟨l, k, rfl⟩
    · obtain ⟨first, rfl⟩ := left
      exact .inl ⟨back, first⟩
    · obtain ⟨rfl, follows⟩ := Segment.last_eq left
      right
      rw [back]
      exact ⟨by simp, follows⟩
  · cases l₂ with
    | nil => exact .inl right.1
    | cons j l =>
        obtain ⟨first, follows, -⟩ := right
        right
        rw [first]
        exact ⟨by simp, follows⟩

variable [DecidableEq α]

/-- Insertion at the head. -/
def push (nil : α) (L : Links α) (i : α) : Links α where
  head := i
  next := Function.update L.next i L.head
  prev :=
    if L.head = nil then Function.update L.prev i nil
    else Function.update (Function.update L.prev i nil) L.head i

/-- Removal from any place. -/
def unlink (nil : α) (L : Links α) (i : α) : Links α where
  head := if L.prev i = nil then L.next i else L.head
  next :=
    Function.update
      (if L.prev i = nil then L.next else Function.update L.next (L.prev i) (L.next i)) i nil
  prev :=
    Function.update
      (if L.next i = nil then L.prev else Function.update L.prev (L.next i) (L.prev i)) i nil

theorem Threads.push (h : L.Threads nil l) (fresh : i ∉ l) (once : l.Nodup) (sentinel : nil ∉ l) :
    (L.push nil i).Threads nil (i :: l) := by
  obtain ⟨last, whole⟩ := h
  cases l with
  | nil =>
      obtain ⟨empty, rfl⟩ := whole
      refine ⟨i, rfl, ?_, ?_, rfl⟩
      · rw [Links.push, if_pos empty]
        exact Function.update_self ..
      · rw [Links.push, empty]
        exact Function.update_self ..
  | cons j l =>
      have first := whole.1
      have other : i ≠ j := by
        rintro rfl
        exact fresh List.mem_cons_self
      have some : L.head ≠ nil := by
        rw [first]
        rintro rfl
        exact sentinel List.mem_cons_self
      refine ⟨last, rfl, ?_, ?_⟩
      · rw [Links.push, if_neg some, first]
        exact (Function.update_of_ne other ..).trans (Function.update_self ..)
      · simp only [Links.push, if_neg some, Function.update_self]
        rw [first] at whole ⊢
        refine (whole.setPrev i (List.nodup_cons.mp once).1).congr ?_
        intro k hk
        have away : k ≠ i := by
          rintro rfl
          exact fresh hk
        rw [Function.update_of_ne away]
        refine ⟨rfl, ?_⟩
        by_cases head : k = j
        · rw [head, Function.update_self, Function.update_self]
        · rw [Function.update_of_ne head, Function.update_of_ne head, Function.update_of_ne away]

/-- Without the node between them, the stretches before and after it join. -/
theorem Threads.unlink (h : L.Threads nil (l₁ ++ i :: l₂)) (once : (l₁ ++ i :: l₂).Nodup)
    (sentinel : nil ∉ l₁ ++ i :: l₂) : (L.unlink nil i).Threads nil (l₁ ++ l₂) := by
  obtain ⟨last, whole⟩ := h
  obtain ⟨m, n, left, rfl, back, right⟩ := Segment.append.mp whole
  obtain ⟨once₁, once₂, apart⟩ := List.nodup_append.mp once
  obtain ⟨fresh₂, once₂⟩ := List.nodup_cons.mp once₂
  have away₁ : ∀ j ∈ l₁, j ≠ n := fun j hj => apart j hj n List.mem_cons_self
  have away₂ : ∀ j ∈ l₂, j ≠ n := by
    rintro j hj rfl
    exact fresh₂ hj
  -- up to the node before the removed one, which now leads to the one after it
  have before : Segment (L.unlink nil n).next (L.unlink nil n).prev nil (L.unlink nil n).head l₁ m
      (L.next n) := by
    have prev_eq : ∀ j ∈ l₁, (L.unlink nil n).prev j = L.prev j := by
      intro j hj
      simp only [Links.unlink]
      rw [Function.update_of_ne (away₁ j hj)]
      split
      · rfl
      · apply Function.update_of_ne
        rintro rfl
        cases l₂ with
        | nil =>
            obtain ⟨ends, -⟩ := right
            rw [ends] at hj
            exact sentinel (List.mem_append_left _ hj)
        | cons k l =>
            obtain ⟨first, -⟩ := right
            rw [first] at hj
            exact apart k hj k (List.mem_cons_of_mem n List.mem_cons_self) rfl
    rcases List.eq_nil_or_concat' l₁ with rfl | ⟨l, k, rfl⟩
    · obtain ⟨-, rfl⟩ := left
      exact ⟨if_pos back, rfl⟩
    · obtain ⟨rfl, -⟩ := Segment.last_eq left
      have some : L.prev n ≠ nil := by
        rw [back]
        rintro rfl
        exact sentinel (by simp)
      have fresh : m ∉ l := by
        intro hm
        exact (List.nodup_append.mp once₁).2.2 m hm m List.mem_cons_self rfl
      have moved := left.setNext (L.next n) fresh
      rw [show (L.unlink nil n).head = L.head from if_neg some]
      refine moved.congr ?_
      intro j hj
      refine ⟨?_, prev_eq j hj⟩
      simp only [Links.unlink]
      rw [Function.update_of_ne (away₁ j hj), if_neg some, back]
  -- from the node after the removed one, which the one before it now precedes
  have after : ∃ last', Segment (L.unlink nil n).next (L.unlink nil n).prev m (L.next n) l₂ last' nil := by
    have next_eq : ∀ j ∈ l₂, (L.unlink nil n).next j = L.next j := by
      intro j hj
      simp only [Links.unlink]
      rw [Function.update_of_ne (away₂ j hj)]
      split
      · rfl
      · apply Function.update_of_ne
        rw [back]
        rintro rfl
        rcases List.eq_nil_or_concat' l₁ with rfl | ⟨l, k, rfl⟩
        · obtain ⟨-, rfl⟩ := left
          exact sentinel (by simp [hj])
        · obtain ⟨rfl, -⟩ := Segment.last_eq left
          exact apart j (by simp) j (List.mem_cons_of_mem n hj) rfl
    cases l₂ with
    | nil => exact ⟨m, right.1, rfl⟩
    | cons k l =>
        have first := right.1
        have some : L.next n ≠ nil := by
          rw [first]
          rintro rfl
          exact sentinel (by simp)
        refine ⟨last, (right.setPrev m (List.nodup_cons.mp once₂).1).congr ?_⟩
        intro j hj
        refine ⟨next_eq j hj, ?_⟩
        simp only [Links.unlink]
        rw [Function.update_of_ne (away₂ j hj), if_neg some, back, first]
  obtain ⟨last', after⟩ := after
  exact ⟨last', Segment.append.mpr ⟨m, L.next n, before, after⟩⟩

end Links

end Percolator
