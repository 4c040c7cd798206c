import Mathlib.Order.Interval.Finset.Nat
import Percolator.Base.Links
import Percolator.Laws.Atomic
import Percolator.Machine.Runs

/-!
The free list over histories of the slot allocator.

After any sequence of `materialize_at` and `free_slot` calls on a fresh engine,
failed ones included, the links run through the unused slots, each once. The
counters are what makes `free_slot` succeed once its checks have passed, and the
links what makes `materialize_at` succeed on every unused slot of the market.
-/

namespace Percolator

open Effect

variable {s s' : RiskEngine} {chain : List Nat} {i slot : Nat} {l : List Event}

/-- The free-list fields. -/
def RiskEngine.links (s : RiskEngine) : Links Nat where
  head := s.freeHead
  next := s.nextFree
  prev := s.prevFree

/-- Following `next_free` from `free_head` visits the slots of `chain` and ends at
the sentinel, `prev_free` leads back, and `chain` lists every unused slot once. -/
structure RiskEngine.FreeList (s : RiskEngine) (chain : List Nat) : Prop where
  threads : s.links.Threads NIL chain
  once : chain.Nodup
  unused : ∀ i, i ∈ chain ↔ i < s.maxAccounts ∧ s.isUsed i = false

/-- The invariant of the allocator: the free list with what its counters say. -/
structure Slots (s : RiskEngine) (chain : List Nat) : Prop extends s.FreeList chain where
  slab : s.maxAccounts ≤ NIL
  within : s.params.maxAccounts ≤ s.maxAccounts
  active : ∀ i, s.isUsed i = true → i < s.params.maxAccounts
  counted : s.numUsedAccounts + chain.length = s.maxAccounts
  materialized : s.materializedAccountCount = s.numUsedAccounts

/-- A call of the allocator. -/
inductive SlotCall where
  | materialize (idx slotAnchor : Nat)
  | free (idx : Nat)
deriving DecidableEq, Repr

def SlotCall.run : SlotCall → Act Unit
  | .materialize idx slotAnchor => materializeAtInOrder idx slotAnchor
  | .free idx => freeSlot idx

/-- The engine after a sequence of calls; one that fails leaves what it wrote. -/
def SlotCall.history (s : RiskEngine) : List SlotCall → RiskEngine
  | [] => s
  | call :: calls => history (call.run s).final calls

/-! ### The links -/

theorem put_eq_update {α : Type} (t : Nat → α) (i : Nat) (a : α) : put t i a = Function.update t i a := by
  funext j
  rw [put_apply, Function.update_apply]

theorem links_unlink (s : RiskEngine) (i : Nat) : (s.unlink i).links = s.links.unlink NIL i := by
  simp only [RiskEngine.links, RiskEngine.unlink, Links.unlink, put_eq_update]
  rfl

theorem materializeAt_links (hok : materializeAt i slot s = .ok () s' l) :
    s'.links = s.links.unlink NIL i := by
  refine wp_sound (Q := fun _ s' _ => s'.links = s.links.unlink NIL i) hok ?_
  simp only [materializeAt, wp_bind, wp_read, wp_rejectIf, wp_failIf, wp_writeAccount, wp_update,
    wp_orErr, implies_true, true_and]
  intros
  exact links_unlink s i

theorem freeSlot_links (hok : freeSlot i s = .ok () s' l) : s'.links = s.links.push NIL i := by
  refine wp_sound (Q := fun _ s' _ => s'.links = s.links.push NIL i) hok ?_
  simp only [freeSlot, wp_bind, wp_read, wp_rejectIf, wp_writeAccount, wp_update, wp_orErr,
    implies_true, true_and]
  intros
  simp only [RiskEngine.links, Links.push, put_eq_update]
  rfl

/-- The links of a fresh slab from the slot `k` on. -/
theorem freshEngine_segment (slab k n : Nat) (h : k + n = slab) :
    ∃ last, Segment (fun i => if i + 1 < slab then i + 1 else NIL)
      (fun i => if i = 0 then NIL else i - 1) (if k = 0 then NIL else k - 1)
      (if k < slab then k else NIL) (List.range' k n) last NIL := by
  induction n generalizing k with
  | zero => exact ⟨_, if_neg (by omega), rfl⟩
  | succ n ih =>
      obtain ⟨last, rest⟩ := ih (k + 1) (by omega)
      rw [if_neg (Nat.succ_ne_zero k), Nat.add_sub_cancel] at rest
      exact ⟨last, if_pos (by omega), rfl, rest⟩

/-- The free list of a fresh engine is the whole slab in order. -/
theorem freshEngine_slots {p : RiskParams} {slab slot price : Nat} (valid : p.Valid slab)
    (small : slab ≤ NIL) : Slots (freshEngine slab p slot price) (List.range slab) where
  threads := by
    have positive : 0 < slab := Nat.lt_of_lt_of_le valid.maxAccounts_pos valid.maxAccounts_le
    obtain ⟨last, segment⟩ := freshEngine_segment slab 0 slab (Nat.zero_add slab)
    rw [if_pos rfl, if_pos positive, ← List.range_eq_range'] at segment
    exact ⟨last, segment⟩
  once := List.nodup_range
  unused := by
    intro i
    rw [List.mem_range, freshEngine_isUsed]
    exact ⟨fun h => ⟨h, rfl⟩, fun h => h.1⟩
  slab := small
  within := valid.maxAccounts_le
  active := by
    intro i used
    rw [freshEngine_isUsed] at used
    cases used
  counted := by
    rw [List.length_range]
    exact Nat.zero_add slab
  materialized := rfl

/-! ### What the invariant gives -/

namespace Slots

/-- No slot is the sentinel. -/
theorem sentinel (h : Slots s chain) : NIL ∉ chain := by
  intro hmem
  have := ((h.unused NIL).mp hmem).1
  have := h.slab
  omega

/-- An unused slot of the market leaves room for it in every count. -/
theorem room (h : Slots s chain) (hi : i < s.params.maxAccounts) (unused : s.isUsed i = false) :
    s.numUsedAccounts < s.params.maxAccounts := by
  have inside : insert i (Finset.Ico s.params.maxAccounts s.maxAccounts) ⊆ chain.toFinset := by
    intro j hj
    rw [List.mem_toFinset, h.unused]
    rcases Finset.mem_insert.mp hj with rfl | hj
    · exact ⟨Nat.lt_of_lt_of_le hi h.within, unused⟩
    · obtain ⟨above, below⟩ := Finset.mem_Ico.mp hj
      refine ⟨below, ?_⟩
      by_contra used
      have := h.active j (Bool.eq_true_of_not_eq_false used)
      omega
  have outside : i ∉ Finset.Ico s.params.maxAccounts s.maxAccounts := by
    rw [Finset.mem_Ico]
    omega
  have card := Finset.card_le_card inside
  rw [Finset.card_insert_of_notMem outside, Nat.card_Ico, List.toFinset_card_of_nodup h.once] at card
  have := h.counted
  have := h.within
  omega

/-- A slot in use is counted. -/
theorem occupied (h : Slots s chain) (used : s.isUsed i = true) : 0 < s.numUsedAccounts := by
  have inside : chain.toFinset ⊆ (Finset.range s.maxAccounts).erase i := by
    intro j hj
    rw [List.mem_toFinset, h.unused] at hj
    rw [Finset.mem_erase, Finset.mem_range]
    refine ⟨?_, hj.1⟩
    rintro rfl
    rw [used] at hj
    cases hj.2
  have member : i ∈ Finset.range s.maxAccounts := Finset.mem_range.mpr (isUsed_lt used)
  have card := Finset.card_le_card inside
  have := Finset.card_pos.mpr ⟨i, member⟩
  rw [Finset.card_erase_of_mem member, Finset.card_range, List.toFinset_card_of_nodup h.once] at card
  rw [Finset.card_range] at this
  have := h.counted
  omega

/-- The neighbours of an unused slot are slots of the slab, and the checks of
`materialize_at` find that they point back. -/
theorem linked (h : Slots s chain) (hi : i ∈ chain) : ¬ s.DanglingLink i ∧ s.LinksAgree i := by
  obtain ⟨before, after⟩ := h.threads.neighbours hi
  have apart : ∀ {j}, j ∈ chain → j ≠ NIL := by
    rintro j hj rfl
    exact h.sentinel hj
  constructor
  · rintro (⟨some, out⟩ | ⟨some, out⟩)
    · rcases before with ⟨none, -⟩ | ⟨member, -⟩
      · exact some none
      · exact Nat.not_lt.mpr out ((h.unused _).mp member).1
    · rcases after with none | ⟨member, -⟩
      · exact some none
      · exact Nat.not_lt.mpr out ((h.unused _).mp member).1
  · constructor
    · rcases before with ⟨none, first⟩ | ⟨member, back⟩
      · exact (if_pos none).mpr first
      · exact (if_neg (apart member)).mpr ⟨back, ((h.unused _).mp member).2⟩
    · intro some
      rcases after with none | ⟨member, back⟩
      · exact absurd none some
      · exact ⟨back, ((h.unused _).mp member).2⟩

/-! ### The calls -/

/-- A call of `materialize_at` succeeds on the unused slots of the market and on those
only; where it fails it leaves the engine alone, and it does not panic. -/
theorem materializeAt_ends (h : Slots s chain) (i slot : Nat) :
    wp (materializeAt i slot) (fun _ _ _ => i < s.params.maxAccounts ∧ s.isUsed i = false)
      (fun e s' => e ≠ .panic ∧ s' = s ∧ ¬ (i < s.params.maxAccounts ∧ s.isUsed i = false)) s [] := by
  simp only [materializeAt, wp_bind, wp_read, wp_rejectIf, wp_failIf, wp_writeAccount, wp_update,
    wp_orErr]
  have err : ∀ e : RiskError, Plain.err e ≠ Plain.panic := by rintro e ⟨⟩
  have slab := h.slab
  have within := h.within
  constructor
  · intro out
    refine ⟨err _, trivial, ?_⟩
    rintro ⟨inside, -⟩
    omega
  intro _
  constructor
  · intro out
    refine ⟨err _, trivial, ?_⟩
    rintro ⟨inside, -⟩
    omega
  intro inside
  constructor
  · intro full
    refine ⟨err _, trivial, ?_⟩
    rintro ⟨inside, unused⟩
    have := h.room inside unused
    omega
  intro room
  have materialized := h.materialized
  have few : s.materializedAccountCount + 1 ≤ NIL := by omega
  constructor
  · intro overflow
    rw [checkedAddU64, if_pos (Nat.le_trans few (by decide))] at overflow
    cases overflow
  intro count counted
  have counted := (checkedAddU64_eq counted).1
  constructor
  · intro many
    have : NIL ≤ MAX_MATERIALIZED_ACCOUNTS := by decide
    omega
  intro _
  constructor
  · intro used
    refine ⟨err _, trivial, ?_⟩
    rintro ⟨-, unused⟩
    rw [used] at unused
    cases unused
  intro unused
  have unused : s.isUsed i = false := Bool.eq_false_of_not_eq_true unused
  obtain ⟨bound, agree⟩ := h.linked ((h.unused i).mpr ⟨by omega, unused⟩)
  constructor
  · intro dangling
    exact absurd dangling bound
  intro _
  constructor
  · intro disagree
    exact absurd agree disagree
  intro _
  constructor
  · intro overflow
    have : NIL = U16_MAX := rfl
    omega
  · intro _
    exact ⟨by omega, unused⟩

/-- So does the source's own order of the writes. -/
theorem materializeAtInOrder_eq (h : Slots s chain) (i slot : Nat) :
    materializeAtInOrder i slot s = materializeAt i slot s := by
  rcases materializeAt_agrees s i slot with same | ⟨t, panics⟩
  · exact same
  · exact absurd rfl (wp_sound_fault panics (h.materializeAt_ends i slot)).1

/-- A slot that is taken leaves the free list wherever it stood. -/
theorem materialize (h : Slots s chain) (hok : materializeAt i slot s = .ok () s' l) :
    Slots s' (chain.erase i) := by
  obtain ⟨taken, -⟩ := materializeAt_spec hok
  have fields := taken.eq
  have hmem : i ∈ chain := (h.unused i).mpr ⟨taken.lt, taken.unused⟩
  have slab : s'.maxAccounts = s.maxAccounts := by rw [fields]
  have params : s'.params = s.params := by rw [fields]
  have used : ∀ j, s'.isUsed j = (decide (j = i) || s.isUsed j) := by
    intro j
    rw [fields]
    unfold RiskEngine.isUsed
    by_cases same : j = i
    · simp [same, taken.lt]
    · simp [same, put_other]
  constructor
  · constructor
    · obtain ⟨l₁, l₂, rfl⟩ := List.append_of_mem hmem
      rw [materializeAt_links hok, List.erase_append_right _ ?_, List.erase_cons_head]
      · exact h.threads.unlink h.once h.sentinel
      · intro before
        exact (List.nodup_append.mp h.once).2.2 i before i List.mem_cons_self rfl
    · exact h.once.erase i
    · intro j
      rw [h.once.mem_erase_iff, h.unused, slab, used]
      by_cases same : j = i
      · simp [same]
      · simp [same]
  · rw [slab]
    exact h.slab
  · rw [slab, params]
    exact h.within
  · intro j hj
    rw [used] at hj
    rw [params]
    by_cases same : j = i
    · rw [same]
      exact taken.room
    · exact h.active j (by simpa [same] using hj)
  · have := h.counted
    have := List.length_pos_of_mem hmem
    rw [slab, taken.numUsed, List.length_erase_of_mem hmem]
    omega
  · rw [taken.materialized, taken.numUsed, h.materialized]

/-- A slot that is given up comes first. -/
theorem free (h : Slots s chain) (hok : freeSlot i s = .ok () s' l) : Slots s' (i :: chain) := by
  obtain ⟨freed, -⟩ := freeSlot_spec hok
  have fields := freed.eq
  have fresh : i ∉ chain := by
    intro hmem
    have := ((h.unused i).mp hmem).2
    rw [freed.used] at this
    cases this
  have slab : s'.maxAccounts = s.maxAccounts := by rw [fields]
  have params : s'.params = s.params := by rw [fields]
  have used : ∀ j, s'.isUsed j = (decide (j ≠ i) && s.isUsed j) := by
    intro j
    rw [fields]
    unfold RiskEngine.isUsed
    by_cases same : j = i
    · simp [same]
    · simp [same, put_other]
  constructor
  · constructor
    · rw [freeSlot_links hok]
      exact h.threads.push fresh h.once h.sentinel
    · exact List.nodup_cons.mpr ⟨fresh, h.once⟩
    · intro j
      rw [List.mem_cons, h.unused, slab, used]
      by_cases same : j = i
      · simp [same, isUsed_lt freed.used]
      · simp [same]
  · rw [slab]
    exact h.slab
  · rw [slab, params]
    exact h.within
  · intro j hj
    rw [used, Bool.and_eq_true] at hj
    rw [params]
    exact h.active j hj.2
  · have := h.counted
    have := freed.numUsed
    rw [slab, List.length_cons]
    omega
  · have := freed.materialized
    have := freed.numUsed
    have := h.materialized
    omega

/-- A failed `free_slot` has written nothing: the counters cannot run out. -/
theorem freeSlot_fails (h : Slots s chain) {e : Plain} (failed : freeSlot i s = .fault e s') :
    s' = s := by
  refine wp_sound_fault (Q := fun _ _ _ => True) (E := fun _ s' => s' = s) (l := []) failed ?_
  by_cases passes : s.isUsed i = true ∧ (s.accounts i).Freeable
  · have num := h.occupied passes.1
    refine wp_mono (freeSlot_safe passes.1 passes.2 num (h.materialized ▸ num)) ?_ ?_
    · intros
      trivial
    · intro e t never
      exact never.elim
  · simp only [freeSlot, wp_bind, wp_read, wp_rejectIf, wp_writeAccount, wp_update, wp_orErr,
      implies_true, true_and, and_true]
    intro _ used freeable
    exact absurd ⟨Bool.eq_true_of_not_eq_false used, not_not.mp freeable⟩ passes

/-- Every call of a history keeps the allocator's invariant. -/
theorem run (h : Slots s chain) (call : SlotCall) : ∃ chain', Slots (call.run s).final chain' := by
  cases call with
  | materialize i slot =>
      rw [SlotCall.run, h.materializeAtInOrder_eq i slot]
      cases ended : materializeAt i slot s with
      | ok u s' l => exact ⟨_, h.materialize ended⟩
      | fault e s' =>
          obtain ⟨-, rfl, -⟩ := wp_sound_fault ended (h.materializeAt_ends i slot)
          exact ⟨chain, h⟩
  | free i =>
      rw [SlotCall.run]
      cases ended : freeSlot i s with
      | ok u s' l => exact ⟨_, h.free ended⟩
      | fault e s' =>
          obtain rfl := h.freeSlot_fails ended
          exact ⟨chain, h⟩

theorem history (h : Slots s chain) (calls : List SlotCall) :
    ∃ chain', Slots (SlotCall.history s calls) chain' := by
  induction calls generalizing s chain with
  | nil => exact ⟨chain, h⟩
  | cons call calls ih =>
      obtain ⟨chain', next⟩ := h.run call
      exact ih next

end Slots

/-! ### After initialization -/

/-- Free-list integrity: after any history of `materialize_at` and `free_slot` calls on
an engine that `init_in_place` wrote, the free list is intact, `materialize_at`
succeeds on every unused slot of the market, and where it returns an error it has
changed nothing. -/
theorem freeList_integrity {p : RiskParams} {slot price : Nat} {s₀ s : RiskEngine}
    (slab : s₀.maxAccounts ≤ NIL) (init : initInPlace p slot price s₀ = .ok () s l)
    (calls : List SlotCall) :
    (∃ chain, (SlotCall.history s calls).FreeList chain) ∧
      (∀ idx slotAnchor, idx < (SlotCall.history s calls).params.maxAccounts →
        (SlotCall.history s calls).isUsed idx = false →
          ∃ s', materializeAtInOrder idx slotAnchor (SlotCall.history s calls) = .ok () s' []) ∧
      ∀ idx slotAnchor e s', materializeAtInOrder idx slotAnchor (SlotCall.history s calls) =
        .fault (.err e) s' → s' = SlotCall.history s calls := by
  have fresh : Slots s (List.range s₀.maxAccounts) := by
    obtain ⟨valid, -, -, rfl⟩ := initInPlace_spec init
    exact freshEngine_slots valid slab
  obtain ⟨chain, slots⟩ := fresh.history calls
  refine ⟨⟨chain, slots.toFreeList⟩, ?_, ?_⟩
  · intro idx slotAnchor inside unused
    rw [slots.materializeAtInOrder_eq]
    have ends := slots.materializeAt_ends idx slotAnchor
    cases ended : materializeAt idx slotAnchor (SlotCall.history s calls) with
    | ok u s' l =>
        obtain ⟨-, rfl⟩ := materializeAt_spec ended
        exact ⟨s', rfl⟩
    | fault e s' => exact absurd ⟨inside, unused⟩ (wp_sound_fault ended ends).2.2
  · intro idx slotAnchor e s' failed
    rw [slots.materializeAtInOrder_eq] at failed
    exact (wp_sound_fault failed (slots.materializeAt_ends idx slotAnchor)).2.1

/-- A history on a slab of four that takes slots 2 and 0, fails twice and gives slot 2
back: the free list is then 2, 1, 3, and slot 1, in its middle, can be taken. -/
theorem sampleMarket_freeList :
    (∃ chain, (SlotCall.history sampleMarket [.materialize 2 7, .materialize 2 7, .materialize 0 8,
        .materialize 9 8, .free 2]).FreeList chain) ∧
      ∃ s', materializeAtInOrder 1 9 (SlotCall.history sampleMarket [.materialize 2 7,
        .materialize 2 7, .materialize 0 8, .materialize 9 8, .free 2]) = .ok () s' [] := by
  have init : initInPlace sampleParams 100 1000 sampleMarket = .ok () sampleMarket [] := rfl
  obtain ⟨intact, succeeds, -⟩ := freeList_integrity (by decide) init [.materialize 2 7,
    .materialize 2 7, .materialize 0 8, .materialize 9 8, .free 2]
  exact ⟨intact, succeeds 1 9 (by decide +kernel) (by decide +kernel)⟩

end Percolator
