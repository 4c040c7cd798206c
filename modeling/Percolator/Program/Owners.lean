import Mathlib.Logic.Relation
import Percolator.Laws.FreeList
import Percolator.Program.Gate
import Percolator.Program.Vault

/-!
The owners of a market: who has which slot.

The program finds the slot of a user by a scan, takes a new one at the head of the free list and gives
slots back in the `Gc` crank. A handler is a run of moves of the table of slots; no owner comes to
have two, and a slot is free as long as the market has room.
-/

namespace Percolator

open Effect

variable {s s' s₁ : RiskEngine} {chain : List Nat} {i j amount now price hMin hMax : Nat} {rate : Int} {owner : Bytes32}
  {l : List Event}

/-! ### The table of slots -/

/-- The table of slots: which are used, the free list, and the owners. -/
def RiskEngine.seating (s : RiskEngine) : Fixtures := { s.fixtures with vault := 0, gcCursor := 0 }

instance {ε α : Type} {m : Effect ε Event RiskEngine α} [h : Fixed m] : Keeps RiskEngine.seating m :=
  ⟨fun ok => congrArg (fun f : Fixtures => { f with vault := 0, gcCursor := 0 }) (h.kept ok)⟩

instance {n : Nat} : Keeps RiskEngine.seating (update (ε := Plain) (ω := Event) fun s => s.withVault n) := by
  have spares : Spares RiskEngine.seating fun s => s.withVault n := ⟨fun _ => rfl⟩
  infer_instance

theorem seating_setAccount {a : Account} :
    (s.setAccount i a).seating = { s.seating with owner := put s.seating.owner i a.owner } := by
  have owners : (fun j => ((s.setAccount i a).accounts j).owner) = put (fun j => (s.accounts j).owner) i a.owner := by
    funext j
    by_cases same : j = i
    · rw [same, put_same]
      exact congrArg Account.owner (put_same _ _ _)
    · rw [put_other _ _ same]
      exact congrArg Account.owner (put_other _ _ same)
  unfold RiskEngine.seating RiskEngine.fixtures
  rw [owners]
  rfl

theorem owner_of_seating (same : s'.seating = s.seating) (i : Nat) : (s'.accounts i).owner = (s.accounts i).owner :=
  congrFun (congrArg Fixtures.owner same) i

theorem isUsed_of_seating (same : { s'.seating with owner := s.seating.owner } = s.seating) : s'.isUsed = s.isUsed := by
  have used : s'.used = s.used := congrArg Fixtures.used same
  have slab : s'.maxAccounts = s.maxAccounts := congrArg Fixtures.maxAccounts same
  funext i
  unfold RiskEngine.isUsed
  rw [used, slab]

/-- The allocator goes by the table without the owners. -/
theorem Slots.congr (h : Slots s chain) (same : { s'.seating with owner := s.seating.owner } = s.seating) :
    Slots s' chain := by
  have slab : s'.maxAccounts = s.maxAccounts := congrArg Fixtures.maxAccounts same
  have params : s'.params = s.params := congrArg Fixtures.params same
  have numUsed : s'.numUsedAccounts = s.numUsedAccounts := congrArg Fixtures.numUsedAccounts same
  have materialized : s'.materializedAccountCount = s.materializedAccountCount :=
    congrArg Fixtures.materializedAccountCount same
  have links : s'.links = s.links := by
    have head : s'.freeHead = s.freeHead := congrArg Fixtures.freeHead same
    have next : s'.nextFree = s.nextFree := congrArg Fixtures.nextFree same
    have prev : s'.prevFree = s.prevFree := congrArg Fixtures.prevFree same
    unfold RiskEngine.links
    rw [head, next, prev]
  refine ⟨⟨?_, h.once, ?_⟩, ?_, ?_, ?_, ?_, ?_⟩
  · rw [links]
    exact h.threads
  · rw [slab, isUsed_of_seating same]
    exact h.unused
  · rw [slab]
    exact h.slab
  · rw [params, slab]
    exact h.within
  · rw [isUsed_of_seating same, params]
    exact h.active
  · rw [numUsed, slab]
    exact h.counted
  · rw [materialized, numUsed]
    exact h.materialized

/-! ### What the engine does to it -/

-- the search for an instance goes through the whole body of a function
set_option synthInstance.maxSize 1000000

instance : Keeps RiskEngine.seating (payOut i amount) := by
  unfold payOut
  infer_instance

instance : Keeps RiskEngine.seating (creditDeposit i amount now) := by
  unfold creditDeposit
  infer_instance

instance : Keeps RiskEngine.seating (withdraw i amount price now rate hMin hMax) := by
  unfold withdraw
  infer_instance

/-- A deposit takes its slot when no one has it. -/
theorem deposit_seating (ok : deposit i amount now s = .ok () s' l) :
    (s.isUsed i = true ∧ s'.seating = s.seating) ∨
      s.isUsed i = false ∧ s.params.minInitialDeposit ≤ amount ∧
        ∃ s₁ l₁, materializeAt i now s = .ok () s₁ l₁ ∧ s'.seating = s₁.seating := by
  refine wp_sound (Q := fun _ s' _ => (s.isUsed i = true ∧ s'.seating = s.seating) ∨ s.isUsed i = false ∧
    s.params.minInitialDeposit ≤ amount ∧ ∃ s₁ l₁, materializeAt i now s = .ok () s₁ l₁ ∧ s'.seating = s₁.seating) ok ?_
  simp only [deposit, wp_bind, wp_read, wp_lift, wp_rejectIf, implies_true, true_and]
  intro _ _ _
  refine wp_ok fun _ s₀ _ envelope => ?_
  obtain ⟨rfl, -, -⟩ := checkLiveAccrualEnvelope_spec envelope
  refine wp_ok fun v s₁ _ room => ?_
  obtain ⟨rfl, -, -, -⟩ := vaultAfter_spec room
  refine wp_ok fun _ s₂ _ taken => ?_
  intro _
  -- the rest of the deposit keeps the table
  refine Keeps.wp (v := RiskEngine.seating) fun _ s₃ _ same₃ => ?_
  refine Keeps.wp (v := RiskEngine.seating) fun _ s₄ _ same₄ => ?_
  refine Keeps.wp (v := RiskEngine.seating) fun _ s₅ _ same₅ => ?_
  refine Keeps.wp (v := RiskEngine.seating) fun _ s₆ _ same₆ => ?_
  refine Keeps.wp (v := RiskEngine.seating) fun _ s₇ _ same₇ => ?_
  have same : s₇.seating = s₂.seating := same₇.trans (same₆.trans (same₅.trans (same₄.trans same₃)))
  split_ifs at taken with unused
  · right
    have fresh : s₁.params.minInitialDeposit ≤ amount ∧ ∃ l, materializeAt i now s₁ = .ok () s₂ l := by
      refine wp_sound (Q := fun _ s₂ _ => s₁.params.minInitialDeposit ≤ amount ∧ ∃ l, materializeAt i now s₁ = .ok () s₂ l)
        taken ?_
      simp only [wp_bind, wp_lift, wp_rejectIf, implies_true, true_and, not_lt]
      intro large
      exact wp_ok fun _ _ l ok => ⟨large, l, ok⟩
    obtain ⟨large, l, ok⟩ := fresh
    exact ⟨unused, large, s₂, l, ok, same⟩
  · left
    cases taken
    exact ⟨Bool.eq_true_of_not_eq_false unused, same⟩

/-- A reclaim gives up its slot. -/
theorem reclaim_seating (ok : reclaimEmptyAccount i now s = .ok () s' l) :
    ∃ s₁ s₂ l₂, s₁.seating = s.seating ∧ freeSlot i s₁ = .ok () s₂ l₂ ∧ s'.seating = s₂.seating := by
  refine wp_sound (Q := fun _ s' _ => ∃ s₁ s₂ l₂, s₁.seating = s.seating ∧ freeSlot i s₁ = .ok () s₂ l₂ ∧
    s'.seating = s₂.seating) ok ?_
  simp only [reclaimEmptyAccount, wp_bind, wp_read, wp_lift, wp_rejectIf, implies_true, true_and]
  intro _ _
  refine Keeps.wp (v := RiskEngine.seating) fun _ s₁ _ same₁ => ?_
  intro _ _ _ _ _
  refine Keeps.wp (v := RiskEngine.seating) fun _ s₂ _ same₂ => ?_
  intro _
  refine Keeps.wp (v := RiskEngine.seating) fun _ s₃ _ same₃ => ?_
  refine wp_ok fun _ s₄ l₄ freed => ?_
  refine Keeps.wp (v := RiskEngine.seating) fun _ s₅ _ same₅ => ?_
  refine Keeps.wp (v := RiskEngine.seating) fun _ s₆ _ same₆ => ?_
  exact ⟨s₃, s₄, l₄, same₃.trans (same₂.trans same₁), freed, same₆.trans same₅⟩

theorem setOwner_spec (ok : setOwner i owner s = .ok () s' l) :
    owner ≠ 0 ∧ (s.accounts i).owner = 0 ∧ s'.seating = { s.seating with owner := put s.seating.owner i owner } := by
  refine wp_sound (Q := fun _ s' _ => owner ≠ 0 ∧ (s.accounts i).owner = 0 ∧
    s'.seating = { s.seating with owner := put s.seating.owner i owner }) ok ?_
  simp only [setOwner, wp_bind, wp_read, wp_lift, wp_rejectIf, wp_writeAccount, implies_true, true_and, not_not]
  intro _ named unnamed
  exact ⟨named, unnamed, seating_setAccount⟩

namespace Program

/-! ### Moves of the table -/

/-- A move of the table of slots under the program. -/
inductive SeatMove (s s' : RiskEngine) : Prop
  | kept (same : s'.seating = s.seating)
  | taken {i now : Nat} {owner : Bytes32} {s₁ : RiskEngine} {l : List Event}
      (took : materializeAt i now s = .ok () s₁ l) (named : owner ≠ 0)
      (new : owner ≠ PROTOCOL_LP_OWNER_SENTINEL → ∀ j, s.isUsed j = true → (s.accounts j).owner ≠ owner)
      (same : s'.seating = { s₁.seating with owner := put s₁.seating.owner i owner })
  | freed {i : Nat} {s₁ : RiskEngine} {l : List Event} (other : i ≠ PROTOCOL_LP_SLOT)
      (gave : freeSlot i s = .ok () s₁ l) (same : s'.seating = s₁.seating)

/-- Slots in use have an owner, and no key but the sentinel has two; the free list has no slot of the
market behind one beyond it. -/
structure Tenancy (s : RiskEngine) (chain : List Nat) : Prop extends Slots s chain where
  ordered : chain.Pairwise fun i j => j < s.params.maxAccounts → i < s.params.maxAccounts
  named : ∀ i, s.isUsed i = true → (s.accounts i).owner ≠ 0
  sole : ∀ i j, s.isUsed i = true → s.isUsed j = true → (s.accounts i).owner = (s.accounts j).owner →
    (s.accounts i).owner ≠ PROTOCOL_LP_OWNER_SENTINEL → i = j

/-- The counterparty of the market has its slot. -/
def Bootstrapped (s : RiskEngine) : Prop :=
  s.isUsed PROTOCOL_LP_SLOT = true ∧ (s.accounts PROTOCOL_LP_SLOT).owner = PROTOCOL_LP_OWNER_SENTINEL

namespace SeatMove

/-- What a slot holds after it is taken. -/
theorem taken_slots (took : materializeAt i now s = .ok () s₁ l)
    (same : s'.seating = { s₁.seating with owner := put s₁.seating.owner i owner }) :
    (∀ j, s'.isUsed j = if j = i then true else s.isUsed j) ∧
      ∀ j, (s'.accounts j).owner = if j = i then owner else (s.accounts j).owner := by
  obtain ⟨taken, -⟩ := materializeAt_spec took
  constructor
  · intro j
    have bits : s'.isUsed = s₁.isUsed := by
      apply isUsed_of_seating
      rw [same]
    rw [bits, taken.toSameButSlots.isUsed taken.lt]
  · intro j
    have owners : (s'.accounts j).owner = put s₁.seating.owner i owner j := congrFun (congrArg Fixtures.owner same) j
    rw [owners, put_apply]
    by_cases here : j = i
    · rw [if_pos here, if_pos here]
    · rw [if_neg here, if_neg here]
      show (s₁.accounts j).owner = _
      rw [taken.toSameButSlots.accounts_eq, put_other _ _ here]

/-- What a slot holds after it is given up. -/
theorem freed_slots (gave : freeSlot i s = .ok () s₁ l) (same : s'.seating = s₁.seating) :
    (∀ j, s'.isUsed j = if j = i then false else s.isUsed j) ∧
      ∀ j, j ≠ i → (s'.accounts j).owner = (s.accounts j).owner := by
  obtain ⟨freed, -⟩ := freeSlot_spec gave
  constructor
  · intro j
    have bits : s'.isUsed = s₁.isUsed := by
      apply isUsed_of_seating
      rw [same]
    rw [bits, freed.toSameButSlots.isUsed (isUsed_lt freed.used)]
  · intro j apart
    rw [owner_of_seating same, freed.toSameButSlots.accounts_eq, put_other _ _ apart]

theorem tenancy (move : SeatMove s s') (h : Tenancy s chain) : ∃ chain', Tenancy s' chain' := by
  cases move with
  | kept same =>
      have slots : Slots s' chain := h.toSlots.congr (by rw [same])
      have used : s'.isUsed = s.isUsed := isUsed_of_seating (by rw [same])
      have params : s'.params = s.params := congrArg Fixtures.params same
      have owner := owner_of_seating same
      refine ⟨chain, slots, ?_, ?_, ?_⟩
      · rw [params]
        exact h.ordered
      · intro i
        rw [used, owner]
        exact h.named i
      · intro i j
        rw [used, owner, owner]
        exact h.sole i j
  | @taken i now owner s₁ l took named new same =>
      obtain ⟨taken, -⟩ := materializeAt_spec took
      obtain ⟨used, owners⟩ := taken_slots took same
      have slots : Slots s' (chain.erase i) := (h.toSlots.materialize took).congr (by rw [same])
      have params : s'.params = s.params := by
        have moved : s'.params = s₁.params := congrArg Fixtures.params same
        rw [moved, taken.eq]
      have known : ∀ j, j ≠ i → s'.isUsed j = true → s.isUsed j = true ∧ (s'.accounts j).owner = (s.accounts j).owner := by
        intro j apart inUse
        rw [used, if_neg apart] at inUse
        exact ⟨inUse, (owners j).trans (if_neg apart)⟩
      have mine : (s'.accounts i).owner = owner := (owners i).trans (if_pos rfl)
      refine ⟨chain.erase i, slots, ?_, ?_, ?_⟩
      · rw [params]
        exact h.ordered.sublist List.erase_sublist
      · intro j inUse
        by_cases here : j = i
        · rw [here, mine]
          exact named
        · obtain ⟨before, same⟩ := known j here inUse
          rw [same]
          exact h.named j before
      · intro j k inUse inUse' alike other
        by_cases here : j = i
        · by_cases there : k = i
          · rw [here, there]
          · obtain ⟨before, same⟩ := known k there inUse'
            rw [here, mine] at alike other
            exact absurd (same.symm.trans alike.symm) (new other k before)
        · obtain ⟨before, same⟩ := known j here inUse
          by_cases there : k = i
          · rw [there, mine] at alike
            rw [alike] at other
            exact absurd (same.symm.trans alike) (new other j before)
          · obtain ⟨before', same'⟩ := known k there inUse'
            rw [same, same'] at alike
            rw [same] at other
            exact h.sole j k before before' alike other
  | @freed i s₁ l _ gave same =>
      obtain ⟨freed, -⟩ := freeSlot_spec gave
      obtain ⟨used, owners⟩ := freed_slots gave same
      have slots : Slots s' (i :: chain) := (h.toSlots.free gave).congr (by rw [same])
      have params : s'.params = s.params := by
        have moved : s'.params = s₁.params := congrArg Fixtures.params same
        rw [moved, freed.eq]
      have known : ∀ j, s'.isUsed j = true → s.isUsed j = true ∧ (s'.accounts j).owner = (s.accounts j).owner := by
        intro j inUse
        by_cases here : j = i
        · rw [used, if_pos here] at inUse
          cases inUse
        · rw [used, if_neg here] at inUse
          exact ⟨inUse, owners j here⟩
      refine ⟨i :: chain, slots, ?_, ?_, ?_⟩
      · rw [params]
        exact List.pairwise_cons.mpr ⟨fun _ _ _ => h.active i freed.used, h.ordered⟩
      · intro j inUse
        obtain ⟨before, same⟩ := known j inUse
        rw [same]
        exact h.named j before
      · intro j k inUse inUse' alike other
        obtain ⟨before, same⟩ := known j inUse
        obtain ⟨before', same'⟩ := known k inUse'
        rw [same, same'] at alike
        rw [same] at other
        exact h.sole j k before before' alike other

theorem bootstrapped (move : SeatMove s s') (h : Bootstrapped s) : Bootstrapped s' := by
  obtain ⟨inUse, sentinel⟩ := h
  cases move with
  | kept same =>
      have used : s'.isUsed = s.isUsed := isUsed_of_seating (by rw [same])
      exact ⟨(congrFun used _).trans inUse, (owner_of_seating same _).trans sentinel⟩
  | @taken i _ _ _ _ took _ _ same =>
      obtain ⟨used, owners⟩ := taken_slots took same
      have apart : PROTOCOL_LP_SLOT ≠ i := by
        rintro rfl
        rw [(materializeAt_spec took).1.unused] at inUse
        cases inUse
      refine ⟨?_, ?_⟩
      · rw [used, if_neg apart, inUse]
      · rw [owners, if_neg apart, sentinel]
  | @freed i _ _ other gave same =>
      obtain ⟨used, owners⟩ := freed_slots gave same
      refine ⟨?_, ?_⟩
      · rw [used, if_neg other.symm, inUse]
      · rw [owners _ other.symm, sentinel]

end SeatMove

namespace Tenancy

/-- While slots of the market are unused, the free list begins with one of them. -/
theorem head (h : Tenancy s chain) (room : s.usedSlots.card < s.params.maxAccounts)
    (counted : s.numUsedAccounts = s.usedSlots.card) :
    s.freeHead < s.params.maxAccounts ∧ s.isUsed s.freeHead = false := by
  have size := h.counted
  have within := h.within
  obtain ⟨last, segment⟩ := h.threads
  cases chain with
  | nil =>
      rw [List.length_nil] at size
      omega
  | cons i rest =>
      have first : s.freeHead = i := segment.1
      have unused := ((h.unused i).mp List.mem_cons_self).2
      rw [first]
      refine ⟨?_, unused⟩
      -- behind a head beyond the market every free slot lies beyond it, and there are not so many
      by_contra beyond
      have all : ∀ j ∈ i :: rest, s.params.maxAccounts ≤ j := by
        intro j member
        rcases List.mem_cons.mp member with rfl | behind
        · omega
        · have order := (List.pairwise_cons.mp h.ordered).1 j behind
          omega
      have inside : (i :: rest).toFinset ⊆ Finset.Ico s.params.maxAccounts s.maxAccounts := by
        intro j member
        rw [List.mem_toFinset] at member
        exact Finset.mem_Ico.mpr ⟨all j member, ((h.unused j).mp member).1⟩
      have card := Finset.card_le_card inside
      rw [Nat.card_Ico, List.toFinset_card_of_nodup h.once] at card
      omega

/-- The scan finds a user's slot if there is one. -/
theorem unowned (h : Tenancy s chain) {user : Bytes32} (none : findOwner s user = none) {j : Nat}
    (used : s.isUsed j = true) : (s.accounts j).owner ≠ user := by
  intro mine
  have below : j < min s.params.maxAccounts s.maxAccounts := lt_min (h.active j used) (isUsed_lt used)
  have absent := List.find?_eq_none.mp none j (List.mem_range.mpr below)
  rw [Bool.and_eq_true, decide_eq_true_eq] at absent
  exact absent ⟨used, mine⟩

end Tenancy

/-- A sequence of moves. -/
abbrev Seated (s s' : RiskEngine) : Prop := Relation.ReflTransGen SeatMove s s'

theorem Seated.tenancy (moves : Seated s s') (h : Tenancy s chain) : ∃ chain', Tenancy s' chain' := by
  induction moves with
  | refl => exact ⟨chain, h⟩
  | tail _ move ih =>
      obtain ⟨_, before⟩ := ih
      exact move.tenancy before

theorem Seated.bootstrapped (moves : Seated s s') (h : Bootstrapped s) : Bootstrapped s' := by
  induction moves with
  | refl => exact h
  | tail _ move ih => exact move.bootstrapped ih

/-! ### The handlers -/

variable {user : Bytes32} {feed : List Byte} {slot : UInt64} {ts : List Transfer}

theorem Seated.same (same : s'.seating = s.seating) : Seated s s' := .single (.kept same)

/-- A slot that is deposited to and then named was taken for it. -/
theorem Tenancy.taken (h : Tenancy s chain) (paid : deposit i amount now s = .ok () s₁ l)
    {s₂ : RiskEngine} {l₂ : List Event} (named : setOwner i owner s₁ = .ok () s₂ l₂) :
    owner ≠ 0 ∧ ∃ s₃ l₃, materializeAt i now s = .ok () s₃ l₃ ∧
      s₂.seating = { s₃.seating with owner := put s₃.seating.owner i owner } := by
  obtain ⟨nonzero, unnamed, same₂⟩ := setOwner_spec named
  rcases deposit_seating paid with ⟨used, same₁⟩ | ⟨-, -, s₃, l₃, took, same₁⟩
  · rw [owner_of_seating same₁] at unnamed
    exact absurd unnamed (h.named _ used)
  · exact ⟨nonzero, s₃, l₃, took, by rw [same₂, same₁]⟩

theorem processDeposit_seated {args : DepositArgs} (h : Tenancy s chain) :
    wp (processDeposit user args slot) (fun _ s' _ => Seated s s') (fun _ _ => True) s [] := by
  simp only [processDeposit, reject, wp_bind, wp_failIf, implies_true, true_and]
  intro _
  refine wp_mono depositSlot_spec ?_ fun _ _ _ => trivial
  rintro ⟨i, fresh⟩ s₀ ts ⟨rfl, rfl, chosen⟩
  simp only [wp_whenever, wp_emit]
  refine wp_callEngine fun _ s₁ l₁ ok => ?_
  rcases chosen with ⟨rfl, found⟩ | ⟨rfl, none, free, rfl⟩
  · -- the slot is the user's own
    refine ⟨fun odd => absurd odd (by decide), fun _ => ?_⟩
    rcases deposit_seating ok with ⟨-, same⟩ | ⟨unused, -⟩
    · exact Seated.same same
    · rw [findOwner_used found] at unused
      cases unused
  · refine ⟨fun _ => ?_, fun odd => absurd rfl odd⟩
    refine wp_callEngine fun _ s₂ l₂ owned => ?_
    obtain ⟨nonzero, s₃, l₃, took, same⟩ := h.taken ok owned
    exact .single (.taken took nonzero (fun _ j used => h.unowned none used) same)

theorem processBootstrapLp_seated {args : BootstrapLpArgs} :
    wp (processBootstrapLp args slot) (fun _ s' _ => Seated s s' ∧ Bootstrapped s') (fun _ _ => True) s [] := by
  simp only [processBootstrapLp, reject, wp_bind, wp_failIf, wp_read, wp_update, wp_emit, implies_true, true_and]
  intro _ unused _
  refine wp_callEngine fun _ s₁ l₁ ok => ?_
  rcases deposit_seating ok with ⟨used, -⟩ | ⟨-, -, s₂, l₂, took, same⟩
  · exact absurd used unused
  · have labeled : (s₁.setAccount PROTOCOL_LP_SLOT (Account.asLp (s₁.accounts PROTOCOL_LP_SLOT))).seating =
        { s₂.seating with owner := put s₂.seating.owner PROTOCOL_LP_SLOT PROTOCOL_LP_OWNER_SENTINEL } := by
      rw [seating_setAccount, same]
      rfl
    obtain ⟨used, owners⟩ := SeatMove.taken_slots took labeled
    refine ⟨.single (.taken took (by decide) (fun other => absurd rfl other) labeled), ?_, ?_⟩
    · rw [used, if_pos rfl]
    · rw [owners, if_pos rfl]

theorem processWithdraw_seated {args : WithdrawArgs} :
    wp (processWithdraw user args slot) (fun _ s' _ => Seated s s') (fun _ _ => True) s [] := by
  simp only [processWithdraw, reject, okOr, wp_bind, wp_failIf, wp_read, wp_demand, wp_emit, implies_true, true_and]
  intro _ i _
  refine wp_callEngine fun _ s₁ l₁ ok => ?_
  exact Seated.same (Keeps.kept ok)

theorem processPlaceOrder_seated {args : PlaceOrderArgs} :
    wp (processPlaceOrder user args feed slot) (fun _ s' _ => Seated s s') (fun _ _ => True) s [] := by
  simp only [processPlaceOrder, sideModeGate, reject, okOr, wp_bind, wp_failIf, implies_true, true_and]
  intro _ _ _
  refine wp_oraclePrice fun price => ?_
  simp only [wp_read, wp_demand, implies_true, true_and]
  intro _ i _ _ cur _ _
  refine wp_callEngine fun _ s₁ l₁ ok => ?_
  exact Seated.same (Keeps.kept ok)

theorem processLiquidate_seated {args : LiquidateArgs} :
    wp (processLiquidate args feed slot) (fun _ s' _ => Seated s s') (fun _ _ => True) s [] := by
  simp only [processLiquidate, payLiquidationBounty, reject, okOr, wp_bind, wp_read, wp_failIf, wp_update, wp_demand,
    wp_whenever, wp_emit, implies_true, true_and]
  intro _ _
  refine wp_oraclePrice fun price => ?_
  intro _
  refine wp_callEngine fun did s₁ l₁ ok => ?_
  have same : s₁.seating = s.seating := Keeps.kept ok
  intro _
  refine ⟨fun paid newCTot _ newV _ => ?_, fun none => ⟨fun paid => absurd paid none, fun _ => Seated.same same⟩⟩
  have written : ∀ n, (((s₁.setAccount args.victimSlot.toNat
      ((s₁.accounts args.victimSlot.toNat).withCapital n)).withCTot newCTot).withVault newV).seating = s₁.seating := by
    intro n
    have fixed := fixtures_setAccount (s := s₁) (i := args.victimSlot.toNat)
      (a := (s₁.accounts args.victimSlot.toNat).withCapital n) rfl
    exact congrArg (fun f : Fixtures => { f with vault := 0, gcCursor := 0 }) fixed
  exact ⟨fun _ => Seated.same ((written _).trans same), fun none => absurd paid none⟩

/-! ### Cranks -/

theorem crankGc_seated (h : Sound s) : wp (crankGc slot) (fun _ s' _ => Seated s s') (fun _ _ => True) s [] := by
  refine wp_ok fun _ s' _ ok => ?_
  obtain ⟨-, g, scan, -, rfl⟩ := crankGc_ok ok
  have scanned : Seated s g.engine := by
    refine (h.gcLoop (I := fun e => Seated s e) ?_ _ .refl scan).2
    intro e e' i l _ moves other _ reclaimed
    obtain ⟨e₁, e₂, l₂, same₁, gave, same₂⟩ := reclaim_seating reclaimed
    exact (moves.tail (.kept same₁)).tail (.freed other gave same₂)
  exact scanned.tail (.kept rfl)

theorem processCrank_seated {args : CrankArgs} (h : Sound s) :
    wp (processCrank args slot) (fun _ s' _ => Seated s s') (fun _ _ => True) s [] := by
  have paid : ∀ {work : Handler Unit}, wp work (fun _ s' _ => Seated s s') (fun _ _ => True) s [] →
      wp (work >>= fun _ => payCrankBounty) (fun _ s' _ => Seated s s') (fun _ _ => True) s [] := by
    intro work moved
    simp only [payCrankBounty, okOr, wp_bind, wp_read, wp_whenever, wp_update, wp_demand, wp_emit, implies_true, true_and]
    refine wp_mono moved ?_ fun _ _ _ => trivial
    intro _ s₁ _ moves
    refine ⟨fun due newV _ => ⟨fun _ => moves.tail (.kept rfl), fun none => absurd due none⟩, fun none => ?_⟩
    exact ⟨fun due => absurd due none, fun _ => moves⟩
  unfold processCrank okOr
  rw [wp_bind, wp_demand]
  refine ⟨fun _ => trivial, ?_⟩
  intro kind _
  cases kind with
  | funding =>
      apply paid
      simp only [crankFunding, reject, wp_bind, wp_read, wp_failIf, wp_update, implies_true, true_and]
      intro _
      refine wp_callEngine fun _ s₁ l₁ ok => ?_
      have same : s₁.seating = s.seating := Keeps.kept ok
      exact Seated.same same
  | gc => exact paid (crankGc_seated h)
  | adlReset =>
      apply paid
      simp only [crankAdlReset, reject, okOr, wp_bind, wp_read, wp_demand, wp_failIf, implies_true, true_and]
      intro anchor _
      refine wp_callEngine fun _ s₁ l₁ ok => ?_
      exact fun _ => Seated.same (Keeps.kept ok)

/-! ### Every market -/

theorem process_seated (h : Sound s) (tenancy : Tenancy s chain) (request : Request) :
    wp (request.process slot) (fun _ s' _ => Seated s s') (fun _ _ => True) s [] := by
  cases request with
  | deposit user args => exact processDeposit_seated tenancy
  | withdraw user args => exact processWithdraw_seated
  | bootstrapLp args => exact wp_mono processBootstrapLp_seated (fun _ _ _ both => both.1) fun _ _ _ => trivial
  | placeOrder user args feed => exact processPlaceOrder_seated
  | liquidate args feed => exact processLiquidate_seated
  | crank args => exact processCrank_seated h

theorem Request.executed {m m' : Slab} {request : Request} (ok : request.execute m slot = some m') :
    ∃ ts, request.process slot m.engine = .ok () m'.engine ts := by
  unfold Request.execute at ok
  cases run : request.process slot m.engine with
  | fault f engine =>
      rw [run] at ok
      cases ok
  | ok _ engine ts =>
      rw [run] at ok
      obtain ⟨vaultTokens, -, rfl⟩ := Option.map_eq_some_iff.mp ok
      exact ⟨ts, rfl⟩

theorem Transaction.seated {m m' : Slab} {ls : List (Request × UInt64)} (h : Sound m.engine)
    (tenancy : Tenancy m.engine chain) (t : Transaction m ls m') : Seated m.engine m'.engine := by
  cases t with
  | rolledBack => exact .refl
  | @committed _ request slot ok =>
      obtain ⟨ts, run⟩ := Request.executed ok
      exact wp_at (process_seated h tenancy request) run

/-- A market whose slots are in order. -/
structure Orderly (m : Slab) : Prop where
  sound : Sound m.engine
  tenancy : ∃ chain, Tenancy m.engine chain

theorem Orderly.run {m m' : Slab} {l : List (Request × UInt64)} (h : Orderly m) (run : Run Transaction m l m') :
    Orderly m' ∧ (Bootstrapped m.engine → Bootstrapped m'.engine) := by
  refine run.invariant (I := fun m' => Orderly m' ∧ (Bootstrapped m.engine → Bootstrapped m'.engine)) ?_ ⟨h, id⟩
  rintro m₁ m₂ l ⟨⟨sound, chain, tenancy⟩, stays⟩ t
  have moves := t.seated sound tenancy
  exact ⟨⟨(t.kept sound).sound, moves.tenancy tenancy⟩, fun before => moves.bootstrapped (stays before)⟩

theorem Initial.orderly {m : Slab} (h : Initial m) (slab : m.engine.maxAccounts ≤ NIL) : Orderly m := by
  refine ⟨h.sound, List.range m.engine.maxAccounts, ?_⟩
  obtain ⟨s₀, args, slot, l, -, ok, -⟩ := h
  obtain ⟨valid, -, -, eq⟩ := initInPlace_spec ok
  rw [eq] at slab ⊢
  have slots : Slots (freshEngine _ _ slot.toNat args.initOraclePrice.toNat) _ := freshEngine_slots valid slab
  refine ⟨slots, ?_, ?_, ?_⟩
  · apply List.pairwise_lt_range.imp
    intro i j before below
    exact before.trans below
  · intro i used
    rw [freshEngine_isUsed] at used
    cases used
  · intro i j used
    rw [freshEngine_isUsed] at used
    cases used

theorem Reachable.orderly {m : Slab} (h : Reachable m) (slab : m.engine.maxAccounts ≤ NIL) : Orderly m := by
  obtain ⟨m₀, l, initial, run⟩ := h
  have kept : Sound m.engine ∧ m.engine.maxAccounts = m₀.engine.maxAccounts := by
    refine run.invariant (I := fun m => Sound m.engine ∧ m.engine.maxAccounts = m₀.engine.maxAccounts) ?_
      ⟨initial.sound, rfl⟩
    intro m₁ m₂ _ before t
    have kept := t.kept before.1
    exact ⟨kept.sound, kept.same.maxAccounts.trans before.2⟩
  exact ((initial.orderly (kept.2 ▸ slab)).run run).1

/-! ### First deposits -/

/-- The checks of a deposit that are not about slots. -/
structure Depositable (s : RiskEngine) (amount now : Nat) : Prop extends AcceptsClock s now where
  cap : s.vault + amount ≤ MAX_VAULT_TVL

theorem deposit_checked (ok : deposit i amount now s = .ok () s' l) : Depositable s amount now := by
  refine wp_sound (Q := fun _ _ _ => Depositable s amount now) ok ?_
  simp only [deposit, wp_bind, wp_read, wp_lift, wp_rejectIf, implies_true, true_and, not_lt]
  intro _ clock _
  refine wp_ok fun _ s₀ _ checked => ?_
  obtain ⟨rfl, -, envelope⟩ := checkLiveAccrualEnvelope_spec checked
  refine wp_ok fun v s₁ _ room => ?_
  obtain ⟨rfl, -, -, cap⟩ := vaultAfter_spec room
  refine wp_ok fun _ s₂ _ _ => ?_
  intro _
  exact wp_ok fun _ _ _ _ => wp_ok fun _ _ _ _ => wp_ok fun _ _ _ _ => wp_ok fun _ _ _ _ => wp_ok fun _ _ _ _ =>
    ⟨⟨clock, envelope⟩, cap⟩

/-- A deposit that passes its checks succeeds on a free slot of the market. -/
theorem Sound.deposit_safe (h : Sound s) (slots : Slots s chain) (checks : Depositable s amount now)
    (inside : i < s.params.maxAccounts) (unused : s.isUsed i = false) (large : s.params.minInitialDeposit ≤ amount) :
    wp (Percolator.deposit i amount now) (fun _ _ _ => True) (fun _ _ => False) s [] := by
  obtain ⟨⟨clock, envelope⟩, cap⟩ := checks
  have market := h.timely.market_le h.live
  have rise : checkedAddU128 s.vault amount = some (s.vault + amount) := by
    have : MAX_VAULT_TVL ≤ U128_MAX := by decide
    exact if_pos (by omega)
  simp only [Percolator.deposit, checkLiveAccrualEnvelope, vaultAfter, wp_bind, wp_read, wp_lift, wp_rejectIf, wp_orErr,
    wp_ite, wp_update, wp_pure, wp_whenever, h.live, rise, unused, not_lt, not_true_eq_false, ne_eq, false_imp_iff,
    true_and, and_true, reduceCtorEq, not_false_eq_true, forall_const, Option.some.injEq, forall_eq']
  refine ⟨fun late => absurd late (by omega), fun _ => ⟨fun late => absurd late (by omega), fun _ => ?_⟩⟩
  refine ⟨fun late => absurd late (by omega), fun _ => ⟨fun full => absurd full (by omega), fun _ => ?_⟩⟩
  refine ⟨fun small => absurd small (by omega), fun _ => ?_⟩
  have taking := slots.materializeAt_ends i now
  refine wp_split (wp_mono taking (fun _ _ _ _ => trivial) fun _ _ fails => fails.2.2 ⟨inside, unused⟩) fun _ s₁ l₁ took => ?_
  obtain ⟨taken, rfl⟩ := materializeAt_spec took
  have h₀ := (Course.start (.single i True False True) h.good).anchor h.live clock envelope
  have h₁ := h₀.quiet (.materialized trivial rfl h.live le_rfl taken.withCurrentSlot)
  have used : s₁.isUsed i = true := by rw [taken.toSameButSlots.isUsed taken.lt, if_pos rfl]
  have vault : (s₁.withCurrentSlot now).vault = s.vault := by
    rw [taken.eq]
    rfl
  have live : (s₁.withCurrentSlot now).marketMode = .live := by
    rw [taken.eq]
    exact h.live
  refine ⟨fun worst => absurd worst (h₁.good.books.pnl i used).ne', fun _ => ?_⟩
  rw [← vault] at cap ⊢
  exact h₁.credit_safe rfl live used cap

/-- A new owner comes to the free slot `i`, and the other slots stay as they are. -/
structure LandsOn (s s' : RiskEngine) (user : Bytes32) (i : Nat) : Prop where
  inside : i < s.params.maxAccounts
  unused : s.isUsed i = false
  used : s'.isUsed i = true
  owner : (s'.accounts i).owner = user
  others : ∀ j, j ≠ i → s'.isUsed j = s.isUsed j ∧ (s'.accounts j).owner = (s.accounts j).owner

theorem processDeposit_lands {args : DepositArgs} (h : Tenancy s chain) (none : findOwner s user = none) :
    wp (processDeposit user args slot) (fun _ s' _ => user ≠ 0 ∧ Depositable s args.amount.toNat slot.toNat ∧
      LandsOn s s' user s.freeHead) (fun _ _ => True) s [] := by
  simp only [processDeposit, depositSlot, reject, wp_bind, wp_read, wp_failIf, wp_pure, wp_whenever, wp_emit, none,
    implies_true, true_and, forall_const, not_true_eq_false, false_imp_iff, and_true]
  intro _ _
  refine wp_callEngine fun _ s₁ l₁ paid => ?_
  refine wp_callEngine fun _ s₂ l₂ named => ?_
  obtain ⟨nonzero, s₃, l₃, took, same⟩ := h.taken paid named
  obtain ⟨taken, -⟩ := materializeAt_spec took
  obtain ⟨used, owners⟩ := SeatMove.taken_slots took same
  refine ⟨nonzero, deposit_checked paid, taken.room, taken.unused, ?_, ?_, ?_⟩
  · rw [used, if_pos rfl]
  · rw [owners, if_pos rfl]
  · intro j apart
    rw [used, owners, if_neg apart, if_neg apart]
    exact ⟨rfl, rfl⟩

theorem wp_callEngine_ok {α : Type} {op : Op α} {a : α} {Q : α → RiskEngine → List Transfer → Prop}
    {E : Failure → RiskEngine → Prop} (ok : op s = .ok a s' l) (post : Q a s' ts) : wp (callEngine op) Q E s ts := by
  have run : callEngine op s = .ok a s' [] := by
    unfold callEngine
    rw [ok]
  unfold wp Ends
  rw [run]
  rw [← List.append_nil ts] at post
  exact post

/-- A new owner's deposit that passes the checks goes through while the market has room. -/
theorem Sound.processDeposit_total (h : Sound s) (tenancy : Tenancy s chain) {args : DepositArgs}
    (none : findOwner s user = none) (room : s.usedSlots.card < s.params.maxAccounts)
    (large : s.params.minInitialDeposit ≤ args.amount.toNat) (nonzero : user ≠ 0)
    (checks : Depositable s args.amount.toNat slot.toNat) :
    wp (Program.processDeposit user args slot) (fun _ _ ts => ts = [.toVault args.amount.toNat]) (fun _ _ => False) s [] := by
  obtain ⟨inside, unused⟩ := tenancy.head room h.books.numUsed
  have amount : args.amount ≠ 0 := by
    intro zero
    have positive := h.timely.params.deposit_pos
    rw [zero] at large
    exact absurd (Nat.lt_of_lt_of_le positive large) (Nat.lt_irrefl 0)
  have free : s.freeHead ≠ NIL := by
    have := tenancy.within
    have := tenancy.slab
    omega
  obtain ⟨_, s₁, l₁, paid, -⟩ := wp_total (h.deposit_safe tenancy.toSlots checks inside unused large)
  have used : s₁.isUsed s.freeHead = true := h.deposit_used paid
  have unnamed : (s₁.accounts s.freeHead).owner = 0 := by
    rcases deposit_seating paid with ⟨before, -⟩ | ⟨-, -, s₂, l₂, took, same⟩
    · rw [unused] at before
      cases before
    · rw [owner_of_seating same, (materializeAt_spec took).1.toSameButSlots.accounts_eq, put_same]
      rfl
  obtain ⟨_, s₂, l₂, named, -⟩ : ∃ u s₂ l₂, setOwner s.freeHead user s₁ = .ok u s₂ l₂ ∧ True := by
    refine wp_total ?_
    simp only [setOwner, wp_bind, wp_read, wp_lift, wp_rejectIf, wp_writeAccount, used, nonzero, unnamed, not_true_eq_false,
      ne_eq, false_imp_iff, true_and, not_false_eq_true, forall_const, Bool.true_eq_false]
  simp only [Program.processDeposit, depositSlot, reject, wp_bind, wp_read, wp_failIf, wp_pure, wp_whenever, wp_emit, none,
    amount, free, false_imp_iff, true_and, not_false_eq_true, forall_const, not_true_eq_false, and_true]
  refine wp_callEngine_ok paid ?_
  exact wp_callEngine_ok named rfl

/-- What is left to refuse the first deposit of a user. -/
theorem Orderly.firstDeposit {m : Slab} (h : Orderly m) {args : DepositArgs} (none : findOwner m.engine user = none)
    (room : m.engine.usedSlots.card < m.engine.params.maxAccounts)
    (large : m.engine.params.minInitialDeposit ≤ args.amount.toNat) :
    ((∃ m', (Request.deposit user args).execute m slot = some m') ↔
        user ≠ 0 ∧ Depositable m.engine args.amount.toNat slot.toNat) ∧
      ∀ m', (Request.deposit user args).execute m slot = some m' → LandsOn m.engine m'.engine user m.engine.freeHead := by
  obtain ⟨chain, tenancy⟩ := h.tenancy
  have lands : ∀ m', (Request.deposit user args).execute m slot = some m' →
      user ≠ 0 ∧ Depositable m.engine args.amount.toNat slot.toNat ∧
        LandsOn m.engine m'.engine user m.engine.freeHead := by
    intro m' ok
    obtain ⟨ts, run⟩ := Request.executed ok
    exact wp_sound run (processDeposit_lands tenancy none)
  refine ⟨⟨?_, ?_⟩, fun m' ok => (lands m' ok).2.2⟩
  · rintro ⟨m', ok⟩
    obtain ⟨nonzero, checks, -⟩ := lands m' ok
    exact ⟨nonzero, checks⟩
  · rintro ⟨nonzero, checks⟩
    obtain ⟨_, s', ts, run, rfl⟩ := wp_total (h.sound.processDeposit_total tenancy none room large nonzero checks)
    have run : (Request.deposit user args).process slot m.engine = .ok () s' [.toVault args.amount.toNat] := run
    refine ⟨⟨s', m.vaultTokens + args.amount.toNat⟩, ?_⟩
    unfold Request.execute
    rw [run]
    rfl

/-- In every market that the instructions of the program reach a key other than the sentinel owns at most one
slot, used slots lie below `max_accounts`, so does the head of the free list while fewer are used, and
a bootstrap gives slot 0 to the sentinel for good. The first deposit of a user is not refused while there is
room, for its key, the clock and the size of the vault apart, and it takes a free slot. -/
theorem Reachable.seats {m : Slab} (h : Reachable m) (slab : m.engine.maxAccounts ≤ NIL) :
    (∀ i j, m.engine.isUsed i = true → m.engine.isUsed j = true →
      (m.engine.accounts i).owner = (m.engine.accounts j).owner →
      (m.engine.accounts i).owner ≠ PROTOCOL_LP_OWNER_SENTINEL → i = j) ∧
    (∀ i, m.engine.isUsed i = true → i < m.engine.params.maxAccounts) ∧
    (m.engine.usedSlots.card < m.engine.params.maxAccounts → m.engine.freeHead < m.engine.params.maxAccounts) ∧
    (∀ args slot m', (Request.bootstrapLp args).execute m slot = some m' → Bootstrapped m'.engine) ∧
    (Bootstrapped m.engine → ∀ l m', Run Transaction m l m' → Bootstrapped m'.engine) ∧
    ∀ user args slot, findOwner m.engine user = none → m.engine.usedSlots.card < m.engine.params.maxAccounts →
      m.engine.params.minInitialDeposit ≤ args.amount.toNat →
      ((∃ m', (Request.deposit user args).execute m slot = some m') ↔
          user ≠ 0 ∧ Depositable m.engine args.amount.toNat slot.toNat) ∧
        ∀ m', (Request.deposit user args).execute m slot = some m' →
          LandsOn m.engine m'.engine user m.engine.freeHead := by
  have orderly := h.orderly slab
  obtain ⟨chain, tenancy⟩ := orderly.tenancy
  refine ⟨tenancy.sole, tenancy.active, ?_, ?_, ?_, ?_⟩
  · intro room
    exact (tenancy.head room orderly.sound.books.numUsed).1
  · intro args slot m' ok
    obtain ⟨ts, run⟩ := Request.executed ok
    exact (wp_sound (Q := fun _ s' _ => Seated m.engine s' ∧ Bootstrapped s') run processBootstrapLp_seated).2
  · intro before l m' run
    exact (orderly.run run).2 before
  · intro user args slot none room large
    exact orderly.firstDeposit none room large

/-- A third user gets a slot of its own. -/
theorem drainedSlab_seats : ∃ m', (Request.deposit 3 ⟨1000⟩).execute drainedSlab 102 = some m' ∧
    LandsOn drainedSlab.engine m'.engine 3 3 ∧ Bootstrapped m'.engine := by
  obtain ⟨-, -, -, -, lp, first⟩ := Reachable.seats drainedSlab_reachable (by decide +kernel)
  obtain ⟨accepted, lands⟩ := first 3 ⟨1000⟩ 102 (by decide +kernel) (by decide +kernel) (by decide +kernel)
  obtain ⟨m', ok⟩ := accepted.mpr ⟨by decide, ⟨⟨by decide +kernel, by decide +kernel⟩, by decide +kernel⟩⟩
  have head : drainedSlab.engine.freeHead = 3 := by decide +kernel
  refine ⟨m', ok, head ▸ lands m' ok, ?_⟩
  exact lp ⟨by decide +kernel, by decide +kernel⟩ _ m' ((Run.refl drainedSlab).tail (.committed ok))

end Program

end Percolator
