import Percolator.Engine.Interface
import Percolator.Machine.Resolution

/-!
Histories as runs of the machine: the scope of every operation, the invariant of
every state that a market can reach, and that no check of a state ever fails.
-/

namespace Percolator

open Effect

variable {s s' : RiskEngine} {l : List Event} {ins : Instruction}

/-- The scope of an operation on account `idx` alone. -/
def Scope.single (idx : Nat) (charges instant slots : Prop) : Scope where
  reach i := i = idx
  charges i := i = idx ∧ charges
  liquidates := False
  instant := instant
  slots := slots
  resolves := False

/-- The scope of an operation on no account. -/
def Scope.none : Scope := ⟨fun _ => False, fun _ => False, False, False, False, False⟩

/-- What an operation may do. -/
def Instruction.scope : Instruction → Scope
  | .setOwner idx _ => .single idx False False False
  | .deposit idx _ _ => .single idx False False True
  | .withdraw idx _ _ _ _ hMin _ => .single idx True (hMin = 0) False
  | .settleAccount idx _ _ _ hMin _ => .single idx False (hMin = 0) False
  | .executeTrade a b _ _ _ _ _ hMin _ =>
      ⟨fun i => i = a ∨ i = b, fun i => i = a ∨ i = b, False, hMin = 0, False, False⟩
  | .liquidateAtOracle idx _ _ _ _ hMin _ => ⟨fun i => i = idx, fun _ => False, True, hMin = 0, False, False⟩
  | .keeperCrank _ _ candidates _ _ hMin _ =>
      ⟨fun i => ∃ p ∈ candidates, p.1 = i, fun _ => False, ∃ p ∈ candidates, p.2 ≠ Option.none,
        hMin = 0, False, False⟩
  | .convertReleasedPnl idx _ _ _ _ hMin _ => .single idx False (hMin = 0) False
  | .closeAccount idx _ _ _ hMin _ => .single idx True (hMin = 0) True
  | .resolveMarket _ _ _ _ _ => ⟨fun _ => False, fun _ => False, False, False, False, True⟩
  | .forceCloseResolved idx => .single idx True False True
  | .reconcileResolved idx => .single idx False False False
  | .closeResolvedTerminal idx => .single idx True False True
  | .reclaimEmptyAccount idx _ => .single idx True False True
  | .topUpInsuranceFund _ _ => .none
  | .chargeAccountFee idx _ _ => .single idx True False False
  | .settleFlatNegativePnl idx _ => .single idx False False False
  | .syncAccountFee idx _ _ => .single idx True False False
  | .depositFeeCredits idx _ _ => .single idx False False False
  | .accrueMarketTo _ _ _ => .none

theorem slot_le (t : UInt64) : t.toNat ≤ U64_MAX := Nat.le_of_lt_succ t.toNat_lt

theorem wp_discard {α : Type} {m : Op α} {P : RiskEngine → List Event → Prop}
    (h : wp m (fun _ s' l' => P s' l') Fault.Sound s l) :
    wp (discard m) (fun _ s' l' => P s' l') Fault.Sound s l := by
  simpa only [discard, wp_bind, wp_pure] using h

/-- Every operation on a good state runs to rest within its scope, and no check fails. -/
theorem Good.perform (h : Good ⟨s, .idle⟩) :
    wp ins.run (fun _ s' l' => Done ins.scope ⟨s, .idle⟩ l' s') Fault.Sound s [] := by
  cases ins with
  | setOwner idx owner => exact h.setOwner rfl
  | deposit idx amount now => exact h.deposit rfl trivial
  | withdraw idx amount price now rate hMin hMax => exact h.withdraw (slot_le now) rfl ⟨rfl, trivial⟩ id
  | settleAccount idx price now rate hMin hMax => exact h.settleAccount (slot_le now) rfl id
  | executeTrade a b price now sizeQ exec rate hMin hMax =>
      exact h.executeTrade (slot_le now) (.inl rfl) (.inr rfl) (.inl rfl) (.inr rfl) id
  | liquidateAtOracle idx now price policy rate hMin hMax =>
      exact wp_discard (h.liquidateAtOracle (slot_le now) rfl trivial id)
  | keeperCrank now price candidates budget rate hMin hMax =>
      exact wp_discard (h.keeperCrank (slot_le now) (fun p hp => ⟨p, hp, rfl⟩) (fun p hp hn => ⟨p, hp, hn⟩) id)
  | convertReleasedPnl idx x price now rate hMin hMax => exact h.convertReleasedPnl (slot_le now) rfl id
  | closeAccount idx now price rate hMin hMax =>
      exact wp_discard (h.closeAccount (slot_le now) rfl ⟨rfl, trivial⟩ trivial id)
  | resolveMarket mode resolved live now rate => exact h.resolveMarket (slot_le now) trivial
  | forceCloseResolved idx => exact wp_discard (h.forceCloseResolved rfl ⟨rfl, trivial⟩ trivial)
  | reconcileResolved idx => exact h.reconcileResolved rfl
  | closeResolvedTerminal idx => exact wp_discard (h.closeResolvedTerminal rfl ⟨rfl, trivial⟩ trivial)
  | reclaimEmptyAccount idx now => exact h.reclaimEmptyAccount rfl ⟨rfl, trivial⟩ trivial
  | topUpInsuranceFund amount now => exact wp_discard h.topUpInsuranceFund
  | chargeAccountFee idx fee now => exact h.chargeAccountFee rfl ⟨rfl, trivial⟩
  | settleFlatNegativePnl idx now => exact h.settleFlatNegativePnl rfl
  | syncAccountFee idx now rate => exact h.syncAccountFee rfl ⟨rfl, trivial⟩
  | depositFeeCredits idx amount now => exact h.depositFeeCredits rfl
  | accrueMarketTo now price rate => exact h.accrueMarket (slot_le now)

/-- A committed operation is a run of steps within its scope, to rest. -/
theorem Good.committed (h : Good ⟨s, .idle⟩) (ok : ins.run s = .ok () s' l) :
    Done ins.scope ⟨s, .idle⟩ l s' :=
  wp_sound ok (wp_mono h.perform (fun _ _ _ hd => hd) fun _ _ _ => trivial)

/-- An operation that faults does not fail a check of its state. -/
theorem Good.faulted {f : Fault} (h : Good ⟨s, .idle⟩) (fault : ins.run s = .fault f s') :
    f.Sound s' := wp_sound_fault fault h.perform

/-! ### Reachable states -/

section Fresh

variable {p : RiskParams} {slab slot price : Nat}

theorem freshEngine_usedSlots : (freshEngine slab p slot price).usedSlots = ∅ := by
  simp [freshEngine, RiskEngine.usedSlots]

theorem freshEngine_isUsed (i : Nat) : (freshEngine slab p slot price).isUsed i = false := by
  simp [freshEngine, RiskEngine.isUsed]

theorem freshEngine_books : Books (freshEngine slab p slot price) := by
  have htally : ∀ {f : Account → Nat}, tally (freshEngine slab p slot price).usedSlots
      (freshEngine slab p slot price).accounts f = 0 := fun {f} => by
    rw [freshEngine_usedSlots]; rfl
  refine ⟨htally.symm, htally.symm, htally.symm, fun d => htally.symm, ?_, ?_, fun i hi => ?_, fun i hi => ?_,
    Nat.zero_le _, fun _ => rfl, le_rfl, Nat.zero_le _⟩
  · rw [freshEngine_usedSlots]; rfl
  · rw [freshEngine_usedSlots]; rfl
  · rw [freshEngine_isUsed] at hi; cases hi
  · rw [freshEngine_isUsed] at hi; cases hi

theorem freshSide_ok : SideOk freshSide := by
  have hz : InI128 0 := ⟨by decide, by decide⟩
  exact ⟨by decide, le_rfl, hz, hz, hz, hz, Nat.zero_le _, Nat.zero_le _, (by rintro ⟨⟩), (by rintro ⟨⟩), rfl⟩

/-- A market begins in a good state. -/
theorem freshEngine_good (valid : p.Valid slab) (hslot : slot ≤ U64_MAX) (hprice : 0 < price)
    (hmax : price ≤ MAX_ORACLE_PRICE) : Good ⟨freshEngine slab p slot price, .idle⟩ := by
  have hnone : ∀ {P : Prop} i, (freshEngine slab p slot price).isUsed i = true → P := fun i hi => by
    rw [freshEngine_isUsed] at hi; cases hi
  refine ⟨freshEngine_books, ?_, rfl, fun _ => ⟨fun i hi => hnone i hi, ?_⟩, fun _ => ?_, (by rintro ⟨⟩)⟩
  · refine ⟨fun _ => le_rfl, fun _ => ?_, (by rintro ⟨⟩), fun i hi => hnone i hi, fun _ i hi => hnone i hi, hprice, hmax, rfl, valid⟩
    show slot ≤ saturatingAddU64 slot p.maxAccrualDtSlots
    unfold saturatingAddU64
    omega
  · show (freshEngine slab p slot price).pnlMaturedPosTot = tally (freshEngine slab p slot price).usedSlots _ _
    rw [freshEngine_usedSlots]; rfl
  · refine ⟨fun _ => freshSide_ok, fun i _ hi => hnone i hi, fun d _ => ?_, (by rintro _ ⟨⟩), fun _ d => ⟨(by rintro ⟨⟩), (by rintro ⟨⟩), ?_⟩⟩
    · have hs : (freshEngine slab p slot price).shares d = 0 := by
        unfold RiskEngine.shares
        rw [freshEngine_usedSlots]; rfl
      have hcl : Phase.idle.closedOn d = 0 := rfl
      refine ⟨?_, ?_⟩
      · show (freshEngine slab p slot price).shares d + Phase.idle.closedOn d ≤ ((0 : Nat) : ℚ)
        rw [hs, hcl]; simp
      · show ((0 : Nat) : ℚ) ≤ (freshEngine slab p slot price).shares d + Phase.idle.closedOn d + ((0 : Nat) : ℚ)
        rw [hs, hcl]; simp
    · exact fun _ => ⟨rfl, rfl⟩

end Fresh

theorem Initial.good (h : Initial s) : Good ⟨s, .idle⟩ := by
  obtain ⟨s₀, p, slot, price, l, hok⟩ := h
  obtain ⟨valid, pos, le, rfl⟩ := initInPlace_spec hok
  exact freshEngine_good valid (slot_le slot) pos le

theorem Good.performed {ls : List (Instruction × List Event)} (h : Good ⟨s, .idle⟩)
    (hp : Performed s ls s') : Good ⟨s', .idle⟩ := by
  cases hp with
  | committed ok => exact (h.committed ok).good
  | rolledBack fault => exact h

theorem Good.history {ls : List (Instruction × List Event)} (h : Good ⟨s, .idle⟩)
    (hist : History s ls s') : Good ⟨s', .idle⟩ :=
  hist.invariant (I := fun s => Good ⟨s, .idle⟩) (fun _ _ _ hg hp => hg.performed hp) h

/-- Every reachable state is good. -/
theorem Reachable.good (h : Reachable s) : Good ⟨s, .idle⟩ := by
  obtain ⟨s₀, l, hinit, hist⟩ := h
  exact hinit.good.history hist

end Percolator
