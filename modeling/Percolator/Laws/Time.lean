import Percolator.Machine.Runs

/-!
Time: a market never leaves its accrual envelope, and no check of a clock, of a
warmup start or of a fee checkpoint ever fails on it.
-/

namespace Percolator

open Effect

variable {s s' : RiskEngine} {i : Nat} {p : Plain}

/-- The reasons for which an accrual may be refused that are not about time: the price,
the funding rate, and an index that would leave `i128`. -/
def AccrualRefused (s : RiskEngine) (now price : Nat) (rate : Int) : Prop :=
  price = 0 ∨ MAX_ORACLE_PRICE < price ∨ s.params.maxAbsFundingE9PerSlot < rate.natAbs ∨
    markIndices s (decide ((s.sides .long).oiEffQ ≠ 0)) (decide ((s.sides .short).oiEffQ ≠ 0))
      (price - s.lastOraclePrice) = none ∨
    fundIndices s (decide ((s.sides .long).oiEffQ ≠ 0)) (decide ((s.sides .short).oiEffQ ≠ 0)) rate
      (now - s.lastMarketSlot) = none

/-- The time that has not been accrued is within the envelope. -/
theorem Timely.unaccrued_le (h : Timely s) (live : s.marketMode = .live) :
    s.currentSlot - s.lastMarketSlot ≤ s.params.maxAccrualDtSlots := by
  have := h.within live
  unfold saturatingAddU64 at this
  omega

/-- At the current slot no check of a time or of a span refuses an accrual. -/
theorem Timely.accrual_refused {price : Nat} {rate : Int} (h : Timely s) (live : s.marketMode = .live)
    (fault : accrueMarketTo s.currentSlot price rate s = .fault p s') :
    AccrualRefused s s.currentSlot price rate := by
  have hle := h.market_le live
  have hdt := h.unaccrued_le live
  refine wp_sound_fault (Q := fun _ _ _ => True) (E := fun _ _ => AccrualRefused s s.currentSlot price rate)
    (l := []) fault ?_
  simp only [accrueMarketTo, wp_bind, wp_read, wp_rejectIf, wp_ite, wp_update, wp_orErr, wp_writeSide, wp_emit,
    implies_true, and_true, true_and]
  refine ⟨fun hn => absurd live hn, fun _ => ⟨fun hp => hp.elim .inl (.inr ∘ .inl), fun _ =>
    ⟨fun hr => .inr (.inr (.inl hr)), fun _ => ⟨fun hn => by omega, fun _ => ⟨fun hn => by omega,
      fun _ _ => ⟨fun hn => by omega, fun _ => ⟨fun hm => ?_, fun k _ hf => ?_⟩⟩⟩⟩⟩⟩⟩
  · exact .inr (.inr (.inr (.inl hm)))
  · exact .inr (.inr (.inr (.inr hf)))

section Warmup

variable {a : Account} {now n : Nat}

theorem Account.StartedBy.rolledOver (h : a.StartedBy now) : (a.rolledOver now).StartedBy now := by
  unfold Account.rolledOver
  split_ifs
  · exact ⟨fun _ => le_rfl, (by rintro ⟨⟩)⟩
  · exact ⟨(by rintro ⟨⟩), h.pending⟩
  · exact h

theorem Account.StartedBy.withSchedRemainingQ (h : a.StartedBy now) :
    (a.withSchedRemainingQ n).StartedBy now := ⟨h.sched, h.pending⟩

theorem Account.StartedBy.withReservedPnl (h : a.StartedBy now) : (a.withReservedPnl n).StartedBy now :=
  ⟨h.sched, h.pending⟩

theorem Account.StartedBy.withSchedReleaseQ (h : a.StartedBy now) :
    (a.withSchedReleaseQ n).StartedBy now := ⟨h.sched, h.pending⟩

end Warmup

/-- An account whose buckets have started still has such buckets where its warmup faults,
so that no start slot in the future was seen. -/
theorem advanceProfitWarmup_started (h : (s.accounts i).StartedBy s.currentSlot)
    (fault : advanceProfitWarmup i s = .fault p s') : (s'.accounts i).StartedBy s'.currentSlot := by
  refine wp_sound_fault (Q := fun _ _ _ => True)
    (E := fun _ s' => (s'.accounts i).StartedBy s'.currentSlot) (l := []) fault ?_
  simp only [advanceProfitWarmup, validateReserveShape, releaseSched, wp_bind, wp_read, wp_rejectIf, wp_ite,
    wp_whenever, wp_writeAccount, wp_expect, wp_orErr, wp_update, wp_emit, wp_pure, implies_true, true_and,
    RiskEngine.setAccount_accounts, put_same, RiskEngine.setAccount_currentSlot,
    RiskEngine.withPnlMaturedPosTot_accounts, RiskEngine.withPnlMaturedPosTot_currentSlot]
  -- every write on the way keeps the buckets started
  simp only [h, h.promoted, h.promoted.withSchedReleaseQ.rolledOver, Account.StartedBy.withSchedRemainingQ,
    Account.StartedBy.withReservedPnl, Account.StartedBy.withSchedReleaseQ, Account.StartedBy.rolledOver,
    implies_true, and_true]

/-! ### The fee sync -/

/-- A fee sync that faults leaves the checkpoint where it was. -/
theorem syncAccountFeeToSlot_checkpoint {anchor rate : Nat}
    (fault : syncAccountFeeToSlot i anchor rate s = .fault p s') :
    (s'.accounts i).lastFeeSlot = (s.accounts i).lastFeeSlot := by
  refine wp_sound_fault (Q := fun _ _ _ => True)
    (E := fun _ s' => (s'.accounts i).lastFeeSlot = (s.accounts i).lastFeeSlot) (l := []) fault ?_
  simp only [syncAccountFeeToSlot, chargeFeeToInsurance, setCapital, wp_bind, wp_read, wp_rejectIf, wp_ite,
    wp_whenever, wp_writeAccount, wp_orErr, wp_update, wp_pure, implies_true, and_true, RiskEngine.setAccount_accounts,
    put_same, RiskEngine.withCTot_accounts, Account.withCapital_lastFeeSlot]

/-! ### Reachable states -/

/-- No check of a time can fail: an accrual at the current slot is refused for other
reasons only, a warmup that faults has seen no start in the future, and a fee sync that
faults has seen no checkpoint in the future. -/
structure TimeFaultFree (s : RiskEngine) : Prop where
  accrual : s.marketMode = .live → ∀ price rate p s',
    accrueMarketTo s.currentSlot price rate s = .fault p s' → AccrualRefused s s.currentSlot price rate
  warmup : s.marketMode = .live → ∀ i, s.isUsed i = true → ∀ p s',
    advanceProfitWarmup i s = .fault p s' →
      (s'.accounts i).schedPresent = true → (s'.accounts i).schedStartSlot ≤ s'.currentSlot
  feeSync : ∀ i, s.isUsed i = true → ∀ anchor,
    (match s.marketMode with | .live => s.currentSlot ≤ anchor | .resolved => anchor = s.resolvedSlot) →
    ∀ rate p s', syncAccountFeeToSlot i anchor rate s = .fault p s' → (s'.accounts i).lastFeeSlot ≤ anchor

theorem Timely.timeFaultFree (h : Timely s) : TimeFaultFree s where
  accrual := fun live _ _ _ _ fault => h.accrual_refused live fault
  warmup := fun live i used _ _ fault => (advanceProfitWarmup_started (h.started live i used) fault).sched
  feeSync := fun i used anchor hanchor rate p s' fault => by
    rw [syncAccountFeeToSlot_checkpoint fault]
    refine (h.fee i used).trans ?_
    cases hm : s.marketMode with
    | live => rw [hm] at hanchor; exact hanchor
    | resolved => rw [hm] at hanchor; rw [hanchor, h.resolved hm]

/-- The clocks of every reachable state are in order, and none of their checks fails in it
or in a state that an operation on it passes through. -/
theorem Reachable.clocks_in_order (h : Reachable s) :
    (s.marketMode = .live →
      s.lastMarketSlot ≤ s.currentSlot ∧
      s.currentSlot ≤ saturatingAddU64 s.lastMarketSlot s.params.maxAccrualDtSlots ∧
      ∀ i, s.isUsed i = true →
        (s.accounts i).lastFeeSlot ≤ s.currentSlot ∧
        ((s.accounts i).schedPresent = true → (s.accounts i).schedStartSlot ≤ s.currentSlot) ∧
        ((s.accounts i).pendingPresent = true → (s.accounts i).pendingCreatedSlot ≤ s.currentSlot)) ∧
    (s.marketMode = .resolved →
      s.currentSlot = s.resolvedSlot ∧
      ∀ i, s.isUsed i = true → (s.accounts i).lastFeeSlot ≤ s.resolvedSlot) ∧
    ∀ sc l s₁ ph, Run (Step sc) ⟨s, .idle⟩ l ⟨s₁, ph⟩ → TimeFaultFree s₁ := by
  have ht := h.good.timely
  refine ⟨fun live => ⟨ht.market_le live, ht.within live, fun i used => ?_⟩, fun resolved => ?_,
    fun sc l s₁ ph run => ?_⟩
  · have hs := ht.started live i used
    exact ⟨ht.fee i used, hs.sched, hs.pending⟩
  · have heq := ht.resolved resolved
    exact ⟨heq, fun i used => (ht.fee i used).trans_eq heq⟩
  · have hg := run.invariant (I := Good) (fun _ _ _ hg st => hg.step st) h.good
    exact hg.timely.timeFaultFree

theorem tradedMarket_clocks_in_order :
    tradedMarket.lastMarketSlot ≤ tradedMarket.currentSlot ∧
      (tradedMarket.accounts 1).lastFeeSlot ≤ tradedMarket.currentSlot := by
  have h := tradedMarket_reachable.clocks_in_order.1 (by decide +kernel)
  exact ⟨h.1, (h.2.2 1 (by decide +kernel)).1⟩

end Percolator
