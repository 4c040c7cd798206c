import Percolator.Invariant.Books

/-!
Every step keeps the clocks.
-/

namespace Percolator

variable {s s' : RiskEngine} {i : Nat} {a' : Account} {t' : Totals} {l : List Event}
  {sc : Scope} {c c' : Conf}

/-- A step that leaves the clocks alone. -/
theorem Timely.congr (h : Timely s) (mode : s'.marketMode = s.marketMode)
    (slot : s'.currentSlot = s.currentSlot) (market : s'.lastMarketSlot = s.lastMarketSlot)
    (resolved : s'.resolvedSlot = s.resolvedSlot) (price : s'.lastOraclePrice = s.lastOraclePrice)
    (fund : s'.fundPxLast = s.fundPxLast) (params : s'.params = s.params) (slab : s'.maxAccounts = s.maxAccounts)
    (fee : ∀ j, s'.isUsed j = true → (s'.accounts j).lastFeeSlot ≤ s.currentSlot)
    (started : s.marketMode = .live → ∀ j, s'.isUsed j = true → (s'.accounts j).StartedBy s.currentSlot) :
    Timely s' where
  market_le := by rw [mode, market, slot]; exact h.market_le
  within := by rw [mode, market, slot, params]; exact h.within
  resolved := by rw [mode, slot, resolved]; exact h.resolved
  fee := by rw [slot]; exact fee
  started := by rw [mode, slot]; exact started
  price_pos := price ▸ h.price_pos
  price_le := price ▸ h.price_le
  sampled := by rw [fund, price]; exact h.sampled
  params := by rw [params, slab]; exact h.params

/-- A step that leaves the clocks and the accounts alone. -/
theorem Timely.same (h : Timely s) (mode : s'.marketMode = s.marketMode)
    (slot : s'.currentSlot = s.currentSlot) (market : s'.lastMarketSlot = s.lastMarketSlot)
    (resolved : s'.resolvedSlot = s.resolvedSlot) (price : s'.lastOraclePrice = s.lastOraclePrice)
    (fund : s'.fundPxLast = s.fundPxLast) (params : s'.params = s.params) (slab : s'.maxAccounts = s.maxAccounts)
    (used : s'.isUsed = s.isUsed) (accounts : s'.accounts = s.accounts) : Timely s' :=
  h.congr mode slot market resolved price fund params slab (by rw [used, accounts]; exact h.fee)
    (by rw [used, accounts]; exact h.started)

/-- What the clocks see of an account that is replaced. -/
structure Aged (s : RiskEngine) (a a' : Account) : Prop where
  fee : a.lastFeeSlot ≤ s.currentSlot → a'.lastFeeSlot ≤ s.currentSlot
  started : s.marketMode = .live → a.StartedBy s.currentSlot → a'.StartedBy s.currentSlot

theorem Timely.put (h : Timely s) (aged : Aged s (s.accounts i) a')
    (mode : s'.marketMode = s.marketMode) (slot : s'.currentSlot = s.currentSlot)
    (market : s'.lastMarketSlot = s.lastMarketSlot) (resolved : s'.resolvedSlot = s.resolvedSlot)
    (price : s'.lastOraclePrice = s.lastOraclePrice) (fund : s'.fundPxLast = s.fundPxLast) (params : s'.params = s.params)
    (slab : s'.maxAccounts = s.maxAccounts) (used : s'.isUsed = s.isUsed)
    (accounts : s'.accounts = Percolator.put s.accounts i a') : Timely s' := by
  refine h.congr mode slot market resolved price fund params slab (fun j hj => ?_) fun live j hj => ?_
  · rw [used] at hj
    rw [accounts]
    by_cases hji : j = i
    · subst hji; rw [put_same]; exact aged.fee (h.fee j hj)
    · rw [put_other _ _ hji]; exact h.fee j hj
  · rw [used] at hj
    rw [accounts]
    by_cases hji : j = i
    · subst hji; rw [put_same]; exact aged.started live (h.started live j hj)
    · rw [put_other _ _ hji]; exact h.started live j hj

theorem Timely.rebook (h : Timely s) (aged : Aged s (s.accounts i) a') : Timely (s.rebook i a' t') :=
  h.put aged rfl rfl rfl rfl rfl rfl rfl rfl rfl rfl

theorem Timely.reseat {f : Side → Seats} (h : Timely s) (aged : Aged s (s.accounts i) a') :
    Timely (s.reseat i a' f) :=
  h.put aged rfl rfl rfl rfl rfl rfl rfl rfl rfl rfl

section Aged

variable {a : Account}

/-- A change that the clocks do not see. -/
theorem Aged.of_eq (hfee : a'.lastFeeSlot = a.lastFeeSlot) (hsched : a'.schedPresent = a.schedPresent)
    (hstart : a'.schedStartSlot = a.schedStartSlot) (hpend : a'.pendingPresent = a.pendingPresent)
    (hcreated : a'.pendingCreatedSlot = a.pendingCreatedSlot) : Aged s a a' :=
  ⟨fun h => hfee ▸ h, fun _ h => ⟨by rw [hsched, hstart]; exact h.sched,
    by rw [hpend, hcreated]; exact h.pending⟩⟩

theorem Account.SameButPnl.lastFeeSlot (h : a.SameButPnl a') : a'.lastFeeSlot = a.lastFeeSlot := by
  rw [h]

theorem Aged.cleared : Aged s a a.clearReserve := ⟨id, fun _ _ => ⟨(by rintro ⟨⟩), (by rintro ⟨⟩)⟩⟩

theorem Entry.aged (h : Entry s i a' t' l) : Aged s (s.accounts i) a' := by
  cases h with
  | warmed r a' l live events warm =>
      exact ⟨fun h => warm.same.lastFeeSlot ▸ h, fun _ h => warm.started h⟩
  | accelerated live fits => exact .cleared
  | _ => exact .of_eq rfl rfl rfl rfl rfl

theorem Charge.aged (h : Charge s i a' t') : Aged s (s.accounts i) a' := by
  cases h <;> exact .of_eq rfl rfl rfl rfl rfl

theorem Forgiven.aged (h : Forgiven s i a' t' l) : Aged s (s.accounts i) a' := by
  cases h
  exact .of_eq rfl rfl rfl rfl rfl

theorem LivePnlSet.aged {v : Int} {instant : Prop} (h : LivePnlSet s i v instant a' t') :
    Aged s (s.accounts i) a' :=
  ⟨fun hf => h.same.lastFeeSlot ▸ hf, fun _ hs => h.started hs⟩

theorem Account.attachedTo_aged {sides : Side → SideState} {q : Int} : Aged s a (a.attachedTo sides q) := by
  unfold Account.attachedTo
  cases sideOfI128 q <;> exact .of_eq rfl rfl rfl rfl rfl

theorem Resettled.aged {d : Side} {f : Side → Seats} (h : Resettled s' d a a' f) : Aged s a a' := by
  cases h <;> exact .of_eq rfl rfl rfl rfl rfl

end Aged

/-- Every step keeps the clocks. -/
theorem Good.timely_step (h : Good c) (step : Step sc c l c') : Timely c'.engine := by
  have ht := h.timely
  cases step with
  | noted i => exact ht
  | booked used reach entry => exact ht.rebook entry.aged
  | charged used reach allowed charge => exact ht.rebook charge.aged
  | forgave used reach calm forgiven => exact ht.rebook forgiven.aged
  | @relabeled s ph i a used reach same slot =>
      have haged : Aged s (s.accounts i) a :=
        ⟨fun _ => slot, fun _ hs => by rw [same]; exact ⟨hs.sched, hs.pending⟩⟩
      exact ht.put haged rfl rfl rfl rfl rfl rfl rfl rfl rfl rfl
  | funded amount cap => exact ht.same rfl rfl rfl rfl rfl rfl rfl rfl rfl rfl
  | @clocked s ph slot crank market clock =>
      have hle : s.currentSlot ≤ slot := by
        cases clock with
        | live mode le market_le within => exact le
        | resolved mode eq => exact ((ht.resolved mode).trans eq.symm).le
      refine ⟨fun hm => ?_, fun hm => ?_, fun hm => ?_, fun j hj => (ht.fee j hj).trans hle,
        fun hm j hj => ?_, ht.price_pos, ht.price_le, ht.sampled, ht.params⟩
      · cases clock with
        | live mode le market_le within => exact market_le
        | resolved mode eq => exact absurd (hm.symm.trans mode) (by rintro ⟨⟩)
      · cases clock with
        | live mode le market_le within => exact within
        | resolved mode eq => exact absurd (hm.symm.trans mode) (by rintro ⟨⟩)
      · cases clock with
        | live mode le market_le within => exact absurd (hm.symm.trans mode) (by rintro ⟨⟩)
        | resolved mode eq => exact eq
      · have hs := ht.started hm j hj
        exact ⟨fun hp => (hs.sched hp).trans hle, fun hp => (hs.pending hp).trans hle⟩
  | @accrued s s' ph now price rate rest fresh live fits accrued =>
      have hle := accrued.slot_le
      have heq := accrued.eq
      rw [heq]
      refine ⟨fun _ => le_rfl, fun _ => ?_, fun hm => absurd (live.symm.trans hm) (by rintro ⟨⟩),
        fun j hj => (ht.fee j hj).trans hle, fun hm j hj => ?_, accrued.price_pos, accrued.price_le,
        rfl, ht.params⟩
      · show now ≤ min (now + _) U64_MAX
        omega
      · have hs := ht.started live j hj
        exact ⟨fun hp => (hs.sched hp).trans hle, fun hp => (hs.pending hp).trans hle⟩
  | @settled s s' ph i instant d δ a' t' a'' f used reach touched live closing calm scope settled =>
      rw [settled.eq]
      have hr : Timely (s.rebook i a' t') := ht.rebook settled.pnl.aged
      refine hr.reseat ?_
      rw [RiskEngine.rebook_accounts, put_same]
      exact settled.position.aged
  | slipped legs used reach allowed live leg same scope range pnl => exact ht.rebook pnl.aged
  | traded usedA usedB reachA reachB allowedA allowedB touchedA touchedB live pending closing trading
      syncedA syncedB traded =>
      obtain ⟨s₁, s₂, f, g, hA, hB, rfl⟩ := traded.legs
      have h₁ : Timely s₁ := by rw [hA.eq]; exact ht.reseat Account.attachedTo_aged
      have h₂ : Timely s₂ := by rw [hB.eq]; exact h₁.reseat Account.attachedTo_aged
      exact h₂.same rfl rfl rfl rfl rfl rfl rfl rfl rfl rfl
  | checked owed sound => exact ht
  | closed allowed used reach touched live pending closing calm closed =>
      obtain ⟨f, hf⟩ := closed.attached
      rw [hf.eq]
      exact ht.reseat Account.attachedTo_aged
  | deleveraged | reset | reopened | captured => exact ht.same rfl rfl rfl rfl rfl rfl rfl rfl rfl rfl
  | @materialized s s' ph i slot allowed reach live le materialized =>
      have heq := materialized.eq
      have hused := materialized.toSameButSlots.isUsed materialized.lt
      have haccounts := materialized.toSameButSlots.accounts_eq
      refine ht.congr ?_ ?_ ?_ ?_ ?_ ?_ ?_ ?_ (fun j hj => ?_) fun hm j hj => ?_
      · rw [heq]
      · rw [heq]
      · rw [heq]
      · rw [heq]
      · rw [heq]
      · rw [heq]
      · rw [heq]
      · rw [heq]
      · rw [haccounts]
        by_cases hji : j = i
        · subst hji; rw [put_same]; exact le
        · rw [hused, if_neg hji] at hj
          rw [put_other _ _ hji]; exact ht.fee j hj
      · rw [haccounts]
        by_cases hji : j = i
        · subst hji; rw [put_same]; exact ⟨(by rintro ⟨⟩), (by rintro ⟨⟩)⟩
        · rw [hused, if_neg hji] at hj
          rw [put_other _ _ hji]; exact ht.started hm j hj
  | @freed s s' ph i allowed reach charges clean freed =>
      have heq := freed.eq
      have hused := freed.toSameButSlots.isUsed (isUsed_lt freed.used)
      have haccounts := freed.toSameButSlots.accounts_eq
      dsimp only
      rw [RiskEngine.swept_eq]
      refine Timely.same (s := s') ?_ rfl rfl rfl rfl rfl rfl rfl rfl rfl rfl
      refine ht.congr ?_ ?_ ?_ ?_ ?_ ?_ ?_ ?_ (fun j hj => ?_) fun hm j hj => ?_
      · rw [heq]
      · rw [heq]
      · rw [heq]
      · rw [heq]
      · rw [heq]
      · rw [heq]
      · rw [heq]
      · rw [heq]
      · rw [hused] at hj
        split_ifs at hj with hji
        rw [haccounts, put_other _ _ hji]; exact ht.fee j hj
      · rw [hused] at hj
        split_ifs at hj with hji
        rw [haccounts, put_other _ _ hji]; exact ht.started hm j hj
  | resolved price live now kDelta allowed rest mode le drained =>
      exact ⟨(by rintro ⟨⟩), (by rintro ⟨⟩), fun _ => rfl, fun j hj => (ht.fee j hj).trans le, (by rintro ⟨⟩), ht.price_pos,
        ht.price_le, ht.sampled, ht.params⟩
  | @wiped s ph i used reach mode => exact ht.put (i := i) .cleared rfl rfl rfl rfl rfl rfl rfl rfl rfl rfl
  | @reconciled s s' ph i d v t' n m used reach mode reconciled =>
      rw [reconciled.eq]
      have hr : Timely (s.rebook i ((s.accounts i).withPnl v) t') :=
        ht.rebook (.of_eq rfl rfl rfl rfl rfl)
      refine hr.reseat ?_
      rw [RiskEngine.rebook_accounts, put_same]
      exact .of_eq rfl rfl rfl rfl rfl
  | paid used reach allowed mode paid =>
      rw [paid.eq]
      exact ht.rebook (.of_eq rfl rfl rfl rfl rfl)

end Percolator
