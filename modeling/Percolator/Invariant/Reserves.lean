import Percolator.Invariant.Books

/-!
Every step keeps the sides balanced, the reserves of a Live market exact, and the
payouts of a resolved one covered.
-/

namespace Percolator

variable {s s' : RiskEngine} {i : Nat} {a a' : Account} {t' : Totals} {l : List Event}
  {sc : Scope} {c c' : Conf}

/-! ### Balance -/

theorem SideState.reopened_oi (v : SideState) : v.reopened.oiEffQ = v.oiEffQ := by
  unfold reopened
  split_ifs <;> rfl

theorem SideState.finalized_oi (v : SideState) (pending : Bool) :
    (v.finalized pending).oiEffQ = v.oiEffQ := by
  unfold finalized
  rw [reopened_oi]
  split_ifs <;> rfl

/-- A position is long by what it is not short. -/
theorem oiComponent_sub (pos : Int) : (oiComponent .long pos : Int) - oiComponent .short pos = pos := by
  simp only [oiComponent]; omega

theorem Traded.balanced {j : Nat} {q oldA oldB : Int} {after : Side → Nat}
    (h : Traded s s' i j q oldA oldB after)
    (hb : (s.sides .long).oiEffQ = (s.sides .short).oiEffQ) : after .long = after .short := by
  have h₁ := h.after_eq .long
  have h₂ := h.after_eq .short
  have := oiComponent_sub oldA
  have := oiComponent_sub oldB
  have := oiComponent_sub (oldA + q)
  have := oiComponent_sub (oldB - q)
  omega

/-- Every step keeps the two sides balanced. -/
theorem Good.balanced_step (h : Good c) (step : Step sc c l c') :
    (c'.engine.sides .long).oiEffQ = (c'.engine.sides .short).oiEffQ := by
  have hb := h.balanced
  cases step with
  | accrued rest fresh live fits accrued =>
      show (RiskEngine.sides _ .long).oiEffQ = (RiskEngine.sides _ .short).oiEffQ
      rw [accrued.side .long, accrued.side .short]
      exact hb
  | settled used reach touched live closing calm scope settled => rw [settled.eq]; exact hb
  | traded usedA usedB reachA reachB allowedA allowedB touchedA touchedB live pending closing trading
      syncedA syncedB traded =>
      obtain ⟨s₁, s₂, f, g, hA, hB, rfl⟩ := traded.legs
      exact traded.balanced hb
  | closed allowed used reach touched live pending closing calm closed =>
      obtain ⟨f, hf⟩ := closed.attached
      rw [hf.eq]
      exact hb
  | @deleveraged s ph i d q v l f marks live pending closing pos fund absorbed marked =>
      cases d <;> rfl
  | reset live closing scheduled drained =>
      simp only [RiskEngine.withSides_sides, SideState.finalized_oi, SideState.withOi_oiEffQ]
      rcases scheduled.kept_or_cleared with hk | hc
      · rw [hk .long, hk .short]; exact hb
      · rw [(hc .long).1, (hc .short).1]
  | reopened =>
      simp only [RiskEngine.withSides_sides, SideState.reopened_oi]
      exact hb
  | materialized allowed reach live le materialized => rw [materialized.eq]; exact hb
  | freed allowed reach charges clean freed =>
      dsimp only
      rw [RiskEngine.swept_eq, freed.eq]
      exact hb
  | resolved price live now kDelta allowed rest mode le drained =>
      simp only [RiskEngine.withSides_sides, SideState.finalized_oi]
      rfl
  | reconciled used reach mode reconciled => rw [reconciled.eq]; exact hb
  | paid used reach allowed mode paid => rw [paid.eq]; exact hb
  | _ => exact hb

/-! ### Reserves -/

theorem Reserves.rebook (h : Reserves s) (used : s.isUsed i = true) (shape : ReserveShape s.params a')
    (matured : t'.pnlMaturedPosTot + (s.accounts i).releasedPos = s.pnlMaturedPosTot + a'.releasedPos) :
    Reserves (s.rebook i a' t') where
  shape := fun j hj => put_forall (P := fun j (b : Account) => s.isUsed j = true → ReserveShape s.params b)
    (fun _ => shape) (fun j _ => h.shape j) j hj
  matured := by
    have := tally_put (f := Account.releasedPos) (t := s.accounts) (a := a')
      (RiskEngine.mem_usedSlots.mpr used)
    have := h.matured
    show t'.pnlMaturedPosTot = tally s.usedSlots (put s.accounts i a') Account.releasedPos
    omega

/-- A change outside PnL and reserve. -/
theorem Reserves.reseat {f : Side → Seats} (h : Reserves s) (shape : ReserveShape s.params a')
    (rel : a'.releasedPos = (s.accounts i).releasedPos) : Reserves (s.reseat i a' f) where
  shape := fun j hj => put_forall (P := fun j (b : Account) => s.isUsed j = true → ReserveShape s.params b)
    (fun _ => shape) (fun j _ => h.shape j) j hj
  matured := h.matured.trans (tally_put_same rel).symm

theorem ReserveShape.withPnl {p : RiskParams} {v : Int} (h : ReserveShape p a)
    (hle : a.reservedPnl ≤ i128ClampPos v) : ReserveShape p (a.withPnl v) :=
  reserveShape_iff.mpr ⟨(reserveShape_iff.mp h).1.withPnl, hle⟩

theorem Entry.reserve (h : Entry s i a' t' l) (hs : ReserveShape s.params (s.accounts i)) :
    ReserveShape s.params a' ∧
      t'.pnlMaturedPosTot + (s.accounts i).releasedPos = s.pnlMaturedPosTot + a'.releasedPos := by
  have hres := hs.reserved_le
  cases h with
  | deposited amount cap =>
      exact ⟨⟨hs.1, hs.2, hs.3, hs.4, hs.5, hs.6⟩, rfl⟩
  | debtPaid amount cap le_debt => exact ⟨⟨hs.1, hs.2, hs.3, hs.4, hs.5, hs.6⟩, rfl⟩
  | lossPaid pay n le_capital le_tot le_loss full count =>
      have hpos : i128ClampPos ((s.accounts i).pnl + pay) = i128ClampPos (s.accounts i).pnl := by
        unfold i128ClampPos; omega
      have := hs.withPnl (v := (s.accounts i).pnl + pay) (by rw [hpos]; exact hres)
      refine ⟨⟨this.1, this.2, this.3, this.4, this.5, this.6⟩, ?_⟩
      simp only [Account.releasedPos, Account.withPnl_pnl, Account.withPnl_reservedPnl,
        Account.withCapital_reservedPnl, hpos]
      rfl
  | feeSwept pay le_capital le_tot le_debt => exact ⟨⟨hs.1, hs.2, hs.3, hs.4, hs.5, hs.6⟩, rfl⟩
  | converted x y live pos le le_released le_matured le_tot backed =>
      simp only [Account.releasedPos, i128ClampPos] at le_released
      have := hs.withPnl (v := (s.accounts i).pnl - x) (by simp only [i128ClampPos]; omega)
      refine ⟨⟨this.1, this.2, this.3, this.4, this.5, this.6⟩, ?_⟩
      simp only [Account.releasedPos, Account.withPnl_pnl, Account.withCapital_pnl, i128ClampPos,
        Account.withCapital_reservedPnl, Account.withPnl_reservedPnl]
      omega
  | warmed r a' l live events warm =>
      have hr := warm.reserved
      have hpnl := warm.pnl_eq
      refine ⟨reserveShape_iff.mpr ⟨warm.buckets, by rw [hpnl]; omega⟩, ?_⟩
      simp only [Account.releasedPos, hpnl]
      omega
  | accelerated live fits =>
      refine ⟨⟨fun _ => ⟨rfl, rfl, rfl, rfl, rfl⟩, (by rintro ⟨⟩), fun _ => ⟨rfl, rfl, rfl⟩, (by rintro ⟨⟩),
        ⟨Nat.zero_le _, rfl⟩, Nat.zero_le _⟩, ?_⟩
      simp only [Account.releasedPos, Account.clearReserve_pnl, Account.clearReserve_reservedPnl]
      omega

theorem Charge.reserve (h : Charge s i a' t') (hs : ReserveShape s.params (s.accounts i)) :
    ReserveShape s.params a' ∧
      t'.pnlMaturedPosTot + (s.accounts i).releasedPos = s.pnlMaturedPosTot + a'.releasedPos := by
  cases h <;> exact ⟨⟨hs.1, hs.2, hs.3, hs.4, hs.5, hs.6⟩, rfl⟩

theorem Forgiven.reserve (h : Forgiven s i a' t' l) (hs : ReserveShape s.params (s.accounts i)) :
    ReserveShape s.params a' ∧
      t'.pnlMaturedPosTot + (s.accounts i).releasedPos = s.pnlMaturedPosTot + a'.releasedPos := by
  obtain ⟨draw, n, flat, neg, le_fund, reserved, count⟩ := h
  refine ⟨hs.withPnl (by rw [reserved]; exact Nat.zero_le _), ?_⟩
  simp only [Account.releasedPos, Account.withPnl_pnl, i128ClampPos, Account.withPnl_reservedPnl]
  rw [Int.toNat_of_nonpos (le_of_lt neg)]
  rfl

theorem ReserveShape.reattach {p : RiskParams} {sides : Side → SideState} {q : Int} (h : ReserveShape p a) :
    ReserveShape p (a.attachedTo sides q) := by
  unfold Account.attachedTo
  cases sideOfI128 q <;> exact ⟨h.1, h.2, h.3, h.4, h.5, h.6⟩

theorem Account.attachedTo_releasedPos {sides : Side → SideState} {q : Int} :
    (a.attachedTo sides q).releasedPos = a.releasedPos := by
  unfold attachedTo
  cases sideOfI128 q <;> rfl

theorem Reserves.attached {q : Int} {f : Side → Seats} (h : Reserves s) (used : s.isUsed i = true)
    (ha : Attached s s' i q f) : Reserves s' := by
  rw [ha.eq]
  exact h.reseat (h.shape i used).reattach Account.attachedTo_releasedPos

theorem Reserves.settled {d : Side} {δ : Int} {instant : Prop} {a'' : Account} {f : Side → Seats}
    (h : Reserves s) (used : s.isUsed i = true) (hs : Settled s s' i d instant δ a' t' a'' f) :
    Reserves s' := by
  have hshape := hs.pnl.shape (h.shape i used)
  rw [hs.eq]
  refine (h.rebook used hshape hs.pnl.matured).reseat ?_ ?_
  · have := hs.position
    cases this <;> exact ⟨hshape.1, hshape.2, hshape.3, hshape.4, hshape.5, hshape.6⟩
  · have := hs.position
    simp only [RiskEngine.rebook_accounts, put_same]
    cases this <;> rfl

theorem emptyAccount_shape {p : RiskParams} {slot : Nat} :
    ReserveShape p (emptyAccount.withLastFeeSlot slot) :=
  ⟨fun _ => ⟨rfl, rfl, rfl, rfl, rfl⟩, (by rintro ⟨⟩), fun _ => ⟨rfl, rfl, rfl⟩, (by rintro ⟨⟩), ⟨Nat.zero_le _, rfl⟩,
    Nat.zero_le _⟩

/-- A step that leaves the accounts and matured PnL alone. -/
theorem Reserves.congr (h : Reserves s) (slots : s'.usedSlots = s.usedSlots) (used : s'.isUsed = s.isUsed)
    (accounts : s'.accounts = s.accounts) (params : s'.params = s.params)
    (matured : s'.pnlMaturedPosTot = s.pnlMaturedPosTot) : Reserves s' where
  shape := by rw [used, accounts, params]; exact h.shape
  matured := by rw [slots, accounts, matured]; exact h.matured

/-- Every step within a Live market keeps the reserves exact. -/
theorem Good.reserves_step (h : Good c) (step : Step sc c l c') (live' : c'.engine.marketMode = .live) :
    Reserves c'.engine := by
  cases step with
  | noted i => exact h.reserves live'
  | booked used reach entry =>
      have hr := h.reserves live'
      exact hr.rebook used (entry.reserve (hr.shape _ used)).1 (entry.reserve (hr.shape _ used)).2
  | charged used reach allowed charge =>
      have hr := h.reserves live'
      exact hr.rebook used (charge.reserve (hr.shape _ used)).1 (charge.reserve (hr.shape _ used)).2
  | forgave used reach calm forgiven =>
      have hr := h.reserves live'
      exact hr.rebook used (forgiven.reserve (hr.shape _ used)).1 (forgiven.reserve (hr.shape _ used)).2
  | @relabeled s ph i a used reach same slot =>
      have hr := h.reserves live'
      have hs := hr.shape i used
      show Reserves (s.rebook i a s.totals)
      refine hr.rebook used ?_ ?_
      · rw [same]; exact ⟨hs.1, hs.2, hs.3, hs.4, hs.5, hs.6⟩
      · rw [same]; rfl
  | funded move => exact (h.reserves live').congr rfl rfl rfl rfl rfl
  | clocked slot crank market clock => exact (h.reserves live').congr rfl rfl rfl rfl rfl
  | accrued rest fresh live fits accrued =>
      rw [accrued.eq]; exact (h.reserves live).congr rfl rfl rfl rfl rfl
  | settled used reach touched live closing calm scope settled =>
      exact (h.reserves live).settled used settled
  | slipped legs used reach allowed live leg same scope range pnl =>
      have hr := h.reserves live
      exact hr.rebook used (pnl.shape (hr.shape _ used)) pnl.matured
  | traded usedA usedB reachA reachB allowedA allowedB touchedA touchedB live pending closing trading
      syncedA syncedB traded =>
      obtain ⟨s₁, s₂, f, g, hA, hB, rfl⟩ := traded.legs
      refine (((h.reserves live).attached usedA hA).attached ?_ hB).congr rfl rfl rfl rfl rfl
      rw [hA.eq]; exact usedB
  | checked owed sound => exact h.reserves live'
  | closed allowed used reach touched live pending closing calm closed =>
      obtain ⟨f, hf⟩ := closed.attached
      exact (h.reserves live).attached used hf
  | deleveraged marks used live pending closing pos fund absorbed marked =>
      exact (h.reserves live).congr rfl rfl rfl rfl rfl
  | reset live closing scheduled drained => exact (h.reserves live).congr rfl rfl rfl rfl rfl
  | reopened => exact (h.reserves live').congr rfl rfl rfl rfl rfl
  | @materialized s s' ph i slot allowed reach live le materialized =>
      have hr := h.reserves live
      refine ⟨fun j hj => ?_, ?_⟩
      · rw [materialized.isUsed materialized.lt] at hj
        rw [materialized.eq]
        by_cases hji : j = i
        · subst hji; simp only [put_same]; exact emptyAccount_shape
        · rw [if_neg hji] at hj
          simp only [put_other _ _ hji]
          exact hr.shape j hj
      · rw [materialized.tally (f := Account.releasedPos) rfl, materialized.eq]; exact hr.matured
  | @freed s s' ph i allowed reach charges clean freed =>
      dsimp only at live' ⊢
      rw [RiskEngine.swept_eq] at live' ⊢
      have hr := h.reserves (by rw [freed.eq] at live'; exact live')
      refine ⟨fun j (hj : s'.isUsed j = true) => ?_, ?_⟩
      · rw [freed.isUsed (isUsed_lt freed.used)] at hj
        split_ifs at hj with hji
        show ReserveShape s'.params (s'.accounts j)
        rw [freed.eq]
        simp only [put_other _ _ hji]
        exact hr.shape j hj
      · show s'.pnlMaturedPosTot = tally s'.usedSlots s'.accounts Account.releasedPos
        rw [freed.tally (f := Account.releasedPos) (by
          simp [Account.releasedPos, freed.freeable.1, i128ClampPos]), freed.eq]
        exact hr.matured
  | resolved price live now kDelta allowed rest mode le drained => cases live'
  | wiped used reach mode => exact absurd (live'.symm.trans mode) (by rintro ⟨⟩)
  | reconciled used reach mode reconciled =>
      rw [reconciled.eq] at live'; exact absurd (live'.symm.trans mode) (by rintro ⟨⟩)
  | captured mode ready first pos => exact absurd (live'.symm.trans mode) (by rintro ⟨⟩)
  | paid used reach allowed mode paid =>
      rw [paid.eq] at live'; exact absurd (live'.symm.trans mode) (by rintro ⟨⟩)

end Percolator
