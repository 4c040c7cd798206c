import Percolator.Invariant.Good

/-!
Every step keeps the books.
-/

namespace Percolator

section Moves

variable {s s' : RiskEngine} {i : Nat} {a' : Account} {t' : Totals} {l : List Event}

/-- The vault covers the seniors. -/
def Totals.Backed (t : Totals) : Prop := t.cTot + t.insuranceFund ≤ t.vault ∧ t.vault ≤ MAX_VAULT_TVL

theorem Books.totals (h : Books s) : s.totals.Backed := ⟨h.backed, h.vault_le⟩

/-- A market with an account in use is not retired. -/
theorem Books.inhabited (h : Books s) (used : s.isUsed i = true) : s.numUsedAccounts ≠ 0 := by
  rw [h.numUsed]
  exact Finset.card_ne_zero_of_mem (RiskEngine.mem_usedSlots.mpr used)

/-- An exact movement on an account in use keeps the books. -/
theorem Books.rebook (h : Books s) (used : s.isUsed i = true) (exact' : Exact s i a' t')
    (fee : -I128_MAX ≤ a'.feeCredits ∧ a'.feeCredits ≤ 0) (pnl : I128_MIN < a'.pnl)
    (backed : t'.Backed) : Books (s.rebook i a' t') where
  cTot := by
    have := tally_put (f := Account.capital) (t := s.accounts) (a := a')
      (RiskEngine.mem_usedSlots.mpr used)
    have := exact'.cTot
    have := h.cTot
    show t'.cTot = tally s.usedSlots (put s.accounts i a') Account.capital
    omega
  pos := by
    have := tally_put (f := Account.posPnl) (t := s.accounts) (a := a')
      (RiskEngine.mem_usedSlots.mpr used)
    have := exact'.pos
    have := h.pos
    show t'.pnlPosTot = tally s.usedSlots (put s.accounts i a') Account.posPnl
    omega
  neg := by
    have := tally_put (f := Account.negPnl) (t := s.accounts) (a := a')
      (RiskEngine.mem_usedSlots.mpr used)
    have := exact'.neg
    have := h.neg
    show t'.negPnlAccountCount = tally s.usedSlots (put s.accounts i a') Account.negPnl
    omega
  stored := fun d => (h.stored d).trans
    (tally_put_same (by rw [Account.on, Account.on, exact'.position.1])).symm
  numUsed := h.numUsed
  materialized := h.materialized
  fee := fun j hj => put_forall (P := fun j (b : Account) => s.isUsed j = true →
    -I128_MAX ≤ b.feeCredits ∧ b.feeCredits ≤ 0) (fun _ => fee) (fun j _ => h.fee j) j hj
  pnl := fun j hj => put_forall (P := fun j (b : Account) => s.isUsed j = true → I128_MIN < b.pnl)
    (fun _ => pnl) (fun j _ => h.pnl j) j hj
  capacity := h.capacity
  retired := fun h0 => absurd h0 (h.inhabited used)
  backed := backed.1
  vault_le := backed.2

/-- The money fields of an account. -/
def Account.SameMoney (a a' : Account) : Prop :=
  a'.capital = a.capital ∧ a'.pnl = a.pnl ∧ a'.feeCredits = a.feeCredits

/-- A movement of positions keeps the books when the counters follow. -/
theorem Books.reseat {f : Side → Seats} (h : Books s) (used : s.isUsed i = true)
    (money : (s.accounts i).SameMoney a')
    (stored : ∀ d, (f d).stored + (s.accounts i).on d = (s.sides d).storedPosCount + a'.on d) :
    Books (s.reseat i a' f) where
  cTot := h.cTot.trans (tally_put_same money.1).symm
  pos := h.pos.trans (tally_put_same (by rw [Account.posPnl, Account.posPnl, money.2.1])).symm
  neg := h.neg.trans (tally_put_same (by rw [Account.negPnl, Account.negPnl, money.2.1])).symm
  stored := fun d => by
    have := tally_put (f := Account.on d) (t := s.accounts) (a := a')
      (RiskEngine.mem_usedSlots.mpr used)
    have := stored d
    have := h.stored d
    show (f d).stored = tally s.usedSlots (put s.accounts i a') (Account.on d)
    omega
  numUsed := h.numUsed
  materialized := h.materialized
  fee := fun j hj => put_forall (P := fun j (b : Account) => s.isUsed j = true →
    -I128_MAX ≤ b.feeCredits ∧ b.feeCredits ≤ 0)
    (fun hi => by rw [money.2.2]; exact h.fee i hi) (fun j _ => h.fee j) j hj
  pnl := fun j hj => put_forall (P := fun j (b : Account) => s.isUsed j = true → I128_MIN < b.pnl)
    (fun hi => by rw [money.2.1]; exact h.pnl i hi) (fun j _ => h.pnl j) j hj
  capacity := h.capacity
  retired := h.retired
  backed := h.backed
  vault_le := h.vault_le

/-- Steps that leave the accounts, the totals and the stored positions alone. -/
theorem Books.congr (h : Books s) (slots : s'.usedSlots = s.usedSlots) (used : s'.isUsed = s.isUsed)
    (accounts : s'.accounts = s.accounts) (totals : s'.totals.Backed)
    (aggregates : s'.cTot = s.cTot ∧ s'.pnlPosTot = s.pnlPosTot ∧
      s'.negPnlAccountCount = s.negPnlAccountCount)
    (stored : ∀ d, (s'.sides d).storedPosCount = (s.sides d).storedPosCount)
    (counts : s'.numUsedAccounts = s.numUsedAccounts ∧
      s'.materializedAccountCount = s.materializedAccountCount)
    (retired : s.insuranceFund = s.vault → s'.numUsedAccounts = 0 → s'.insuranceFund = s'.vault) :
    Books s' where
  cTot := by rw [slots, accounts, aggregates.1, h.cTot]
  pos := by rw [slots, accounts, aggregates.2.1, h.pos]
  neg := by rw [slots, accounts, aggregates.2.2, h.neg]
  stored := fun d => by rw [slots, accounts, stored d, h.stored d]
  numUsed := by rw [slots, counts.1, h.numUsed]
  materialized := by rw [slots, counts.2, h.materialized]
  fee := by rw [used, accounts]; exact h.fee
  pnl := by rw [used, accounts]; exact h.pnl
  capacity := counts.2 ▸ h.capacity
  retired := fun h0 => retired (h.retired (counts.1 ▸ h0)) h0
  backed := totals.1
  vault_le := totals.2

/-- A step on the sides alone. -/
theorem Books.withSides {f : Side → SideState} (h : Books s)
    (stored : ∀ d, (f d).storedPosCount = (s.sides d).storedPosCount) : Books (s.withSides f) :=
  h.congr rfl rfl rfl h.totals ⟨rfl, rfl, rfl⟩ stored ⟨rfl, rfl⟩ fun h0 _ => h0

theorem Entry.fee (h : Entry s i a' t' l)
    (hf : -I128_MAX ≤ (s.accounts i).feeCredits ∧ (s.accounts i).feeCredits ≤ 0) :
    -I128_MAX ≤ a'.feeCredits ∧ a'.feeCredits ≤ 0 := by
  cases h with
  | deposited amount cap => exact hf
  | debtPaid amount cap le_debt =>
      simp only [Account.withFeeCredits_feeCredits]; omega
  | lossPaid pay n le_capital le_tot le_loss full count => exact hf
  | feeSwept pay le_capital le_tot le_debt =>
      simp only [Account.withFeeCredits_feeCredits]; omega
  | converted x y live pos le le_released le_matured le_tot backed => exact hf
  | warmed r a' l live events warm => rw [warm.same.feeCredits]; exact hf
  | accelerated live fits => exact hf

theorem Entry.pnl (h : Entry s i a' t' l) (hp : I128_MIN < (s.accounts i).pnl) : I128_MIN < a'.pnl := by
  cases h with
  | lossPaid pay n le_capital le_tot le_loss full count =>
      simp only [Account.withPnl_pnl]; omega
  | converted x y live pos le le_released le_matured le_tot backed =>
      simp only [Account.releasedPos, i128ClampPos] at le_released
      simp only [Account.withCapital_pnl, Account.withPnl_pnl, I128_MIN] at *
      omega
  | warmed r a' l live events warm => rw [warm.pnl_eq]; exact hp
  | deposited | debtPaid | feeSwept | accelerated => exact hp

theorem Entry.backed (h : Entry s i a' t' l) (hb : s.totals.Backed) : t'.Backed := by
  obtain ⟨hb, hv⟩ := hb
  simp only [RiskEngine.totals] at hb hv
  unfold Totals.Backed
  cases h with
  | deposited amount cap => dsimp only [RiskEngine.totals]; omega
  | debtPaid amount cap le_debt => dsimp only [RiskEngine.totals]; omega
  | lossPaid pay n le_capital le_tot le_loss full count => dsimp only [RiskEngine.totals]; omega
  | feeSwept pay le_capital le_tot le_debt => dsimp only [RiskEngine.totals]; omega
  | converted x y live pos le le_released le_matured le_tot backed =>
      simp only [RiskEngine.backing] at backed
      dsimp only [RiskEngine.totals]; omega
  | warmed r a' l live events warm => exact ⟨hb, hv⟩
  | accelerated live fits => exact ⟨hb, hv⟩

theorem Charge.fee (h : Charge s i a' t')
    (hf : -I128_MAX ≤ (s.accounts i).feeCredits ∧ (s.accounts i).feeCredits ≤ 0) :
    -I128_MAX ≤ a'.feeCredits ∧ a'.feeCredits ≤ 0 := by
  cases h with
  | feeCharged paid debt le_capital le_tot ge =>
      simp only [Account.withFeeCredits_feeCredits]; omega
  | paidOut amount le_capital le_tot le_vault => exact hf
  | reclaimed le_tot => exact hf
  | debtForgiven => simp only [Account.withFeeCredits_feeCredits, I128_MAX]; omega

theorem Charge.pnl (h : Charge s i a' t') : a'.pnl = (s.accounts i).pnl := by
  cases h <;> rfl

theorem Charge.backed (h : Charge s i a' t') (hcap : (s.accounts i).capital ≤ s.cTot)
    (hb : s.totals.Backed) : t'.Backed := by
  obtain ⟨hb, hv⟩ := hb
  simp only [RiskEngine.totals] at hb hv
  unfold Totals.Backed
  cases h with
  | feeCharged paid debt le_capital le_tot ge => dsimp only [RiskEngine.totals]; omega
  | paidOut amount le_capital le_tot le_vault => dsimp only [RiskEngine.totals]; omega
  | reclaimed le_tot => dsimp only [RiskEngine.totals]; omega
  | debtForgiven => exact ⟨hb, hv⟩

theorem Forgiven.fee (h : Forgiven s i a' t' l) : a'.feeCredits = (s.accounts i).feeCredits := by
  cases h; rfl

theorem Forgiven.pnl (h : Forgiven s i a' t' l) : a'.pnl = 0 := by
  cases h; rfl

theorem Forgiven.backed (h : Forgiven s i a' t' l) (hb : s.totals.Backed) : t'.Backed := by
  obtain ⟨hb, hv⟩ := hb
  simp only [RiskEngine.totals] at hb hv
  cases h
  unfold Totals.Backed
  dsimp only [RiskEngine.totals]; omega

theorem PnlSet.backed {v : Int} (h : PnlSet s i v a' t') (hb : s.totals.Backed) : t'.Backed := by
  rw [h.frame]; exact hb

theorem Books.pnlSet {v : Int} (h : Books s) (used : s.isUsed i = true) (hset : PnlSet s i v a' t')
    (range : I128_MIN < v) : Books (s.rebook i a' t') :=
  h.rebook used hset.exact (by rw [hset.same.feeCredits]; exact h.fee i used)
    (by rw [hset.pnl_eq]; exact range) (hset.backed h.totals)

/-- A slot of a freeable account is given up. -/
theorem Books.afterFreed (h : Books s) (hf : Freed s s' i) : Books s'.swept := by
  obtain ⟨hpnl, -, hbasis, -, -, hcap, hfee⟩ := hf.freeable
  have hcard := Finset.card_erase_add_one (RiskEngine.mem_usedSlots.mpr hf.used)
  have hnum : s'.numUsedAccounts = s'.usedSlots.card := by
    have := hf.numUsed; have := h.numUsed; rw [hf.usedSlots]; omega
  have hcTot : s'.cTot = tally s'.usedSlots s'.accounts Account.capital := by
    rw [hf.tally hcap, hf.eq]; exact h.cTot
  have hrest : ∀ j, s'.isUsed j = true → s.isUsed j = true ∧ s'.accounts j = s.accounts j := by
    intro j hj
    rw [hf.isUsed (isUsed_lt hf.used)] at hj
    split_ifs at hj with hji
    exact ⟨hj, by rw [hf.accounts_eq, put_other _ _ hji]⟩
  have hvault : s'.cTot + s'.insuranceFund ≤ s'.vault := by rw [hf.eq]; exact h.backed
  rw [RiskEngine.swept_eq]
  refine ⟨hcTot, ?_, ?_, fun d => ?_, hnum, ?_, fun j hj => ?_, fun j hj => ?_, ?_, fun h0 => ?_, ?_, ?_⟩
  · show s'.pnlPosTot = tally s'.usedSlots s'.accounts Account.posPnl
    rw [hf.tally (f := Account.posPnl) (by simp [Account.posPnl, hpnl, i128ClampPos]), hf.eq]
    exact h.pos
  · show s'.negPnlAccountCount = tally s'.usedSlots s'.accounts Account.negPnl
    rw [hf.tally (f := Account.negPnl) (by simp [Account.negPnl, hpnl]), hf.eq]; exact h.neg
  · show (s'.sides d).storedPosCount = tally s'.usedSlots s'.accounts (Account.on d)
    rw [hf.tally (f := Account.on d) (by simp [Account.on, hbasis, sideOfI128]), hf.eq]
    exact h.stored d
  · have := hf.materialized
    have := h.materialized
    show s'.materializedAccountCount = s'.usedSlots.card
    rw [hf.usedSlots]; omega
  · obtain ⟨hu, ha⟩ := hrest j hj
    show -I128_MAX ≤ (s'.accounts j).feeCredits ∧ (s'.accounts j).feeCredits ≤ 0
    rw [ha]; exact h.fee j hu
  · obtain ⟨hu, ha⟩ := hrest j hj
    show I128_MIN < (s'.accounts j).pnl
    rw [ha]; exact h.pnl j hu
  · have := hf.materialized
    have := h.capacity
    show s'.materializedAccountCount ≤ _
    omega
  · have h0 : s'.numUsedAccounts = 0 := h0
    show s'.swept.insuranceFund = s'.vault
    rw [RiskEngine.swept, if_pos h0]
    rfl
  · show s'.cTot + s'.swept.insuranceFund ≤ s'.vault
    unfold RiskEngine.swept
    split_ifs with h0
    · -- nobody is left who could own capital
      have hempty : s'.usedSlots = ∅ := Finset.card_eq_zero.mp (hnum.symm.trans h0)
      rw [hcTot, hempty, tally_empty]
      simp
    · exact hvault
  · show s'.vault ≤ _
    rw [hf.eq]; exact h.vault_le

/-- A slot is taken by an empty account. -/
theorem Books.afterMaterialized {slot : Nat} (h : Books s) (hm : Materialized s s' i slot) :
    Books s' := by
  have hnot : i ∉ s.usedSlots := by rw [RiskEngine.mem_usedSlots, hm.unused]; rintro ⟨⟩
  have hcard := Finset.card_insert_of_notMem hnot
  refine ⟨?_, ?_, ?_, fun d => ?_, ?_, ?_, fun j hj => ?_, fun j hj => ?_, hm.capacity, fun h0 => ?_, ?_, ?_⟩
  · rw [hm.tally rfl, hm.eq]; exact h.cTot
  · rw [hm.tally (f := Account.posPnl) rfl, hm.eq]; exact h.pos
  · rw [hm.tally (f := Account.negPnl) rfl, hm.eq]; exact h.neg
  · rw [hm.tally (f := Account.on d) rfl, hm.eq]; exact h.stored d
  · rw [hm.usedSlots, hcard, hm.numUsed, h.numUsed]
  · rw [hm.usedSlots, hcard, hm.materialized, h.materialized]
  · rw [hm.isUsed hm.lt] at hj
    rw [hm.eq]
    by_cases hji : j = i
    · subst hji
      simp only [put_same, Account.withLastFeeSlot_feeCredits]
      exact ⟨by decide, by decide⟩
    · rw [if_neg hji] at hj
      simp only [put_other _ _ hji]
      exact h.fee j hj
  · rw [hm.isUsed hm.lt] at hj
    rw [hm.eq]
    by_cases hji : j = i
    · subst hji
      simp only [put_same, Account.withLastFeeSlot_pnl]
      decide
    · rw [if_neg hji] at hj
      simp only [put_other _ _ hji]
      exact h.pnl j hj
  · have := hm.numUsed
    omega
  · rw [hm.eq]; exact h.backed
  · rw [hm.eq]; exact h.vault_le

theorem Resettled.stored {d : Side} {a : Account} {f : Side → Seats} (h : Resettled s d a a' f)
    (side : sideOfI128 a.positionBasisQ = some d) (e : Side) :
    (f e).stored + a.on e = (s.sides e).storedPosCount + a'.on e := by
  have hflat : a.flat.on e = 0 := rfl
  have hon : a.on e = if d = e then 1 else 0 := by simp [Account.on, side]
  cases h with
  | kept epoch pos => rfl
  | dusted n epoch zero stored =>
      rw [hflat, hon]
      by_cases he : e = d
      · subst he; simpa using stored
      · simp [he, Ne.symm he, SideState.seats]
  | stale n m mode epoch stored stale =>
      rw [hflat, hon]
      by_cases he : e = d
      · subst he; simpa using stored
      · simp [he, Ne.symm he, SideState.seats]

theorem Resettled.money {d : Side} {a : Account} {f : Side → Seats} (h : Resettled s d a a' f) :
    a.SameMoney a' := by
  cases h <;> exact ⟨rfl, rfl, rfl⟩

theorem Account.attachedTo_money (a : Account) (sides : Side → SideState) (q : Int) :
    a.SameMoney (a.attachedTo sides q) := by
  unfold attachedTo
  cases sideOfI128 q <;> exact ⟨rfl, rfl, rfl⟩

theorem Books.attached {q : Int} {f : Side → Seats} (h : Books s) (used : s.isUsed i = true)
    (ha : Attached s s' i q f) : Books s' := by
  rw [ha.eq]
  exact h.reseat used ((s.accounts i).attachedTo_money _ _) ha.stored

theorem Books.settled {d : Side} {δ : Int} {instant : Prop} {a'' : Account} {f : Side → Seats}
    (h : Books s) (used : s.isUsed i = true) (hs : Settled s s' i d instant δ a' t' a'' f) :
    Books s' := by
  rw [hs.eq]
  refine (h.pnlSet used hs.pnl.toPnlSet hs.range).reseat used ?_ fun e => ?_
  · simpa using hs.position.money
  · simpa using hs.position.stored (by rw [hs.pnl.same.position.1]; exact hs.side) e

theorem SideState.reopened_stored (v : SideState) : v.reopened.storedPosCount = v.storedPosCount := by
  unfold reopened
  split_ifs <;> rfl

theorem SideState.finalized_stored (v : SideState) (pending : Bool) :
    (v.finalized pending).storedPosCount = v.storedPosCount := by
  unfold finalized
  rw [reopened_stored]
  split_ifs <;> rfl

theorem Absorbed.stored {d : Side} {v w : SideState} {q : Nat} (h : Absorbed d v q w l) :
    w.storedPosCount = v.storedPosCount := by
  cases h <;> rfl

theorem Books.reconciled {d : Side} {v : Int} {n m : Nat} (h : Books s) (used : s.isUsed i = true)
    (hr : Reconciled s s' i d v t' n m) : Books s' := by
  rw [hr.eq]
  refine (h.pnlSet used hr.pnl hr.range).reseat used ⟨by simp [Account.flat], by simp [Account.flat],
    by simp [Account.flat]⟩ fun e => ?_
  have hon : ((s.accounts i).withPnl v).on e = if d = e then 1 else 0 := by
    simp [Account.on, hr.side]
  have hflat : ((s.accounts i).withPnl v).flat.on e = 0 := rfl
  simp only [RiskEngine.rebook_accounts, put_same, RiskEngine.rebook_sides, hon, hflat]
  by_cases he : e = d
  · subst he; simpa using hr.stored
  · simp [he, Ne.symm he, SideState.seats]

theorem SnapshotPaid.exact {y : Nat} (h : SnapshotPaid s s' i y) :
    Exact s i (((s.accounts i).withPnl 0).withCapital ((s.accounts i).capital + y))
      { s.totals with
        cTot := s.cTot + y, pnlPosTot := s.pnlPosTot - (s.accounts i).posPnl
        pnlMaturedPosTot := s.pnlMaturedPosTot - (s.accounts i).posPnl } := by
  have := h.le_tot
  have := h.pos
  refine ⟨.refl _, ?_, ?_, ?_⟩
  · simp only [Account.withCapital_capital]; omega
  · show s.pnlPosTot - (s.accounts i).posPnl + (s.accounts i).posPnl = s.pnlPosTot + 0
    omega
  · show s.negPnlAccountCount + (s.accounts i).negPnl = s.negPnlAccountCount + 0
    rw [Account.negPnl, if_neg (by omega)]

theorem Books.paid {y : Nat} (h : Books s) (ht : Terminal s) (used : s.isUsed i = true)
    (hp : SnapshotPaid s s' i y) : Books s' := by
  have hle : y ≤ tally s.usedSlots s.accounts
      (Account.payout s.resolvedPayoutHNum s.resolvedPayoutHDen) := by
    rw [hp.payout]
    exact le_tally (f := Account.payout _ _) (t := s.accounts) (RiskEngine.mem_usedSlots.mpr used)
  have := ht.covered hp.ready
  rw [hp.eq]
  refine h.rebook used (hp.exact) (h.fee i used) (by decide : I128_MIN < 0) ⟨?_, h.vault_le⟩
  show s.cTot + y + s.insuranceFund ≤ s.vault
  omega

end Moves

/-- Every step keeps the books. -/
theorem Good.books_step {sc : Scope} {c c' : Conf} {l : List Event} (h : Good c)
    (step : Step sc c l c') : Books c'.engine := by
  have hb := h.books
  cases step with
  | noted i => exact hb
  | booked used reach entry =>
      exact hb.rebook used entry.exact (entry.fee (hb.fee _ used)) (entry.pnl (hb.pnl _ used))
        (entry.backed hb.totals)
  | @charged s ph i a t used reach allowed charge =>
      have hcap : (s.accounts i).capital ≤ s.cTot := by
        rw [hb.cTot]
        exact le_tally (f := Account.capital) (t := s.accounts) (RiskEngine.mem_usedSlots.mpr used)
      exact hb.rebook used charge.exact (charge.fee (hb.fee _ used)) (charge.pnl ▸ hb.pnl _ used)
        (charge.backed hcap hb.totals)
  | forgave used reach calm forgiven =>
      exact hb.rebook used forgiven.exact (by rw [forgiven.fee]; exact hb.fee _ used)
        (by rw [forgiven.pnl]; decide) (forgiven.backed hb.totals)
  | @relabeled s ph i a used reach same slot =>
      have hexact : Exact s i a s.totals := by
        refine ⟨?_, ?_, ?_, ?_⟩ <;> rw [same] <;> first | rfl | exact .refl _
      exact hb.rebook used hexact (by rw [same]; exact hb.fee _ used) (by rw [same]; exact hb.pnl _ used)
        hb.totals
  | @funded s ph amount cap =>
      have hbacked : s.cTot + s.insuranceFund ≤ s.vault := hb.backed
      refine hb.congr rfl rfl rfl ⟨?_, cap⟩ ⟨rfl, rfl, rfl⟩ (fun _ => rfl) ⟨rfl, rfl⟩ fun h0 _ => ?_
      · show s.cTot + (s.insuranceFund + amount) ≤ s.vault + amount
        omega
      · exact congrArg (· + amount) h0
  | clocked slot crank market clock =>
      exact hb.congr rfl rfl rfl hb.totals ⟨rfl, rfl, rfl⟩ (fun _ => rfl) ⟨rfl, rfl⟩ fun h0 _ => h0
  | accrued rest fresh live fits accrued =>
      have heq := accrued.eq
      refine hb.congr ?_ ?_ ?_ ?_ ?_ (fun d => by rw [accrued.side d]) ?_ fun h0 _ => ?_ <;> rw [heq]
      all_goals first | rfl | exact hb.totals | exact ⟨rfl, rfl, rfl⟩ | exact ⟨rfl, rfl⟩ | exact h0
  | settled used reach touched live closing calm scope settled => exact hb.settled used settled
  | slipped legs used reach allowed live leg same scope range pnl =>
      exact hb.pnlSet used pnl.toPnlSet range
  | traded usedA usedB reachA reachB allowedA allowedB touchedA touchedB live pending closing trading
      syncedA syncedB traded =>
      obtain ⟨s₁, s₂, f, g, hA, hB, rfl⟩ := traded.legs
      refine ((hb.attached usedA hA).attached ?_ hB).withSides fun _ => rfl
      rw [hA.eq]; exact usedB
  | checked owed sound => exact hb
  | closed allowed used reach touched live pending closing calm closed =>
      obtain ⟨f, hf⟩ := closed.attached
      exact hb.attached used hf
  | @deleveraged s ph i d q v l f marks used live pending closing pos fund absorbed marked =>
      refine hb.congr rfl rfl rfl ⟨?_, hb.vault_le⟩ ⟨rfl, rfl, rfl⟩ (fun e => ?_) ⟨rfl, rfl⟩
        fun _ h0 => absurd h0 (hb.inhabited used)
      · have : s.cTot + s.insuranceFund ≤ s.vault := hb.backed
        show s.cTot + f ≤ s.vault
        omega
      · show (if e = d.opposite then v else _).storedPosCount = _
        split_ifs with he
        · rw [he, absorbed.stored]
        · rfl
  | reset live closing scheduled drained =>
      exact hb.withSides fun d => (SideState.finalized_stored _ _).trans rfl
  | reopened => exact hb.withSides fun d => SideState.reopened_stored _
  | materialized allowed reach live le materialized => exact hb.afterMaterialized materialized
  | freed allowed reach charges clean freed => exact hb.afterFreed freed
  | resolved price live now kDelta allowed rest mode le drained =>
      exact hb.congr rfl rfl rfl hb.totals ⟨rfl, rfl, rfl⟩
        (fun d => (SideState.finalized_stored _ _).trans rfl) ⟨rfl, rfl⟩ fun h0 _ => h0
  | @wiped s ph i used reach mode =>
      show Books (s.rebook i (s.accounts i).clearReserve s.totals)
      exact hb.rebook used ⟨.refl _, rfl, rfl, rfl⟩ (hb.fee _ used)
        (hb.pnl _ used) hb.totals
  | reconciled used reach mode reconciled => exact hb.reconciled used reconciled
  | captured mode ready first pos =>
      exact hb.congr rfl rfl rfl hb.totals ⟨rfl, rfl, rfl⟩ (fun _ => rfl) ⟨rfl, rfl⟩ fun h0 _ => h0
  | paid used reach allowed mode paid => exact hb.paid (h.terminal mode) used paid

end Percolator
