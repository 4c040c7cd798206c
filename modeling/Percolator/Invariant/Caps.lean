import Percolator.Invariant.Dust

/-!
The caps of a market: the stored positions of a side are within the cap of its parameters, and a
position of the running epoch was attached at a multiplier that has only fallen since.
-/

namespace Percolator

variable {s s' : RiskEngine} {ph : Phase} {i : Nat} {a b : Account} {d : Side} {v w : SideState} {l : List Event}

/-- The multiplier of the side of a position is not above the one it was attached at. -/
def Account.Shrinks (a : Account) (sides : Side → SideState) : Prop :=
  ∀ d, sideOfI128 a.positionBasisQ = some d → a.adlEpochSnap = (sides d).adlEpoch → (sides d).adlMult ≤ a.adlABasis

/-- The caps that every step keeps. -/
structure WithinCaps (s : RiskEngine) : Prop where
  stored : ∀ d, (s.sides d).storedPosCount ≤ s.params.maxActivePositionsPerSide
  shrinks : ∀ i, s.isUsed i = true → (s.accounts i).Shrinks s.sides

/-! ### One account -/

theorem Account.shrinks_flat {sides : Side → SideState} (flat : a.positionBasisQ = 0) : a.Shrinks sides := by
  intro d side
  rw [flat] at side
  cases side

theorem Account.Shrinks.position {sides : Side → SideState} (h : a.Shrinks sides) (same : a.SamePosition b) :
    b.Shrinks sides := by
  obtain ⟨basis, aBasis, -, -, snap⟩ := same
  intro d side current
  rw [aBasis]
  exact h d (basis ▸ side) (snap ▸ current)

theorem Account.Shrinks.fall {sides sides' : Side → SideState} (h : a.Shrinks sides)
    (epoch : ∀ d, (sides' d).adlEpoch = (sides d).adlEpoch) (mult : ∀ d, (sides' d).adlMult ≤ (sides d).adlMult) :
    a.Shrinks sides' := by
  intro d side current
  exact (mult d).trans (h d side (current.trans (epoch d)))

theorem Account.shrinks_attachedTo {sides : Side → SideState} {q : Int} : (a.attachedTo sides q).Shrinks sides := by
  unfold attachedTo
  cases side : sideOfI128 q with
  | none => exact shrinks_flat rfl
  | some e =>
      intro d on current
      have on : sideOfI128 q = some d := on
      obtain rfl : e = d := Option.some.inj (side.symm.trans on)
      exact le_rfl

theorem Resettled.shrinks {f : Side → Seats} (h : Resettled s d a b f) (before : a.Shrinks s.sides)
    (side : sideOfI128 a.positionBasisQ = some d) : b.Shrinks s.sides := by
  cases h with
  | kept epoch pos =>
      intro e on current
      obtain rfl : d = e := Option.some.inj (side.symm.trans on)
      exact before d side epoch
  | dusted n epoch zero stored => exact Account.shrinks_flat rfl
  | stale n m mode epoch stored stale => exact Account.shrinks_flat rfl

/-! ### Movements -/

/-- The accounts stay as they are, and no multiplier rises. -/
theorem WithinCaps.keep (h : WithinCaps s) (params : s'.params = s.params) (accounts : s'.accounts = s.accounts)
    (used : s'.isUsed = s.isUsed) (stored : ∀ d, (s'.sides d).storedPosCount = (s.sides d).storedPosCount)
    (epoch : ∀ d, (s'.sides d).adlEpoch = (s.sides d).adlEpoch)
    (mult : ∀ d, (s'.sides d).adlMult ≤ (s.sides d).adlMult) : WithinCaps s' := by
  constructor
  · intro d
    rw [stored d, params]
    exact h.stored d
  · intro i inUse
    rw [used] at inUse
    rw [accounts]
    exact (h.shrinks i inUse).fall epoch mult

/-- One account is written, and no side stores more. -/
theorem WithinCaps.put (h : WithinCaps s) (params : s'.params = s.params) (accounts : s'.accounts = Percolator.put s.accounts i b)
    (used : s'.isUsed = s.isUsed) (stored : ∀ d, (s'.sides d).storedPosCount ≤ (s.sides d).storedPosCount)
    (epoch : ∀ d, (s'.sides d).adlEpoch = (s.sides d).adlEpoch)
    (mult : ∀ d, (s'.sides d).adlMult = (s.sides d).adlMult) (shrinks : b.Shrinks s.sides) : WithinCaps s' := by
  constructor
  · intro d
    rw [params]
    exact (stored d).trans (h.stored d)
  · intro j inUse
    rw [used] at inUse
    rw [accounts]
    refine Account.Shrinks.fall ?_ epoch fun d => (mult d).le
    by_cases hj : j = i
    · subst hj
      rw [put_same]
      exact shrinks
    · rw [put_other _ _ hj]
      exact h.shrinks j inUse

/-- The account that is written keeps its position. -/
theorem WithinCaps.put_same {t : RiskEngine} (h : WithinCaps s) (inUse : s.isUsed i = true) (params : t.params = s.params)
    (accounts : t.accounts = Percolator.put s.accounts i b) (used : t.isUsed = s.isUsed) (sides : t.sides = s.sides)
    (same : (s.accounts i).SamePosition b) : WithinCaps t :=
  h.put params accounts used (fun d => by rw [sides]) (fun d => by rw [sides]) (fun d => by rw [sides])
    ((h.shrinks i inUse).position same)

/-- A slot is taken or given up without a position. -/
theorem WithinCaps.slots {u : Bool} (h : WithinCaps s) (lt : i < s.maxAccounts) (slots : SameButSlots s s' i u b)
    (flat : b.positionBasisQ = 0) : WithinCaps s' := by
  have sides := slots.sides_eq
  have params : s'.params = s.params := by rw [slots.eq]
  constructor
  · intro d
    rw [sides, params]
    exact h.stored d
  · intro j inUse
    rw [slots.isUsed lt] at inUse
    rw [slots.accounts_eq, sides]
    by_cases hj : j = i
    · subst hj
      rw [Percolator.put_same]
      exact Account.shrinks_flat flat
    · rw [put_other _ _ hj]
      rw [if_neg hj] at inUse
      exact h.shrinks j inUse

theorem WithinCaps.settled {δ : Int} {instant : Prop} {a' a'' : Account} {t' : Totals} {f : Side → Seats}
    (h : WithinCaps s) (used : s.isUsed i = true) (settled : Settled s s' i d instant δ a' t' a'' f) : WithinCaps s' := by
  have same := settled.pnl.same.position
  have accounts : s'.accounts = Percolator.put s.accounts i a'' := by
    rw [settled.eq]
    exact put_put _ _ _ _
  have side : sideOfI128 a'.positionBasisQ = some d := by
    rw [same.1]
    exact settled.side
  refine h.put (by rw [settled.eq]; rfl) accounts (by rw [settled.eq]; rfl) (fun e => ?_)
    (fun e => by rw [settled.eq]; rfl) (fun e => by rw [settled.eq]; rfl)
    (settled.position.shrinks ((h.shrinks i used).position same) side)
  have stored : (s'.sides e).storedPosCount = (f e).stored := by rw [settled.eq]; rfl
  have counted := settled.position.stored side e
  have fewer : a''.on e ≤ a'.on e := by
    cases settled.position with
    | kept epoch pos => exact le_rfl
    | dusted n epoch zero stored => exact Nat.zero_le _
    | stale n m mode epoch stored stale => exact Nat.zero_le _
  rw [stored]
  omega

/-- Both legs of a trade were attached at the multipliers of their sides. -/
theorem WithinCaps.traded {p q : Nat} {x oldA oldB : Int} {after : Side → Nat} (h : WithinCaps s)
    (traded : Traded s s' p q x oldA oldB after)
    (capped : ∀ d, (s'.sides d).storedPosCount ≤ s.params.maxActivePositionsPerSide) : WithinCaps s' := by
  obtain ⟨s₁, s₂, f, g, hA, hB, rfl⟩ := traded.legs
  constructor
  · intro d
    have params : s₂.params = s.params := by rw [hB.eq, hA.eq]; rfl
    show _ ≤ s₂.params.maxActivePositionsPerSide
    rw [params]
    exact capped d
  · intro j inUse
    have inUse : s.isUsed j = true := by
      have same : s₂.isUsed = s.isUsed := by rw [hB.eq, hA.eq]; rfl
      exact same ▸ inUse
    show (s₂.accounts j).Shrinks _
    rw [hB.eq, RiskEngine.reseat_accounts]
    by_cases hj : j = q
    · subst hj
      rw [Percolator.put_same]
      exact Account.shrinks_attachedTo.fall (fun _ => rfl) fun _ => le_rfl
    · rw [put_other _ _ hj, hA.eq, RiskEngine.reseat_accounts]
      by_cases hk : j = p
      · subst hk
        rw [Percolator.put_same]
        exact Account.shrinks_attachedTo.fall (fun _ => rfl) fun _ => le_rfl
      · rw [put_other _ _ hk]
        exact (h.shrinks j inUse).fall (fun _ => rfl) fun _ => le_rfl

/-- A liquidation does not add a position. -/
theorem WithinCaps.closed {q : Nat} {old new : Int} (h : WithinCaps s) (seated : Seated s) (used : s.isUsed i = true)
    (closed : Closing s s' i d q old new) : WithinCaps s' := by
  obtain ⟨f, attached⟩ := closed.attached
  refine h.put (b := (s.accounts i).attachedTo s.sides new) (by rw [attached.eq]; rfl) (by rw [attached.eq]; rfl)
    (by rw [attached.eq]; rfl) (fun e => ?_) (fun e => by rw [attached.eq]; rfl) (fun e => by rw [attached.eq]; rfl)
    Account.shrinks_attachedTo
  have side := (seated.open_side used closed.eff closed.side).1
  have stored : (s'.sides e).storedPosCount = (f e).stored := by rw [attached.eq]; rfl
  have counted := attached.stored e
  have fewer : ((s.accounts i).attachedTo s.sides new).on e ≤ (s.accounts i).on e := by
    unfold Account.on
    rw [Account.attachedTo_side, side]
    rcases closed.same_side with rfl | same
    · exact Nat.zero_le _
    · rw [same]
  rw [stored]
  omega

theorem WithinCaps.reconciled {x : Int} {t' : Totals} {n m : Nat} (h : WithinCaps s)
    (reconciled : Reconciled s s' i d x t' n m) : WithinCaps s' := by
  have accounts : s'.accounts = Percolator.put s.accounts i ((s.accounts i).withPnl x).flat := by
    rw [reconciled.eq]
    exact put_put _ _ _ _
  refine h.put (by rw [reconciled.eq]; rfl) accounts (by rw [reconciled.eq]; rfl) (fun e => ?_)
    (fun e => by rw [reconciled.eq]; rfl) (fun e => by rw [reconciled.eq]; rfl) (Account.shrinks_flat rfl)
  have stored : (s'.sides e).storedPosCount =
      (if e = d then (⟨n, m, (s.sides d).phantomDustBoundQ⟩ : Seats) else (s.sides e).seats).stored := by
    rw [reconciled.eq]
    rfl
  rw [stored]
  split_ifs with he
  · subst he
    have := reconciled.stored
    show n ≤ _
    omega
  · exact le_rfl

theorem Absorbed.falls {q : Nat} (h : Absorbed d v q w l) :
    w.storedPosCount = v.storedPosCount ∧ w.adlEpoch = v.adlEpoch ∧ w.adlMult ≤ v.adlMult := by
  cases h with
  | vacant stored => exact ⟨rfl, rfl, le_rfl⟩
  | drained k range => exact ⟨rfl, rfl, le_rfl⟩
  | shrunk k aNew bound mode range lt scaled live dust mode_eq =>
      refine ⟨rfl, rfl, ?_⟩
      show aNew ≤ v.adlMult
      rw [scaled]
      exact Nat.div_le_of_le_mul (by rw [Nat.mul_comm]; exact Nat.mul_le_mul_right _ (Nat.sub_le _ _))

/-- No position is of an epoch that a reset has only begun. -/
theorem WithinCaps.finalized (h : WithinCaps s) (positions : Positions s ph) (params : s'.params = s.params)
    (accounts : s'.accounts = s.accounts) (used : s'.isUsed = s.isUsed) (marks : Side → Bool) (f : Side → SideState)
    (same : ∀ d, (f d).adlEpoch = (s.sides d).adlEpoch ∧ (f d).adlMult = (s.sides d).adlMult ∧
      (f d).storedPosCount = (s.sides d).storedPosCount)
    (sides : ∀ d, s'.sides d = (f d).finalized (marks d)) : WithinCaps s' := by
  constructor
  · intro d
    rw [sides d, SideState.finalized_stored, (same d).2.2, params]
    exact h.stored d
  · intro i inUse d side current
    rw [used] at inUse
    rw [accounts] at side current ⊢
    obtain ⟨epoch₀, mult₀, -⟩ := same d
    rw [sides d] at current ⊢
    have snap := (positions.position i d inUse side).epoch
    rcases (f d).finalized_dust (marks d) with ⟨epoch, mult, -⟩ | ⟨epoch, -, -⟩
    · rw [mult, mult₀]
      exact h.shrinks i inUse d side (current.trans (epoch.trans epoch₀))
    · omega

/-! ### Runs -/

/-- Every step keeps the caps. -/
theorem Good.caps_step {sc : Scope} {c c' : Conf} (good : Good c) (h : WithinCaps c.engine) (step : Step sc c l c') :
    WithinCaps c'.engine := by
  cases step with
  | noted | funded | clocked | checked | captured =>
      exact h.keep rfl rfl rfl (fun _ => rfl) (fun _ => rfl) fun _ => le_rfl
  | booked used reach entry => exact h.put_same used rfl rfl rfl rfl entry.exact.position
  | charged used reach allowed charge => exact h.put_same used rfl rfl rfl rfl charge.exact.position
  | forgave used reach calm forgiven => exact h.put_same used rfl rfl rfl rfl forgiven.exact.position
  | @relabeled s ph i a used reach same slot =>
      exact h.put_same (t := s.setAccount i a) used rfl rfl rfl rfl (by rw [same]; exact .refl _)
  | accrued rest fresh live fits accrued =>
      refine h.keep (by rw [accrued.eq]) (by rw [accrued.eq]) (by rw [accrued.eq]; rfl) (fun d => ?_) (fun d => ?_)
        fun d => ?_
      all_goals rw [accrued.side d]
  | settled used reach touched live closing calm scope settled => exact h.settled used settled
  | slipped legs used reach allowed live leg same scope range pnl =>
      exact h.put_same used rfl rfl rfl rfl pnl.same.position
  | traded usedA usedB reachA reachB allowedA allowedB touchedA touchedB live pending closing trading
      syncedA syncedB traded capped => exact h.traded traded capped
  | closed allowed used reach touched live pending closing calm closed =>
      exact h.closed (good.positions live).seated used closed
  | @deleveraged s ph i d q v l f marks used live pending closing pos fund absorbed marked =>
      obtain ⟨stored, epoch, mult⟩ := absorbed.falls
      have each : ∀ e, ((s.withInsuranceFund f).absorb d v).sides e = (s.sides e).withOi v.oiEffQ ∨
          e = d.opposite ∧ ((s.withInsuranceFund f).absorb d v).sides e = v := by
        intro e
        by_cases he : e = d.opposite
        · exact .inr ⟨he, if_pos he⟩
        · exact .inl (if_neg he)
      refine h.keep rfl rfl rfl (fun e => ?_) (fun e => ?_) fun e => ?_
      · rcases each e with same | ⟨rfl, same⟩
        · rw [same]
          rfl
        · rw [same, stored]
      · rcases each e with same | ⟨rfl, same⟩
        · rw [same]
          rfl
        · rw [same, epoch]
      · rcases each e with same | ⟨rfl, same⟩
        · rw [same]
          exact le_rfl
        · rw [same]
          exact mult
  | @reset s ph oi marks live closing scheduled drained =>
      exact h.finalized (good.positions live) rfl rfl rfl marks (fun d => (s.sides d).withOi (oi d))
        (fun _ => ⟨rfl, rfl, rfl⟩) fun _ => rfl
  | reopened =>
      refine h.keep rfl rfl rfl (fun d => ?_) (fun d => ?_) fun d => ?_
      all_goals rw [RiskEngine.withSides_sides, SideState.reopened_eq]
  | materialized allowed reach live le materialized =>
      exact h.slots materialized.lt materialized.toSameButSlots rfl
  | @freed s s' ph i allowed reach charges clean freed =>
      have kept : WithinCaps s' := h.slots (isUsed_lt freed.used) freed.toSameButSlots rfl
      rw [RiskEngine.swept_eq]
      exact kept.keep rfl rfl rfl (fun _ => rfl) (fun _ => rfl) fun _ => le_rfl
  | @resolved s ph price live now kDelta allowed rest mode le drained =>
      exact h.finalized (good.positions mode) rfl rfl rfl (fun _ => true)
        (fun d => (s.enterResolved price live now kDelta).sides d) (fun _ => ⟨rfl, rfl, rfl⟩) fun _ => rfl
  | @wiped s ph i used reach mode =>
      exact h.put_same (t := s.setAccount i (s.accounts i).clearReserve) used rfl rfl rfl rfl (.refl _)
  | reconciled used reach mode reconciled => exact h.reconciled reconciled
  | @paid s s' ph i y used reach allowed mode paid =>
      rw [paid.eq]
      exact h.put_same (t := s.rebook i _ _) used rfl rfl rfl rfl (.refl _)

/-- A run from a good configuration keeps the caps. -/
theorem WithinCaps.run {sc : Scope} {c c' : Conf} (h : WithinCaps c.engine) (good : Good c)
    (run : Run (Step sc) c l c') : WithinCaps c'.engine :=
  (run.invariant (I := fun c => Good c ∧ WithinCaps c.engine)
    (fun _ _ _ kept step => ⟨kept.1.step step, kept.1.caps_step kept.2 step⟩) ⟨good, h⟩).2

end Percolator
