import Percolator.Invariant.Terminal

/-!
The dust of a side is bounded. A position turns to dust at most once after its side's multiplier has
left it behind, and the multiplier, which starts an epoch at one, only falls; so that each fall pays for
the dust that can come of it.
-/

namespace Percolator

variable {s s' : RiskEngine} {i : Nat} {a b : Account} {d : Side} {v w : SideState}

/-- The most that one fall of the multiplier adds to the dust of a side and to the positions that may still
turn to dust. -/
def DUST_PER_SHRINK : Nat := 3 * MAX_MATERIALIZED_ACCOUNTS + MAX_OI_SIDE_Q

/-- One for a position of the running epoch that the multiplier has left behind. -/
def Account.outdated (d : Side) (v : SideState) (a : Account) : Nat :=
  if sideOfI128 a.positionBasisQ = some d ∧ a.adlEpochSnap = v.adlEpoch ∧ a.adlABasis ≠ v.adlMult then 1 else 0

/-- The dust of a side and what may still turn to dust. -/
def RiskEngine.dustDue (s : RiskEngine) (d : Side) : Nat :=
  (s.sides d).phantomDustBoundQ + tally s.usedSlots s.accounts (Account.outdated d (s.sides d))

/-- Every fall of the multiplier paid for the dust. -/
def DustBounded (s : RiskEngine) : Prop :=
  ∀ d, s.dustDue d + DUST_PER_SHRINK * (s.sides d).adlMult ≤ DUST_PER_SHRINK * ADL_ONE

/-! ### Outdated positions -/

theorem Account.outdated_congr (same : a.SamePosition b) (epoch : w.adlEpoch = v.adlEpoch)
    (mult : w.adlMult = v.adlMult) : b.outdated d w = a.outdated d v := by
  obtain ⟨basis, aBasis, -, -, snap⟩ := same
  simp only [outdated, basis, aBasis, snap, epoch, mult]

theorem Account.outdated_goes_on (epoch : w.adlEpoch = v.adlEpoch) (mult : w.adlMult = v.adlMult) :
    Account.outdated d w = Account.outdated d v :=
  funext fun a => outdated_congr (.refl a) epoch mult

theorem Account.outdated_le_on : a.outdated d v ≤ a.on d := by
  unfold outdated on
  split_ifs with h h'
  · exact le_rfl
  · exact absurd h.1 h'
  · exact Nat.zero_le _
  · exact le_rfl

theorem Account.outdated_flat (flat : a.positionBasisQ = 0) : a.outdated d v = 0 := by
  refine if_neg ?_
  rw [sideOfI128_eq_none.mpr flat]
  rintro ⟨⟨⟩, -⟩

/-- A position that is attached is not behind. -/
theorem Account.outdated_attachedTo {sides : Side → SideState} {q : Int} :
    (a.attachedTo sides q).outdated d (sides d) = 0 := by
  unfold attachedTo
  cases side : sideOfI128 q with
  | none => exact outdated_flat rfl
  | some e =>
      refine if_neg ?_
      rintro ⟨on, -, behind⟩
      have on : sideOfI128 q = some d := on
      obtain rfl : e = d := Option.some.inj (side.symm.trans on)
      exact behind rfl

/-- Only an outdated position leaves dust when it is replaced. -/
theorem Account.orphaned_le : a.orphaned d v ≤ a.outdated d v := by
  unfold orphaned outdated
  split_ifs with h h'
  · exact le_rfl
  · obtain ⟨side, epoch, basis, rem⟩ := h
    exact absurd ⟨side, epoch, fun same => rem (by rw [same]; exact Nat.mul_mod_left _ _)⟩ h'
  · exact Nat.zero_le _
  · exact le_rfl

/-! ### Movements -/

/-- The accounts stay as they are, and no side gains dust. -/
theorem DustBounded.keep (h : DustBounded s) (slots : s'.usedSlots = s.usedSlots) (accounts : s'.accounts = s.accounts)
    (epoch : ∀ d, (s'.sides d).adlEpoch = (s.sides d).adlEpoch) (mult : ∀ d, (s'.sides d).adlMult = (s.sides d).adlMult)
    (dust : ∀ d, (s'.sides d).phantomDustBoundQ = (s.sides d).phantomDustBoundQ) : DustBounded s' := by
  intro d
  unfold RiskEngine.dustDue
  rw [slots, accounts, Account.outdated_goes_on (epoch d) (mult d), mult d, dust d]
  exact h d

/-- A slot is taken or given up without a position. -/
theorem DustBounded.slots (h : DustBounded s) (sides : ∀ d, s'.sides d = s.sides d)
    (outdated : ∀ d v, tally s'.usedSlots s'.accounts (Account.outdated d v) =
      tally s.usedSlots s.accounts (Account.outdated d v)) : DustBounded s' := by
  intro d
  unfold RiskEngine.dustDue
  rw [sides d, outdated]
  exact h d

/-- The dust that a side gains comes of the account that is written. -/
theorem DustBounded.put (h : DustBounded s) (used : s.isUsed i = true) (slots : s'.usedSlots = s.usedSlots)
    (accounts : s'.accounts = Percolator.put s.accounts i b)
    (epoch : ∀ d, (s'.sides d).adlEpoch = (s.sides d).adlEpoch) (mult : ∀ d, (s'.sides d).adlMult = (s.sides d).adlMult)
    (paid : ∀ d, (s'.sides d).phantomDustBoundQ + b.outdated d (s.sides d) ≤
      (s.sides d).phantomDustBoundQ + (s.accounts i).outdated d (s.sides d)) : DustBounded s' := by
  intro d
  have exchanged := tally_put (f := Account.outdated d (s.sides d)) (t := s.accounts) (a := b)
    (RiskEngine.mem_usedSlots.mpr used)
  have before := h d
  have paid := paid d
  unfold RiskEngine.dustDue at before ⊢
  rw [slots, accounts, Account.outdated_goes_on (epoch d) (mult d), mult d]
  omega

/-- The account that is written keeps its position. -/
theorem DustBounded.put_same {t : RiskEngine} (h : DustBounded s) (used : s.isUsed i = true) (slots : t.usedSlots = s.usedSlots)
    (accounts : t.accounts = Percolator.put s.accounts i b) (sides : t.sides = s.sides)
    (same : (s.accounts i).SamePosition b) : DustBounded t := by
  refine h.put used slots accounts (fun d => by rw [sides]) (fun d => by rw [sides]) fun d => ?_
  rw [sides, Account.outdated_congr same rfl rfl]

theorem DustBounded.attached {q : Int} {f : Side → Seats} (h : DustBounded s) (used : s.isUsed i = true)
    (attached : Attached s s' i q f) : DustBounded s' := by
  have accounts : s'.accounts = Percolator.put s.accounts i ((s.accounts i).attachedTo s.sides q) := by
    rw [attached.eq]; rfl
  have slots : s'.usedSlots = s.usedSlots := by rw [attached.eq]; rfl
  have sides : ∀ d, s'.sides d = (s.sides d).withSeats (f d) := fun d => by rw [attached.eq]; rfl
  refine h.put used slots accounts (fun d => by rw [sides d]; rfl) (fun d => by rw [sides d]; rfl) fun d => ?_
  rw [sides d, Account.outdated_attachedTo, Nat.add_zero]
  show (f d).dust ≤ _
  rw [attached.dust d]
  exact Nat.add_le_add_left Account.orphaned_le _

/-- A position that settles to nothing was behind. -/
theorem Resettled.outdated {f : Side → Seats} {e : Side} (h : Resettled s e a b f) (mult : 0 < (s.sides e).adlMult)
    (side : sideOfI128 a.positionBasisQ = some e) (d : Side) :
    (f d).dust + b.outdated d (s.sides d) ≤ (s.sides d).phantomDustBoundQ + a.outdated d (s.sides d) := by
  cases h with
  | kept epoch pos =>
      refine Nat.add_le_add_left (le_of_eq ?_) _
      simp only [Account.outdated]
      congr 1
      by_cases hd : e = d
      · subst hd
        simp [epoch]
      · simp [side, hd]
  | dusted n epoch zero stored =>
      rw [Account.outdated_flat rfl, Nat.add_zero]
      by_cases hd : d = e
      · subst hd
        have behind : a.adlABasis ≠ (s.sides d).adlMult := by
          intro same
          rw [same, Nat.mul_div_cancel _ mult] at zero
          rw [sideOfI128_eq_none.mpr (Int.natAbs_eq_zero.mp zero)] at side
          cases side
        simp only [if_true]
        rw [Account.outdated, if_pos ⟨side, epoch, behind⟩]
      · simp only [hd, if_false]
        exact Nat.le_add_right _ _
  | stale n m mode epoch stored stale =>
      rw [Account.outdated_flat rfl, Nat.add_zero]
      by_cases hd : d = e
      · subst hd
        simp only [if_true]
        exact Nat.le_add_right _ _
      · simp only [hd, if_false]
        exact Nat.le_add_right _ _

theorem DustBounded.settled {δ : Int} {instant : Prop} {a' a'' : Account} {t' : Totals} {f : Side → Seats}
    (h : DustBounded s) (used : s.isUsed i = true) (mult : 0 < (s.sides d).adlMult)
    (settled : Settled s s' i d instant δ a' t' a'' f) : DustBounded s' := by
  have same := settled.pnl.same.position
  have accounts : s'.accounts = Percolator.put s.accounts i a'' := by
    rw [settled.eq]
    exact put_put _ _ _ _
  have slots : s'.usedSlots = s.usedSlots := by rw [settled.eq]; rfl
  have sides : ∀ e, s'.sides e = (s.sides e).withSeats (f e) := fun e => by rw [settled.eq]; rfl
  refine h.put used slots accounts (fun e => by rw [sides e]; rfl) (fun e => by rw [sides e]; rfl) fun e => ?_
  rw [sides e, ← Account.outdated_congr same rfl rfl]
  exact settled.position.outdated mult (by rw [same.1]; exact settled.side) e

theorem DustBounded.reconciled {x : Int} {t' : Totals} {n m : Nat} (h : DustBounded s) (used : s.isUsed i = true)
    (reconciled : Reconciled s s' i d x t' n m) : DustBounded s' := by
  have accounts : s'.accounts = Percolator.put s.accounts i ((s.accounts i).withPnl x).flat := by
    rw [reconciled.eq]
    exact put_put _ _ _ _
  have slots : s'.usedSlots = s.usedSlots := by rw [reconciled.eq]; rfl
  refine h.put used slots accounts (fun e => by rw [reconciled.eq]; rfl) (fun e => by rw [reconciled.eq]; rfl) fun e => ?_
  have dust : (s'.sides e).phantomDustBoundQ = (s.sides e).phantomDustBoundQ := by
    rw [reconciled.eq]
    show (if e = d then _ else (s.sides e).seats).dust = _
    by_cases he : e = d
    · subst he
      rw [if_pos rfl]
    · rw [if_neg he]
      rfl
  rw [dust, Account.outdated_flat rfl]
  exact Nat.add_le_add_left (Nat.zero_le _) _

/-! ### Falls of the multiplier -/

theorem globalADustBound_le {stored oi mult : Nat} : globalADustBound stored oi mult ≤ stored + (oi + stored) := by
  have ceil : ceilDiv (oi + stored) mult ≤ oi + stored := by
    have floor := Nat.div_le_self (oi + stored) mult
    unfold ceilDiv
    split_ifs with exact
    · exact floor
    · have lt : (oi + stored) / mult < oi + stored := by
        refine lt_of_le_of_ne floor fun same => exact ?_
        rcases Nat.eq_zero_or_pos (oi + stored) with none | some
        · rw [none, Nat.zero_mod]
        · have one : mult = 1 := by
            by_contra ne
            rcases Nat.lt_or_gt_of_ne ne with less | more
            · obtain rfl : mult = 0 := by omega
              rw [Nat.div_zero] at same
              omega
            · exact (Nat.div_lt_self some more).ne same
          rw [one, Nat.mod_one]
      exact lt
  unfold globalADustBound
  omega

/-- A fall of the multiplier pays for the dust it makes and for every position it leaves behind. -/
theorem Absorbed.dust_paid {q n : Nat} {l : List Event} (h : Absorbed d v q w l) (pos : 0 < q) (ok : SideOk v)
    (stored : v.storedPosCount ≤ MAX_MATERIALIZED_ACCOUNTS) (outdated : n ≤ v.storedPosCount) :
    w.adlEpoch = v.adlEpoch ∧ (w.adlMult = v.adlMult ∧ w.phantomDustBoundQ = v.phantomDustBoundQ ∨
      w.phantomDustBoundQ + n + DUST_PER_SHRINK * w.adlMult ≤ v.phantomDustBoundQ + DUST_PER_SHRINK * v.adlMult) := by
  cases h with
  | vacant stored => exact ⟨rfl, .inl ⟨rfl, rfl⟩⟩
  | drained k range => exact ⟨rfl, .inl ⟨rfl, rfl⟩⟩
  | shrunk k aNew bound mode range lt scaled live dust mode_eq =>
      refine ⟨rfl, .inr ?_⟩
      have fall : aNew + 1 ≤ v.adlMult := by
        rw [scaled]
        refine (Nat.div_lt_iff_lt_mul (by omega)).mpr ?_
        exact Nat.mul_lt_mul_of_pos_left (by omega) ok.mult_pos
      have bound_le : bound + n ≤ DUST_PER_SHRINK := by
        have created : bound ≤ v.storedPosCount + (v.oiEffQ + v.storedPosCount) := dust ▸ globalADustBound_le
        have oi := ok.oi_le
        unfold DUST_PER_SHRINK
        omega
      calc v.phantomDustBoundQ + bound + n + DUST_PER_SHRINK * aNew
          ≤ v.phantomDustBoundQ + DUST_PER_SHRINK * (aNew + 1) := by rw [Nat.mul_add]; omega
        _ ≤ v.phantomDustBoundQ + DUST_PER_SHRINK * v.adlMult :=
          Nat.add_le_add_left (Nat.mul_le_mul_left _ fall) _

/-- The positions left behind on a side are among those it stores. -/
theorem Books.outdated_le (h : Books s) (d : Side) (v : SideState) :
    tally s.usedSlots s.accounts (Account.outdated d v) ≤ (s.sides d).storedPosCount := by
  rw [h.stored d]
  exact tally_mono fun _ _ => Account.outdated_le_on

theorem Books.stored_le (h : Books s) (d : Side) : (s.sides d).storedPosCount ≤ MAX_MATERIALIZED_ACCOUNTS := by
  have single : tally s.usedSlots s.accounts (Account.on d) ≤ s.usedSlots.card := by
    rw [Finset.card_eq_sum_ones]
    exact Finset.sum_le_sum fun i _ => by unfold Account.on; split_ifs <;> omega
  rw [h.stored d]
  exact single.trans (h.materialized ▸ h.capacity)

theorem DustBounded.deleveraged {q f : Nat} {l : List Event} (h : DustBounded s) (books : Books s) (pos : 0 < q)
    (ok : SideOk (s.sides d.opposite)) (absorbed : Absorbed d.opposite (s.sides d.opposite) q v l) :
    DustBounded ((s.withInsuranceFund f).absorb d v) := by
  have outdated := books.outdated_le d.opposite (s.sides d.opposite)
  obtain ⟨epoch, moved⟩ := absorbed.dust_paid pos ok (books.stored_le _) le_rfl
  intro e
  have before := h e
  unfold RiskEngine.dustDue at before ⊢
  show (if e = d.opposite then v else _).phantomDustBoundQ +
    tally s.usedSlots s.accounts (Account.outdated e (if e = d.opposite then v else _)) +
    DUST_PER_SHRINK * (if e = d.opposite then v else _).adlMult ≤ _
  by_cases he : e = d.opposite
  · subst he
    simp only [if_true]
    rcases moved with ⟨mult, dust⟩ | paid
    · rw [Account.outdated_goes_on epoch mult, mult, dust]
      exact before
    · have left : tally s.usedSlots s.accounts (Account.outdated d.opposite v) ≤ (s.sides d.opposite).storedPosCount :=
        books.outdated_le d.opposite v
      omega
  · simp only [he, if_false]
    exact before

/-! ### Resets -/

/-- A side at the end of an instruction: drained, and with it the dust, or as it was. -/
theorem SideState.finalized_dust (v : SideState) (pending : Bool) :
    (v.finalized pending).adlEpoch = v.adlEpoch ∧ (v.finalized pending).adlMult = v.adlMult ∧
        (v.finalized pending).phantomDustBoundQ = v.phantomDustBoundQ ∨
      (v.finalized pending).adlEpoch = v.adlEpoch + 1 ∧ (v.finalized pending).adlMult = ADL_ONE ∧
        (v.finalized pending).phantomDustBoundQ = 0 := by
  unfold finalized
  rw [reopened_eq]
  split_ifs
  · exact .inr ⟨rfl, rfl, rfl⟩
  · exact .inl ⟨rfl, rfl, rfl⟩

/-- No position is of an epoch to come. -/
theorem Positions.outdated_next {ph : Phase} (h : Positions s ph) (epoch : w.adlEpoch = (s.sides d).adlEpoch + 1) :
    tally s.usedSlots s.accounts (Account.outdated d w) = 0 := by
  refine tally_eq_zero fun i used => if_neg ?_
  rintro ⟨side, snap, -⟩
  rcases (h.position i d (RiskEngine.mem_usedSlots.mp used) side).epoch with ⟨-, current⟩ | ⟨-, before⟩
  · omega
  · omega

theorem DustBounded.finalized {ph : Phase} (h : DustBounded s) (positions : Positions s ph) (slots : s'.usedSlots = s.usedSlots)
    (accounts : s'.accounts = s.accounts) (marks : Side → Bool) (f : Side → SideState)
    (same : ∀ d, (f d).adlEpoch = (s.sides d).adlEpoch ∧ (f d).adlMult = (s.sides d).adlMult ∧
      (f d).phantomDustBoundQ = (s.sides d).phantomDustBoundQ)
    (sides : ∀ d, s'.sides d = (f d).finalized (marks d)) : DustBounded s' := by
  intro d
  obtain ⟨epoch₀, mult₀, dust₀⟩ := same d
  have before := h d
  unfold RiskEngine.dustDue at before ⊢
  rw [slots, accounts, sides d]
  rcases (f d).finalized_dust (marks d) with ⟨epoch, mult, dust⟩ | ⟨epoch, mult, dust⟩
  · rw [Account.outdated_goes_on (epoch.trans epoch₀) (mult.trans mult₀), mult, mult₀, dust, dust₀]
    exact before
  · rw [positions.outdated_next (epoch.trans (by rw [epoch₀])), mult, dust]
    omega

/-! ### Runs -/

/-- Every step keeps the bound. -/
theorem Good.dust_step {sc : Scope} {c c' : Conf} {l : List Event} (good : Good c) (h : DustBounded c.engine)
    (step : Step sc c l c') : DustBounded c'.engine := by
  have books := good.books
  cases step with
  | noted | funded | clocked | checked | captured =>
      exact h.keep rfl rfl (fun _ => rfl) (fun _ => rfl) fun _ => rfl
  | booked used reach entry => exact h.put_same used rfl rfl rfl entry.exact.position
  | charged used reach allowed charge => exact h.put_same used rfl rfl rfl charge.exact.position
  | forgave used reach calm forgiven => exact h.put_same used rfl rfl rfl forgiven.exact.position
  | @relabeled s ph i a used reach same slot =>
      exact h.put_same (t := s.setAccount i a) used rfl rfl rfl (by rw [same]; exact .refl _)
  | accrued rest fresh live fits accrued =>
      refine h.keep (by rw [accrued.eq]; rfl) (by rw [accrued.eq]) (fun d => ?_) (fun d => ?_) fun d => ?_
      all_goals rw [accrued.side d]
  | settled used reach touched live closing calm scope settled =>
      exact h.settled used ((good.positions live).side _).mult_pos settled
  | slipped legs used reach allowed live leg same scope range pnl =>
      exact h.put_same used rfl rfl rfl pnl.same.position
  | traded usedA usedB reachA reachB allowedA allowedB touchedA touchedB live pending closing trading
      syncedA syncedB traded =>
      obtain ⟨s₁, s₂, f, g, hA, hB, rfl⟩ := traded.legs
      have h₁ := h.attached usedA hA
      have h₂ := h₁.attached (by rw [hA.eq]; exact usedB) hB
      exact h₂.keep rfl rfl (fun _ => rfl) (fun _ => rfl) fun _ => rfl
  | closed allowed used reach touched live pending closing calm closed =>
      obtain ⟨f, attached⟩ := closed.attached
      exact h.attached used attached
  | deleveraged marks used live pending closing pos fund absorbed marked =>
      exact h.deleveraged books pos ((good.positions live).side _) absorbed
  | @reset s ph oi marks live closing scheduled drained =>
      exact h.finalized (good.positions live) rfl rfl marks (fun d => (s.sides d).withOi (oi d))
        (fun _ => ⟨rfl, rfl, rfl⟩) fun _ => rfl
  | reopened =>
      refine h.keep rfl rfl (fun d => ?_) (fun d => ?_) fun d => ?_
      all_goals
        rw [RiskEngine.withSides_sides, SideState.reopened_eq]
  | materialized allowed reach live le materialized =>
      have sides := materialized.sides_eq
      exact h.slots (fun d => by rw [sides]) fun d v => materialized.tally (Account.outdated_flat rfl)
  | @freed s s' ph i allowed reach charges clean freed =>
      have sides : s'.swept.sides = s.sides := by rw [RiskEngine.swept_eq, freed.eq]; rfl
      have accounts : s'.swept.accounts = s'.accounts := by rw [RiskEngine.swept_eq]; rfl
      have slots : s'.swept.usedSlots = s'.usedSlots := by rw [RiskEngine.swept_eq]; rfl
      refine h.slots (fun d => by rw [sides]) fun d v => ?_
      rw [accounts, slots]
      exact freed.tally (Account.outdated_flat freed.freeable.2.2.1)
  | @resolved s ph price live now kDelta allowed rest mode le drained =>
      exact h.finalized (good.positions mode) rfl rfl (fun _ => true)
        (fun d => (s.enterResolved price live now kDelta).sides d) (fun _ => ⟨rfl, rfl, rfl⟩) fun _ => rfl
  | @wiped s ph i used reach mode =>
      exact h.put_same (t := s.setAccount i (s.accounts i).clearReserve) used rfl rfl rfl (.refl _)
  | reconciled used reach mode reconciled => exact h.reconciled used reconciled
  | @paid s s' ph i y used reach allowed mode paid =>
      rw [paid.eq]
      exact h.put_same (t := s.rebook i _ _) used rfl rfl rfl (.refl _)

/-- A run from a good configuration keeps the bound. -/
theorem DustBounded.run {sc : Scope} {c c' : Conf} {l : List Event} (h : DustBounded c.engine) (good : Good c)
    (run : Run (Step sc) c l c') : DustBounded c'.engine :=
  (run.invariant (I := fun c => Good c ∧ DustBounded c.engine)
    (fun _ _ _ kept step => ⟨kept.1.step step, kept.1.dust_step kept.2 step⟩) ⟨good, h⟩).2

/-- The dust of a side always has room for what one more close adds to it. -/
theorem DustBounded.room (h : DustBounded s) (d : Side) :
    (s.sides d).phantomDustBoundQ + DUST_PER_SHRINK ≤ U128_MAX := by
  have bound := h d
  have budget : DUST_PER_SHRINK * ADL_ONE + DUST_PER_SHRINK ≤ U128_MAX := by decide
  unfold RiskEngine.dustDue at bound
  omega

end Percolator
