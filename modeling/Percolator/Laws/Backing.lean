import Percolator.Laws.Forward

/-!
What the vault owes.

The profit of a position is owed before anyone settles it. As long as no liquidation has scaled a side down, an
accrual takes from one side exactly what it gives to the other, and the vault covers every other movement of money.
-/

namespace Percolator

open Finset

variable {s s' : RiskEngine} {sc : Scope} {c c' : Conf} {l : List Event} {i : Nat} {d : Side} {ph ph' : Phase}

/-! ### What is owed -/

/-- The exact profit of the position of an account since it was last settled. -/
def Account.gain (sides : Side → SideState) (a : Account) : ℚ :=
  match sideOfI128 a.positionBasisQ with
  | none => 0
  | some d => (a.exposure (sides d)).profit

/-- What an account is owed beyond its capital. -/
def Account.owed (sides : Side → SideState) (a : Account) : ℚ := a.pnl + a.gain sides

def RiskEngine.owed (s : RiskEngine) : ℚ := tally s.usedSlots s.accounts (Account.owed s.sides)

/-- What is left in the vault when everybody has been paid. -/
def RiskEngine.surplus (s : RiskEngine) : ℚ := s.vault - s.cTot - s.insuranceFund - s.owed

variable {a a' : Account} {t' : Totals} {sides sides' : Side → SideState}

theorem Account.gain_none (side : sideOfI128 a.positionBasisQ = none) : a.gain sides = 0 := by
  unfold gain
  rw [side]

theorem Account.gain_some (side : sideOfI128 a.positionBasisQ = some d) :
    a.gain sides = (a.exposure (sides d)).profit := by
  unfold gain
  rw [side]

/-- The gain depends on the position and on the pools alone. -/
theorem Account.gain_congr (same : a.SamePosition a') (pools : ∀ d, (sides' d).pool = (sides d).pool) :
    a'.gain sides' = a.gain sides := by
  obtain ⟨basis, aBasis, kSnap, fSnap, snap⟩ := same
  unfold gain
  rw [basis]
  cases sideOfI128 a.positionBasisQ with
  | none => rfl
  | some d =>
      have stake : a'.stake = a.stake := by
        unfold stake
        rw [basis, aBasis, kSnap, fSnap, snap]
      dsimp only
      unfold exposure
      rw [stake, pools d]

/-- A settled position has gained nothing yet. -/
theorem Account.Synced.gain (h : a.Synced sides) : a.gain sides = 0 := by
  cases side : sideOfI128 a.positionBasisQ with
  | none => exact Account.gain_none side
  | some d =>
      have at_indices := h d side
      rw [Account.gain_some side, Account.exposure_profit, at_indices]
      simp

/-- What settling realizes is at most the exact gain. -/
theorem RiskEngine.due_le_gain (s : RiskEngine) (i : Nat) : (s.due i : ℚ) ≤ (s.accounts i).gain s.sides := by
  cases side : sideOfI128 (s.accounts i).positionBasisQ with
  | none => rw [RiskEngine.due_none side, Account.gain_none side, Int.cast_zero]
  | some d =>
      rw [RiskEngine.due_some side, Account.gain_some side, ← Account.exposure_profit_floor]
      exact Int.floor_le _

/-- Everybody is owed what they were. -/
theorem RiskEngine.owed_congr (slots : s'.usedSlots = s.usedSlots)
    (accounts : ∀ i ∈ s.usedSlots, (s'.accounts i).owed s'.sides = (s.accounts i).owed s.sides) : s'.owed = s.owed := by
  unfold owed
  rw [slots]
  exact sum_congr rfl accounts

/-- One account is owed something else. -/
theorem RiskEngine.owed_put (used : s.isUsed i = true) (slots : s'.usedSlots = s.usedSlots)
    (accounts : s'.accounts = put s.accounts i a) (pools : ∀ d, (s'.sides d).pool = (s.sides d).pool) :
    s'.owed + (s.accounts i).owed s.sides = s.owed + a.owed s.sides := by
  have moved : s'.owed = tally s.usedSlots (put s.accounts i a) (Account.owed s.sides) := by
    unfold owed
    rw [slots, accounts]
    refine sum_congr rfl fun j _ => ?_
    unfold Account.owed
    rw [Account.gain_congr (.refl _) pools]
  rw [moved]
  exact tally_put (RiskEngine.mem_usedSlots.mpr used)

/-! ### An accrual creates nothing -/

/-- The open interest of a side, as its accounts hold it. -/
theorem Account.exposure_size (side : sideOfI128 a.positionBasisQ = some d) (v : SideState) :
    (a.exposure v).size = a.share d v := by
  unfold share
  by_cases epoch : a.adlEpochSnap = v.adlEpoch
  · rw [exposure_current epoch, if_pos ⟨side, epoch⟩]
    ring
  · rw [exposure_closed epoch, if_neg fun both => epoch both.2]

/-- What one unit of a long position gains from an accrual, and one of a short position loses. -/
def RiskEngine.unitGain (s : RiskEngine) (now price : Nat) (rate : Int) : ℚ :=
  (((price - s.lastOraclePrice : Int) : ℚ) - s.fundPxLast * rate * (now - s.lastMarketSlot : Nat) / FUNDING_DEN) /
    POS_SCALE

/-- The signed exact size of the position of an account. -/
def Account.signedShare (sides : Side → SideState) (a : Account) : ℚ :=
  a.share .long (sides .long) - a.share .short (sides .short)

theorem Account.signedShare_some (side : sideOfI128 a.positionBasisQ = some d) :
    a.signedShare sides = d.sign * a.share d (sides d) := by
  have other : a.share d.opposite (sides d.opposite) = 0 := by
    unfold share
    rw [if_neg]
    rintro ⟨at_other, -⟩
    exact d.opposite_ne (Option.some.inj (at_other.symm.trans side))
  unfold signedShare
  cases d with
  | long =>
      rw [show a.share .short (sides .short) = 0 from other]
      simp [Side.sign]
  | short =>
      rw [show a.share .long (sides .long) = 0 from other]
      simp [Side.sign]

theorem Account.signedShare_none (side : sideOfI128 a.positionBasisQ = none) : a.signedShare sides = 0 := by
  unfold signedShare share
  rw [side]
  simp

/-- An accrual gives each account its share of the unit gain. -/
theorem Good.accrued_gain {now price : Nat} {rate : Int} (h : Good c)
    (step : Step sc c [.accrued (price - c.engine.lastOraclePrice) c.engine.fundPxLast rate
      (now - c.engine.lastMarketSlot)] c') (live : c'.engine.marketMode = .live) (used : c.engine.isUsed i = true) :
    (c.engine.accounts i).gain c'.engine.sides = (c.engine.accounts i).gain c.engine.sides +
      (c.engine.accounts i).signedShare c.engine.sides * c.engine.unitGain now price rate := by
  cases side : sideOfI128 (c.engine.accounts i).positionBasisQ with
  | none => rw [Account.gain_none side, Account.gain_none side, Account.signedShare_none side, zero_mul, add_zero]
  | some d =>
      have moved := h.eager_step step live used side
      rw [eagerly_one (m := _) rfl] at moved
      rw [Account.gain_some side, Account.gain_some side, Account.signedShare_some side, moved,
        ← Account.exposure_size side]
      simp only [Exposure.after, RiskEngine.unitGain]
      ring

/-- Nobody is paid by an accrual that somebody else does not pay for. -/
theorem Good.accrued_owed {now price : Nat} {rate : Int} (h : Good ⟨s, ph⟩) (rest : ph.AtRest)
    (live : s.marketMode = .live) (dustless : ∀ d, (s.sides d).phantomDustBoundQ = 0)
    (step : Step sc ⟨s, ph⟩ [.accrued (price - s.lastOraclePrice) s.fundPxLast rate (now - s.lastMarketSlot)] ⟨s', ph⟩)
    (accrued : Accrued s s' now price rate) : s'.owed = s.owed := by
  have live' : s'.marketMode = .live := by
    rw [accrued.eq]
    exact live
  have accounts : s'.accounts = s.accounts := by rw [accrued.eq]
  have slots : s'.usedSlots = s.usedSlots := by
    rw [accrued.eq]
    rfl
  have positions : Positions s ph := h.positions live
  have shares (d : Side) : s.shares d = (s.sides d).oiEffQ := by
    have cover := positions.cover d (rest.pending d)
    have none : ph.closedOn d = 0 := by
      unfold Phase.closedOn
      rw [rest.closing]
    have le := cover.le
    have ge := cover.ge
    rw [none, dustless d] at ge
    rw [none] at le
    push_cast at le ge
    linarith
  have balanced : (s.sides .long).oiEffQ = (s.sides .short).oiEffQ := h.balanced
  have each : ∀ i ∈ s.usedSlots, (s'.accounts i).owed s'.sides =
      (s.accounts i).owed s.sides + (s.accounts i).signedShare s.sides * s.unitGain now price rate := by
    intro i hi
    have gained := h.accrued_gain step live' (RiskEngine.mem_usedSlots.mp hi)
    rw [accounts]
    unfold Account.owed
    rw [gained, add_assoc]
  have sum : s'.owed = s.owed + (s.shares .long - s.shares .short) * s.unitGain now price rate := by
    unfold RiskEngine.owed RiskEngine.shares tally
    rw [slots, sum_congr rfl each, sum_add_distrib, ← sum_mul, ← sum_sub_distrib]
    rfl
  rw [sum, shares, shares, balanced, sub_self, zero_mul, add_zero]

/-! ### The invariant -/

/-- A market that has let nobody off his losses: no side was scaled down or drained, an account without a position has
no loss, and the vault covers what everybody is owed. -/
structure Solvent (c : Conf) : Prop where
  normal : ∀ d, (c.engine.sides d).sideMode = .normal
  dustless : ∀ d, (c.engine.sides d).phantomDustBoundQ = 0
  unscaled : ∀ i d, c.engine.isUsed i = true → sideOfI128 (c.engine.accounts i).positionBasisQ = some d →
    (c.engine.accounts i).adlABasis = (c.engine.sides d).adlMult
  lossless : ∀ i, c.engine.isUsed i = true → (c.engine.accounts i).positionBasisQ = 0 → i ∉ c.phase.trading →
    0 ≤ (c.engine.accounts i).pnl
  pending : ∀ d, c.phase.pending d = false
  closing : c.phase.closing = none
  backed : 0 ≤ c.engine.surplus + c.phase.owed

/-- What a movement of money on account `i` may do: the account gets no more than the others and the vault give. -/
def PaidFor (s : RiskEngine) (i : Nat) (a' : Account) (t' : Totals) : Prop :=
  (s.vault : Int) + t'.cTot + t'.insuranceFund + a'.pnl ≤ t'.vault + s.cTot + s.insuranceFund + (s.accounts i).pnl

theorem Entry.money (h : Entry s i a' t' l) : PaidFor s i a' t' := by
  unfold PaidFor
  cases h with
  | deposited amount cap =>
      simp only [RiskEngine.totals, Account.withCapital_pnl]
      omega
  | debtPaid amount cap le_debt =>
      simp only [RiskEngine.totals, Account.withFeeCredits_pnl]
      omega
  | lossPaid pay n le_capital le_tot le_loss full count =>
      simp only [RiskEngine.totals, Account.withPnl_pnl]
      omega
  | feeSwept pay le_capital le_tot le_debt =>
      simp only [RiskEngine.totals, Account.withFeeCredits_pnl, Account.withCapital_pnl]
      omega
  | converted x y live pos le le_released le_matured le_tot backed =>
      simp only [RiskEngine.totals, Account.withCapital_pnl, Account.withPnl_pnl]
      omega
  | warmed r a' l live events warm =>
      simp only [RiskEngine.totals, warm.pnl_eq]
      omega
  | accelerated live fits =>
      simp only [RiskEngine.totals, Account.clearReserve_pnl]
      omega

/-- No entry makes a loss. -/
theorem Entry.lossless (h : Entry s i a' t' l) (nonneg : 0 ≤ (s.accounts i).pnl) : 0 ≤ a'.pnl := by
  cases h with
  | deposited | debtPaid | feeSwept | accelerated => exact nonneg
  | lossPaid pay n le_capital le_tot le_loss full count =>
      simp only [Account.withPnl_pnl]
      omega
  | converted x y live pos le le_released le_matured le_tot backed =>
      simp only [Account.releasedPos, i128ClampPos] at le_released
      simp only [Account.withCapital_pnl, Account.withPnl_pnl]
      omega
  | warmed r a' l live events warm =>
      rw [warm.pnl_eq]
      exact nonneg

theorem Charge.money (h : Charge s i a' t') : PaidFor s i a' t' := by
  unfold PaidFor
  rw [h.pnl]
  cases h with
  | feeCharged paid debt le_capital le_tot ge =>
      simp only [RiskEngine.totals]
      omega
  | paidOut amount le_capital le_tot le_vault =>
      simp only [RiskEngine.totals]
      omega
  | reclaimed le_tot =>
      simp only [RiskEngine.totals]
      omega
  | debtForgiven => exact le_rfl

/-- The surplus after money moved on account `i`. -/
theorem RiskEngine.surplus_rebook (t' : Totals) (used : s.isUsed i = true)
    (same : (s.accounts i).SamePosition a') :
    (s.rebook i a' t').surplus = s.surplus + (((t'.vault + s.cTot + s.insuranceFund + (s.accounts i).pnl : Int) -
      (s.vault + t'.cTot + t'.insuranceFund + a'.pnl) : Int) : ℚ) := by
  have moved : (s.rebook i a' t').owed + (s.accounts i).owed s.sides = s.owed + a'.owed s.sides :=
    RiskEngine.owed_put used rfl rfl fun _ => rfl
  have gain : a'.gain s.sides = (s.accounts i).gain s.sides := Account.gain_congr same fun _ => rfl
  unfold Account.owed at moved
  rw [gain] at moved
  unfold surplus
  simp only [rebook_vault, rebook_cTot, rebook_insuranceFund]
  push_cast
  linarith

/-- Money moves on an account, by `δ` more than is there for it. -/
theorem Solvent.rebooked {δ : Int} (h : Solvent ⟨s, ph⟩) (used : s.isUsed i = true)
    (same : (s.accounts i).SamePosition a') (pending : ph'.pending = ph.pending) (closing : ph'.closing = ph.closing)
    (trading : ∀ j ∉ ph'.trading, j ∉ ph.trading) (owed : ph'.owed = ph.owed + δ)
    (money : PaidFor s i (a'.withPnl (a'.pnl - δ)) t')
    (lossless : i ∉ ph'.trading → 0 ≤ (s.accounts i).pnl → 0 ≤ a'.pnl) : Solvent ⟨s.rebook i a' t', ph'⟩ := by
  refine ⟨h.normal, h.dustless, ?_, ?_, ?_, closing.trans h.closing, ?_⟩
  · intro j d usedj side
    by_cases hj : j = i
    · subst hj
      simp only [RiskEngine.rebook_accounts, put_same] at side ⊢
      rw [same.1] at side
      rw [same.2.1]
      exact h.unscaled j d used side
    · simp only [RiskEngine.rebook_accounts, put_other _ _ hj] at side ⊢
      exact h.unscaled j d usedj side
  · intro j usedj flat out
    by_cases hj : j = i
    · subst hj
      simp only [RiskEngine.rebook_accounts, put_same] at flat ⊢
      rw [same.1] at flat
      exact lossless out (h.lossless j used flat (trading j out))
    · simp only [RiskEngine.rebook_accounts, put_other _ _ hj] at flat ⊢
      exact h.lossless j usedj flat (trading j out)
  · intro d
    rw [pending]
    exact h.pending d
  · have backed := h.backed
    have surplus := RiskEngine.surplus_rebook t' used same
    have enough : (0 : Int) ≤ (t'.vault + s.cTot + s.insuranceFund + (s.accounts i).pnl : Int) -
        (s.vault + t'.cTot + t'.insuranceFund + a'.pnl) + δ := by
      unfold PaidFor at money
      simp only [Account.withPnl_pnl] at money
      omega
    have enough : ((0 : Int) : ℚ) ≤ _ := Int.cast_le.mpr enough
    dsimp only at backed ⊢
    rw [surplus, owed]
    push_cast at enough ⊢
    linarith

/-- Other sides, whose pools, modes and dust are the same. -/
theorem Solvent.withSides {f : Side → SideState} (h : Solvent ⟨s, ph⟩) (pools : ∀ d, (f d).pool = (s.sides d).pool)
    (normal : ∀ d, (f d).sideMode = .normal) (dustless : ∀ d, (f d).phantomDustBoundQ = 0)
    (mult : ∀ d, (f d).adlMult = (s.sides d).adlMult) (pending : ∀ d, ph'.pending d = false)
    (closing : ph'.closing = none) (trading : ph'.trading = ph.trading) (owed : ph'.owed = ph.owed) :
    Solvent ⟨s.withSides f, ph'⟩ := by
  refine ⟨normal, dustless, fun j d used side => ?_, fun j used flat out => ?_, pending, closing, ?_⟩
  · show _ = (f d).adlMult
    rw [mult]
    exact h.unscaled j d used side
  · exact h.lossless j used flat (trading ▸ out)
  · have same : (s.withSides f).owed = s.owed := by
      refine RiskEngine.owed_congr rfl fun i _ => ?_
      unfold Account.owed
      exact congrArg _ (Account.gain_congr (.refl _) pools)
    have backed := h.backed
    unfold RiskEngine.surplus at backed ⊢
    dsimp only at backed ⊢
    rw [same, owed]
    exact backed

/-- A position at the multiplier of its side leaves no dust behind. -/
theorem Account.orphaned_unscaled {v : SideState} (h : sideOfI128 a.positionBasisQ = some d → a.adlABasis = v.adlMult) :
    a.orphaned d v = 0 := by
  unfold orphaned
  refine if_neg ?_
  rintro ⟨side, -, -, rest⟩
  rw [h side, Nat.mul_mod_left] at rest
  exact rest rfl

/-- One leg of a trade is attached. -/
theorem Solvent.attached {q : Int} {f : Side → Seats} (h : Solvent ⟨s, ph⟩) (used : s.isUsed i = true)
    (synced : (s.accounts i).Synced s.sides) (leg : i ∈ ph.trading) (attached : Attached s s' i q f) :
    Solvent ⟨s', ph⟩ := by
  have sides (d : Side) : s'.sides d = (s.sides d).withSeats (f d) := attached.sides_eq d
  have slots : s'.usedSlots = s.usedSlots := by
    rw [attached.eq]
    rfl
  have isUsed (j : Nat) : s'.isUsed j = s.isUsed j := by
    rw [attached.eq]
    rfl
  have accounts : s'.accounts = put s.accounts i ((s.accounts i).attachedTo s.sides q) := by
    rw [attached.eq]
    rfl
  refine ⟨fun d => ?_, fun d => ?_, fun j d usedj side => ?_, fun j usedj flat out => ?_, h.pending, h.closing, ?_⟩
  · rw [sides d]
    exact h.normal d
  · rw [sides d, SideState.withSeats_phantomDustBoundQ, attached.dust d, Account.orphaned_unscaled (h.unscaled i d used)]
    exact h.dustless d
  · rw [isUsed] at usedj
    rw [sides d]
    show _ = (s.sides d).adlMult
    rw [accounts] at side ⊢
    by_cases hj : j = i
    · subst hj
      rw [put_same] at side ⊢
      rw [Account.attachedTo_side] at side
      unfold Account.attachedTo
      rw [side]
      rfl
    · rw [put_other _ _ hj] at side ⊢
      exact h.unscaled j d usedj side
  · rw [isUsed] at usedj
    have hj : j ≠ i := fun same => out (same ▸ leg)
    rw [accounts, put_other _ _ hj] at flat ⊢
    exact h.lossless j usedj flat out
  · have moved := RiskEngine.owed_put used slots accounts fun d => by
      rw [sides d]
      rfl
    have pnl : ((s.accounts i).attachedTo s.sides q).pnl = (s.accounts i).pnl := by
      unfold Account.attachedTo
      cases sideOfI128 q <;> rfl
    have before := synced.gain
    have after := ((s.accounts i).synced_attachedTo s.sides q).gain
    unfold Account.owed at moved
    rw [before, after, pnl] at moved
    have backed := h.backed
    have same : s'.surplus = s.surplus := by
      unfold RiskEngine.surplus
      have owed : s'.owed = s.owed := by linarith
      rw [owed, attached.eq]
      rfl
    dsimp only at backed ⊢
    rw [same]
    exact backed

/-- An account settles. -/
theorem Solvent.settled {instant : Prop} {δ : Int} {a'' : Account} {f : Side → Seats} (h : Solvent ⟨s, ph⟩)
    (good : Good ⟨s, ph⟩) (live : s.marketMode = .live) (used : s.isUsed i = true)
    (settled : Settled s s' i d instant δ a' t' a'' f) : Solvent ⟨s', { ph with dirty := true }⟩ := by
  have positions : Positions s ph := good.positions live
  have position : PositionOk (s.sides d) (s.accounts i) := positions.position i d used settled.side
  have unscaled := h.unscaled i d used settled.side
  have realized := (settled.realizes (good.aligned live) used position.basis_pos).realized
  have le := s.due_le_gain i
  have same := settled.pnl.same.position
  have basis : 0 < (s.accounts i).positionBasisQ.natAbs := by
    have side := settled.side
    have := sideOfI128_eq_some.mp side
    cases d <;> simp only at this <;> omega
  have sides (e : Side) : s'.sides e = (s.sides e).withSeats (f e) := by
    rw [settled.eq]
    rfl
  have isUsed (j : Nat) : s'.isUsed j = s.isUsed j := by
    rw [settled.eq]
    rfl
  have slots : s'.usedSlots = s.usedSlots := by
    rw [settled.eq]
    rfl
  have accounts : s'.accounts = put s.accounts i a'' := by
    rw [settled.eq]
    exact put_put _ _ _ _
  obtain ⟨kept, seats⟩ : a'' = a'.withSnaps (s.sides d).adlCoeff (s.sides d).fNum (s.sides d).adlEpoch ∧
      ∀ e, f e = (s.sides e).seats := by
    cases settled.position with
    | kept epoch pos => exact ⟨rfl, fun _ => rfl⟩
    | dusted n epoch zero stored =>
        rw [same.1, same.2.1, unscaled, Nat.mul_div_cancel _ (unscaled ▸ position.basis_pos)] at zero
        omega
    | stale n m mode epoch stored stale => exact absurd (mode.symm.trans (h.normal d)) (by rintro ⟨⟩)
  have gear (e : Side) : s'.sides e = s.sides e := by
    rw [sides e, seats e]
    rfl
  refine ⟨fun e => ?_, fun e => ?_, fun j e usedj side => ?_, fun j usedj flat out => ?_, h.pending, h.closing, ?_⟩
  · rw [gear e]
    exact h.normal e
  · rw [gear e]
    exact h.dustless e
  · rw [isUsed] at usedj
    rw [gear e]
    rw [accounts] at side ⊢
    by_cases hj : j = i
    · subst hj
      rw [put_same, kept] at side ⊢
      have side : sideOfI128 a'.positionBasisQ = some e := side
      rw [same.1] at side
      show a'.adlABasis = _
      rw [same.2.1]
      exact h.unscaled j e used side
    · rw [put_other _ _ hj] at side ⊢
      exact h.unscaled j e usedj side
  · rw [isUsed] at usedj
    rw [accounts] at flat ⊢
    by_cases hj : j = i
    · subst hj
      rw [put_same, kept] at flat
      have flat : a'.positionBasisQ = 0 := flat
      rw [same.1] at flat
      omega
    · rw [put_other _ _ hj] at flat ⊢
      exact h.lossless j usedj flat out
  · have moved := RiskEngine.owed_put used slots accounts fun e => by rw [gear e]
    have synced : a''.Synced s.sides := settled.position.synced (same.1 ▸ settled.side) fun _ => rfl
    have pnl : (s'.accounts i).pnl = a''.pnl := by rw [accounts, put_same]
    unfold Account.owed at moved
    rw [synced.gain] at moved
    rw [pnl] at realized
    have realized : (a''.pnl : ℚ) - (s.accounts i).pnl = s.due i := by exact_mod_cast realized
    have frame : s'.vault = s.vault ∧ s'.cTot = s.cTot ∧ s'.insuranceFund = s.insuranceFund := by
      rw [settled.eq]
      simp only [RiskEngine.reseat_vault, RiskEngine.reseat_cTot, RiskEngine.reseat_insuranceFund,
        RiskEngine.rebook_vault, RiskEngine.rebook_cTot, RiskEngine.rebook_insuranceFund]
      rw [settled.pnl.frame]
      exact ⟨rfl, rfl, rfl⟩
    have backed := h.backed
    unfold RiskEngine.surplus at backed ⊢
    dsimp only at backed ⊢
    rw [frame.1, frame.2.1, frame.2.2]
    linarith

/-! ### A step -/

/-- An open side has nothing to open. -/
theorem SideState.reopened_normal {v : SideState} (h : v.sideMode = .normal) : v.reopened = v := by
  unfold reopened
  refine if_neg fun ready => ?_
  exact absurd (h.symm.trans ready.1) (by rintro ⟨⟩)

/-- The position of an account in a solvent market is what it was attached as. -/
theorem Solvent.whole (h : Solvent ⟨s, ph⟩) (good : Good ⟨s, ph⟩) (live : s.marketMode = .live) (used : s.isUsed i = true)
    {e : Int} (eff : effectivePosQ s i = some e) : e = (s.accounts i).positionBasisQ := by
  have positions : Positions s ph := good.positions live
  have value := positions.seated.effective used eff
  cases side : sideOfI128 (s.accounts i).positionBasisQ with
  | none =>
      rw [side] at value
      rw [value, sideOfI128_eq_none.mp side]
  | some d =>
      have position : PositionOk (s.sides d) (s.accounts i) := positions.position i d used side
      have epoch : (s.accounts i).adlEpochSnap = (s.sides d).adlEpoch := by
        rcases position.epoch with ⟨-, epoch⟩ | ⟨waiting, -⟩
        · exact epoch
        · exact absurd (waiting.symm.trans (h.normal d)) (by rintro ⟨⟩)
      have share : (s.accounts i).floorShare d (s.sides d) = (s.accounts i).positionBasisQ.natAbs := by
        unfold Account.floorShare
        rw [if_pos ⟨side, epoch⟩, h.unscaled i d used side]
        exact Nat.mul_div_cancel _ (positions.side d).mult_pos
      rw [side] at value
      dsimp only at value
      rw [value, share]
      have sign := sideOfI128_eq_some.mp side
      cases d with
      | long =>
          have sign : 0 < (s.accounts i).positionBasisQ := sign
          rw [Side.sign, one_mul, Int.natAbs_of_nonneg sign.le]
      | short =>
          have sign : (s.accounts i).positionBasisQ < 0 := sign
          rw [Side.sign, Int.ofNat_natAbs_of_nonpos sign.le, neg_mul_neg, one_mul]

/-- Nobody in a solvent market is forgiven a loss. -/
theorem Solvent.unforgiving (h : Solvent ⟨s, ph⟩) (good : Good ⟨s, ph⟩) (live : s.marketMode = .live)
    (used : s.isUsed i = true) (calm : ph.trading = []) : ¬ Forgiven s i a' t' l := by
  rintro ⟨draw, n, flat, neg, -⟩
  have basis := h.whole good live used flat
  have nonneg := h.lossless i used basis.symm (by rw [calm]; exact List.not_mem_nil)
  dsimp only at nonneg
  omega

theorem Solvent.accrued {now price : Nat} {rate : Int} (h : Solvent ⟨s, ph⟩) (good : Good ⟨s, ph⟩) (rest : ph.AtRest)
    (live : s.marketMode = .live)
    (step : Step sc ⟨s, ph⟩ [.accrued (price - s.lastOraclePrice) s.fundPxLast rate (now - s.lastMarketSlot)] ⟨s', ph⟩)
    (accrued : Accrued s s' now price rate) : Solvent ⟨s', ph⟩ := by
  have owed := good.accrued_owed rest live h.dustless step accrued
  have accounts : s'.accounts = s.accounts := by rw [accrued.eq]
  have isUsed (j : Nat) : s'.isUsed j = s.isUsed j := by
    rw [accrued.eq]
    rfl
  refine ⟨fun d => ?_, fun d => ?_, fun j d used side => ?_, fun j used flat out => ?_, h.pending, h.closing, ?_⟩
  · rw [accrued.side d]
    exact h.normal d
  · rw [accrued.side d]
    exact h.dustless d
  · rw [isUsed] at used
    rw [accounts] at side ⊢
    rw [accrued.side d]
    exact h.unscaled j d used side
  · rw [isUsed] at used
    rw [accounts] at flat ⊢
    exact h.lossless j used flat out
  · have backed := h.backed
    unfold RiskEngine.surplus at backed ⊢
    dsimp only at backed ⊢
    rw [owed, accrued.eq]
    exact backed

/-- The vault and the clocks move, and nobody else does. -/
theorem Solvent.same (h : Solvent ⟨s, ph⟩) (sides : s'.sides = s.sides) (accounts : s'.accounts = s.accounts)
    (isUsed : s'.isUsed = s.isUsed) (slots : s'.usedSlots = s.usedSlots)
    (money : (s'.vault : Int) - s'.cTot - s'.insuranceFund = s.vault - s.cTot - s.insuranceFund) : Solvent ⟨s', ph⟩ := by
  refine ⟨fun d => ?_, fun d => ?_, fun j d used side => ?_, fun j used flat out => ?_, h.pending, h.closing, ?_⟩
  · rw [sides]
    exact h.normal d
  · rw [sides]
    exact h.dustless d
  · rw [isUsed] at used
    rw [accounts] at side ⊢
    rw [sides]
    exact h.unscaled j d used side
  · rw [isUsed] at used
    rw [accounts] at flat ⊢
    exact h.lossless j used flat out
  · have owed : s'.owed = s.owed := RiskEngine.owed_congr slots fun i _ => by rw [accounts, sides]
    have money : (s'.vault : ℚ) - s'.cTot - s'.insuranceFund = s.vault - s.cTot - s.insuranceFund := by
      exact_mod_cast money
    have backed := h.backed
    unfold RiskEngine.surplus at backed ⊢
    dsimp only at backed ⊢
    rw [owed, money]
    exact backed

theorem Solvent.materialized {slot : Nat} (h : Solvent ⟨s, ph⟩) (materialized : Materialized s s' i slot) :
    Solvent ⟨s', ph⟩ := by
  have sides : s'.sides = s.sides := by rw [materialized.eq]
  have isUsed := materialized.toSameButSlots.isUsed materialized.lt
  have accounts := materialized.toSameButSlots.accounts_eq
  refine ⟨fun d => ?_, fun d => ?_, fun j d used side => ?_, fun j used flat out => ?_, h.pending, h.closing, ?_⟩
  · rw [sides]
    exact h.normal d
  · rw [sides]
    exact h.dustless d
  · rw [accounts] at side ⊢
    rw [sides]
    by_cases hj : j = i
    · subst hj
      rw [put_same] at side
      cases side
    · rw [isUsed, if_neg hj] at used
      rw [put_other _ _ hj] at side ⊢
      exact h.unscaled j d used side
  · rw [accounts] at flat ⊢
    by_cases hj : j = i
    · subst hj
      rw [put_same]
      exact le_rfl
    · rw [isUsed, if_neg hj] at used
      rw [put_other _ _ hj] at flat ⊢
      exact h.lossless j used flat out
  · have empty : (emptyAccount.withLastFeeSlot slot).owed s.sides = 0 := by
      unfold Account.owed
      rw [Account.gain_none rfl]
      exact add_zero _
    have owed : s'.owed = s.owed := by
      unfold RiskEngine.owed
      rw [sides]
      exact materialized.tally empty
    have backed := h.backed
    unfold RiskEngine.surplus at backed ⊢
    dsimp only at backed ⊢
    rw [owed, materialized.eq]
    exact backed

/-- A slot is given up. -/
theorem Solvent.freed (h : Solvent ⟨s, ph⟩) (freed : Freed s s' i) : Solvent ⟨s', ph⟩ := by
  have isUsed := freed.toSameButSlots.isUsed (isUsed_lt freed.used)
  have accounts := freed.toSameButSlots.accounts_eq
  have sides : s'.sides = s.sides := by rw [freed.eq]
  refine ⟨fun d => ?_, fun d => ?_, fun j d used side => ?_, fun j used flat out => ?_, h.pending, h.closing, ?_⟩
  · rw [sides]
    exact h.normal d
  · rw [sides]
    exact h.dustless d
  · rw [accounts] at side ⊢
    rw [sides]
    by_cases hj : j = i
    · subst hj
      rw [put_same] at side
      cases side
    · rw [isUsed, if_neg hj] at used
      rw [put_other _ _ hj] at side ⊢
      exact h.unscaled j d used side
  · rw [accounts] at flat ⊢
    by_cases hj : j = i
    · subst hj
      rw [put_same]
      exact le_rfl
    · rw [isUsed, if_neg hj] at used
      rw [put_other _ _ hj] at flat ⊢
      exact h.lossless j used flat out
  · have empty : (s.accounts i).owed s.sides = 0 := by
      obtain ⟨pnl, -, basis, -⟩ := freed.freeable
      unfold Account.owed
      rw [Account.gain_none (by rw [basis]; rfl), pnl, Int.cast_zero, add_zero]
    have owed : s'.owed = s.owed := by
      unfold RiskEngine.owed
      rw [sides]
      exact freed.tally empty
    have backed := h.backed
    unfold RiskEngine.surplus at backed ⊢
    dsimp only at backed ⊢
    rw [owed, freed.eq]
    exact backed

/-- The vault of a market without accounts owes nobody anything, and goes to insurance. -/
theorem Solvent.swept (h : Solvent ⟨s, ph⟩) (rest : ph.owed = 0) (none : s.usedSlots = ∅) (cTot : s.cTot = 0) :
    Solvent ⟨s.withInsuranceFund s.vault, ph⟩ := by
  refine ⟨h.normal, h.dustless, h.unscaled, h.lossless, h.pending, h.closing, ?_⟩
  have owed : (s.withInsuranceFund s.vault).owed = 0 := by
    unfold RiskEngine.owed
    show tally s.usedSlots _ _ = 0
    rw [none]
    rfl
  unfold RiskEngine.surplus
  dsimp only
  rw [owed, rest]
  simp [cTot]

/-- A step that liquidates nobody, drains no side and gives up no slot keeps a market solvent. -/
theorem Solvent.step (h : Solvent c) (good : Good c) (step : Step sc c l c') (calm : ¬ sc.liquidates)
    (fixed : ∀ i, sc.charges i → ¬ sc.slots) (live : c'.engine.marketMode = .live) (undrained : ∀ d, drains d l = 0) :
    Solvent c' := by
  have step' := step
  cases step with
  | noted i => exact ⟨h.normal, h.dustless, h.unscaled, h.lossless, h.pending, h.closing, h.backed⟩
  | booked used reach entry =>
      refine h.rebooked (δ := 0) used entry.exact.position rfl rfl (fun _ out => out) (add_zero _).symm ?_ fun _ => entry.lossless
      have money := entry.money
      unfold PaidFor at money ⊢
      rw [Account.withPnl_pnl, sub_zero]
      exact money
  | charged used reach allowed charge =>
      refine h.rebooked (δ := 0) used charge.exact.position rfl rfl (fun _ out => out) (add_zero _).symm ?_ fun _ nonneg => ?_
      · have money := charge.money
        unfold PaidFor at money ⊢
        rw [Account.withPnl_pnl, sub_zero]
        exact money
      · rw [charge.pnl]
        exact nonneg
  | forgave used reach calm' forgiven => exact absurd forgiven (h.unforgiving good live used calm')
  | @relabeled s ph i a used reach same slot =>
      have rest : a = { s.accounts i with kind := a.kind, owner := a.owner, lastFeeSlot := a.lastFeeSlot } := same
      have position : (s.accounts i).SamePosition a := by
        rw [rest]
        exact ⟨rfl, rfl, rfl, rfl, rfl⟩
      have pnl : a.pnl = (s.accounts i).pnl := by rw [rest]
      have money : PaidFor s i (a.withPnl (a.pnl - 0)) s.totals := by
        unfold PaidFor
        rw [Account.withPnl_pnl, sub_zero, pnl]
        exact le_rfl
      refine h.rebooked used position rfl rfl (fun _ out => out) (add_zero _).symm money fun _ nonneg => ?_
      rw [pnl]
      exact nonneg
  | funded amount cap =>
      refine h.same rfl rfl rfl rfl ?_
      simp only [RiskEngine.withInsuranceFund, RiskEngine.withVault]
      push_cast
      omega
  | clocked slot crank market clock => exact h.same rfl rfl rfl rfl rfl
  | accrued rest fresh live' fits accrued => exact h.accrued good rest live' step' accrued
  | settled used reach touched live' closing calm' scope settled => exact h.settled good live' used settled
  | @slipped s ph i instant δ a' t' legs used reach allowed live' leg same scope range pnl =>
      refine h.rebooked (δ := δ) used pnl.same.position rfl rfl (fun j out => ?_) rfl ?_ fun out => absurd leg out
      · rcases same with none | same
        · rw [none]
          exact List.not_mem_nil
        · rw [same]
          exact out
      · unfold PaidFor
        rw [Account.withPnl_pnl, pnl.pnl_eq, pnl.frame]
        simp only [RiskEngine.totals]
        omega
  | @traded s s' ph a b q oldA oldB after usedA usedB reachA reachB allowedA allowedB touchedA touchedB live' pending
      closing trading syncedA syncedB traded =>
      obtain ⟨s₁, s₂, f, g, hA, hB, rfl⟩ := traded.legs
      have first := h.attached usedA syncedA (by rw [trading]; exact List.mem_cons_self) hA
      have usedB' : s₁.isUsed b = true := by
        rw [hA.eq]
        exact usedB
      have syncedB' : (s₁.accounts b).Synced s₁.sides := by
        have other : s₁.accounts b = s.accounts b := by
          rw [hA.eq]
          exact put_other _ _ traded.ne.symm
        rw [other]
        exact syncedB.congr hA.synced.2
      have second := first.attached usedB' syncedB' (by rw [trading]; simp) hB
      exact second.withSides (fun _ => rfl) second.normal second.dustless (fun _ => rfl) h.pending h.closing rfl rfl
  | @checked s ph owed sound =>
      refine ⟨h.normal, h.dustless, h.unscaled, fun j used flat _ => ?_, h.pending, h.closing, h.backed⟩
      by_cases leg : j ∈ ph.trading
      · exact sound j leg flat
      · exact h.lossless j used flat leg
  | closed allowed => exact absurd allowed calm
  | deleveraged marks used live' pending closing => exact absurd (closing.symm.trans h.closing) (by rintro ⟨⟩)
  | @reset s ph oi marks live' closing scheduled drained =>
      have kept (d : Side) : ((s.sides d).withOi (oi d)).finalized (marks d) = (s.sides d).withOi (oi d) := by
        have none : ¬ (s.sides d).Drains (marks d) := by
          intro drains
          have one := drains_drainEvents (d := d) s.sides marks
          rw [if_pos drains, undrained d] at one
          cases one
        unfold SideState.finalized
        rw [if_neg (show ¬ ((s.sides d).withOi (oi d)).Drains (marks d) from none)]
        exact SideState.reopened_normal (h.normal d)
      refine h.withSides (fun d => ?_) (fun d => ?_) (fun d => ?_) (fun d => ?_) (fun _ => rfl) closing rfl rfl
      · rw [kept d]
        rfl
      · rw [kept d]
        exact h.normal d
      · rw [kept d]
        exact h.dustless d
      · rw [kept d]
        rfl
  | @reopened s ph =>
      have kept (d : Side) : (s.sides d).reopened = s.sides d := SideState.reopened_normal (h.normal d)
      refine h.withSides (fun d => ?_) (fun d => ?_) (fun d => ?_) (fun d => ?_) h.pending h.closing rfl rfl
      · rw [kept d]
      · rw [kept d]
        exact h.normal d
      · rw [kept d]
        exact h.dustless d
      · rw [kept d]
  | materialized allowed reach live' le materialized => exact h.materialized materialized
  | freed allowed reach charges clean freed => exact absurd allowed (fixed _ charges)
  | resolved => cases live
  | wiped used reach mode => exact absurd (live.symm.trans mode) (by rintro ⟨⟩)
  | reconciled used reach mode reconciled =>
      rw [reconciled.eq] at live
      exact absurd (live.symm.trans mode) (by rintro ⟨⟩)
  | captured mode => exact absurd (live.symm.trans mode) (by rintro ⟨⟩)
  | paid used reach allowed mode paid =>
      rw [paid.eq] at live
      exact absurd (live.symm.trans mode) (by rintro ⟨⟩)

/-- A run during which every side stays in its epoch keeps a market solvent. -/
theorem Course.solvent {l : List Event} (h : Course sc c l s ph) (good : Good c) (solvent : Solvent c) (calm : ¬ sc.liquidates)
    (fixed : ∀ i, sc.charges i → ¬ sc.slots) (live : s.marketMode = .live)
    (epochs : ∀ d, (s.sides d).adlEpoch = (c.engine.sides d).adlEpoch) : Solvent ⟨s, ph⟩ := by
  have undrained : ∀ d, drains d l = 0 := by
    intro d
    have moved := (h.run.forward d).epoch
    dsimp only at moved
    rw [epochs d] at moved
    omega
  obtain ⟨run, -⟩ := h
  generalize hc : (⟨s, ph⟩ : Conf) = c' at run ⊢
  replace live : c'.engine.marketMode = .live := by
    rw [← hc]
    exact live
  clear hc epochs
  induction run with
  | refl => exact solvent
  | tail run last ih =>
      have before := last.live_before live
      have apart (d : Side) := undrained d
      simp only [drains, List.countP_append, Nat.add_eq_zero_iff] at apart
      refine (ih (fun d => (apart d).1) before).step ?_ last calm fixed live fun d => (apart d).2
      exact run.invariant (fun _ _ _ good step => good.step step) good

end Percolator
