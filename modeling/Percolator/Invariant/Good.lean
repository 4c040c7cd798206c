import Mathlib.Data.Rat.Defs
import Mathlib.Algebra.Order.Field.Rat
import Percolator.Machine.Step

/-!
The invariant of the machine: the books, the clocks, the reserves of a Live market,
its positions, and the payouts of a resolved one.
-/

namespace Percolator

/-! ### The books -/

/-- The aggregates are sums over the slots in use, the vault covers the seniors, and
belongs to insurance when no slot is in use. -/
structure Books (s : RiskEngine) : Prop where
  cTot : s.cTot = tally s.usedSlots s.accounts Account.capital
  pos : s.pnlPosTot = tally s.usedSlots s.accounts Account.posPnl
  neg : s.negPnlAccountCount = tally s.usedSlots s.accounts Account.negPnl
  stored : ∀ d, (s.sides d).storedPosCount = tally s.usedSlots s.accounts (Account.on d)
  numUsed : s.numUsedAccounts = s.usedSlots.card
  materialized : s.materializedAccountCount = s.usedSlots.card
  fee : ∀ i, s.isUsed i = true → -I128_MAX ≤ (s.accounts i).feeCredits ∧ (s.accounts i).feeCredits ≤ 0
  pnl : ∀ i, s.isUsed i = true → I128_MIN < (s.accounts i).pnl
  capacity : s.materializedAccountCount ≤ MAX_MATERIALIZED_ACCOUNTS
  retired : s.numUsedAccounts = 0 → s.insuranceFund = s.vault
  backed : s.cTot + s.insuranceFund ≤ s.vault
  vault_le : s.vault ≤ MAX_VAULT_TVL

/-- The clocks of a market: it never leaves its accrual envelope, and nothing in it
comes from the future. -/
structure Timely (s : RiskEngine) : Prop where
  market_le : s.marketMode = .live → s.lastMarketSlot ≤ s.currentSlot
  within : s.marketMode = .live →
    s.currentSlot ≤ saturatingAddU64 s.lastMarketSlot s.params.maxAccrualDtSlots
  resolved : s.marketMode = .resolved → s.currentSlot = s.resolvedSlot
  fee : ∀ i, s.isUsed i = true → (s.accounts i).lastFeeSlot ≤ s.currentSlot
  started : s.marketMode = .live → ∀ i, s.isUsed i = true → (s.accounts i).StartedBy s.currentSlot
  price_pos : 0 < s.lastOraclePrice
  price_le : s.lastOraclePrice ≤ MAX_ORACLE_PRICE
  sampled : s.fundPxLast = s.lastOraclePrice
  params : s.params.Valid s.maxAccounts

/-- The reserve of every account is well shaped, and matured PnL is what is not reserved. -/
structure Reserves (s : RiskEngine) : Prop where
  shape : ∀ i, s.isUsed i = true → ReserveShape s.params (s.accounts i)
  matured : s.pnlMaturedPosTot = tally s.usedSlots s.accounts Account.releasedPos

/-! ### Positions -/

/-- The indices, the multiplier and the counters of a side. -/
structure SideOk (v : SideState) : Prop where
  mult_pos : 0 < v.adlMult
  mult_le : v.adlMult ≤ ADL_ONE
  coeff : InI128 v.adlCoeff
  fund : InI128 v.fNum
  startK : InI128 v.adlEpochStartK
  startF : InI128 v.fEpochStartNum
  epoch_le : v.adlEpoch ≤ U64_MAX
  oi_le : v.oiEffQ ≤ MAX_OI_SIDE_Q
  drained : v.sideMode = .resetPending → v.oiEffQ = 0
  dustless : v.sideMode = .resetPending → v.phantomDustBoundQ = 0
  stale : v.staleAccountCount = if v.sideMode = .resetPending then v.storedPosCount else 0

/-- A position on a side in state `v`: of the current epoch, or of the one before
while the side waits for its reset. -/
structure PositionOk (v : SideState) (a : Account) : Prop where
  bound : a.positionBasisQ.natAbs ≤ MAX_POSITION_ABS_Q
  basis_pos : 0 < a.adlABasis
  basis_le : a.adlABasis ≤ ADL_ONE
  kSnap : InI128 a.adlKSnap
  fSnap : InI128 a.fSnap
  epoch : v.sideMode ≠ .resetPending ∧ a.adlEpochSnap = v.adlEpoch ∨
    v.sideMode = .resetPending ∧ a.adlEpochSnap + 1 = v.adlEpoch

/-- The exact share of an account in the open interest of side `d`. -/
def Account.share (d : Side) (v : SideState) (a : Account) : ℚ :=
  if sideOfI128 a.positionBasisQ = some d ∧ a.adlEpochSnap = v.adlEpoch then
    a.positionBasisQ.natAbs * v.adlMult / a.adlABasis
  else 0

/-- `S`: the exact shares in side `d`. -/
def RiskEngine.shares (s : RiskEngine) (d : Side) : ℚ :=
  tally s.usedSlots s.accounts (Account.share d (s.sides d))

/-- What a liquidation has closed on side `d` and ADL has not yet taken off. -/
def Phase.closedOn (ph : Phase) (d : Side) : Nat :=
  match ph.closing with
  | some (_, e, q) => if e = d then q else 0
  | none => 0

/-- The open interest of a side covers the shares in it, up to the dust bound. -/
structure Covers (oi dust : Nat) (shares : ℚ) (closed : Nat) : Prop where
  le : shares + closed ≤ oi
  ge : (oi : ℚ) ≤ shares + closed + dust

/-- A side with nothing left to do: no drained side is still waiting, none is draining
empty, and one without positions has neither open interest nor dust. -/
structure Quiet (v : SideState) : Prop where
  waiting : v.sideMode = .resetPending → 0 < v.staleAccountCount
  draining : v.sideMode = .drainOnly → 0 < v.oiEffQ
  vacant : v.storedPosCount = 0 → v.oiEffQ = 0 ∧ v.phantomDustBoundQ = 0

/-- The sides are well formed and so is every position on them. -/
structure Seated (s : RiskEngine) : Prop where
  side : ∀ d, SideOk (s.sides d)
  position : ∀ i d, s.isUsed i = true → sideOfI128 (s.accounts i).positionBasisQ = some d →
    PositionOk (s.sides d) (s.accounts i)

/-- The positions of a Live market in a phase. -/
structure Positions (s : RiskEngine) (ph : Phase) : Prop where
  side : ∀ d, SideOk (s.sides d)
  position : ∀ i d, s.isUsed i = true → sideOfI128 (s.accounts i).positionBasisQ = some d →
    PositionOk (s.sides d) (s.accounts i)
  cover : ∀ d, ph.pending d = false →
    Covers (s.sides d).oiEffQ (s.sides d).phantomDustBoundQ (s.shares d) (ph.closedOn d)
  pending : ∀ d, ph.pending d = true → (s.sides d).oiEffQ = 0
  quiet : ph.dirty = false → ∀ d, Quiet (s.sides d)

/-! ### Terminal payouts -/

/-- What an account receives for its PnL at the ratio of the snapshot. -/
def Account.payout (hNum hDen : Nat) (a : Account) : Nat := a.posPnl * hNum / hDen

/-- A resolved market: every position left waits for its reset, nothing is open,
everything is matured, and once the snapshot is taken the vault covers all payouts
at its ratio. -/
structure Terminal (s : RiskEngine) : Prop where
  seated : Seated s
  waiting : ∀ d, (s.sides d).storedPosCount ≠ 0 → (s.sides d).sideMode = .resetPending
  oi : ∀ d, (s.sides d).oiEffQ = 0
  matured : s.pnlMaturedPosTot = s.pnlPosTot
  flat : s.resolvedPayoutReady = true → ∀ d, (s.sides d).storedPosCount = 0
  nonneg : s.resolvedPayoutReady = true → s.negPnlAccountCount = 0
  den_pos : s.resolvedPayoutReady = true → 0 < s.resolvedPayoutHDen
  covered : s.resolvedPayoutReady = true →
    s.cTot + s.insuranceFund +
      tally s.usedSlots s.accounts (Account.payout s.resolvedPayoutHNum s.resolvedPayoutHDen) ≤ s.vault

/-- The invariant. -/
structure Good (c : Conf) : Prop where
  books : Books c.engine
  timely : Timely c.engine
  balanced : (c.engine.sides .long).oiEffQ = (c.engine.sides .short).oiEffQ
  reserves : c.engine.marketMode = .live → Reserves c.engine
  positions : c.engine.marketMode = .live → Positions c.engine c.phase
  terminal : c.engine.marketMode = .resolved → Terminal c.engine

/-! ### Slots in use -/

section Used

variable {s : RiskEngine} {i : Nat}

theorem RiskEngine.mem_usedSlots : i ∈ s.usedSlots ↔ s.isUsed i = true := by
  simp [usedSlots, isUsed]

@[simp] theorem RiskEngine.rebook_usedSlots {a : Account} {t : Totals} :
    (s.rebook i a t).usedSlots = s.usedSlots := rfl

@[simp] theorem RiskEngine.reseat_usedSlots {a : Account} {f : Side → Seats} :
    (s.reseat i a f).usedSlots = s.usedSlots := rfl

@[simp] theorem RiskEngine.withSides_usedSlots {f : Side → SideState} :
    (s.withSides f).usedSlots = s.usedSlots := rfl

@[simp] theorem RiskEngine.setAccount_usedSlots {a : Account} :
    (s.setAccount i a).usedSlots = s.usedSlots := rfl

@[simp] theorem RiskEngine.rebook_isUsed {a : Account} {t : Totals} (j : Nat) :
    (s.rebook i a t).isUsed j = s.isUsed j := rfl

@[simp] theorem RiskEngine.reseat_isUsed {a : Account} {f : Side → Seats} (j : Nat) :
    (s.reseat i a f).isUsed j = s.isUsed j := rfl

@[simp] theorem RiskEngine.withSides_isUsed {f : Side → SideState} (j : Nat) :
    (s.withSides f).isUsed j = s.isUsed j := rfl

@[simp] theorem RiskEngine.setAccount_isUsed {a : Account} (j : Nat) :
    (s.setAccount i a).isUsed j = s.isUsed j := rfl

theorem RiskEngine.swept_eq : s.swept = s.withInsuranceFund s.swept.insuranceFund := by
  unfold swept
  split_ifs <;> rfl

end Used

section SlotMoves

variable {s s' : RiskEngine} {i : Nat} {a : Account}

theorem SameButSlots.isUsed {u : Bool} (h : SameButSlots s s' i u a) (hi : i < s.maxAccounts) (j : Nat) :
    s'.isUsed j = if j = i then u else s.isUsed j := by
  rw [h.eq]
  unfold RiskEngine.isUsed put
  by_cases hj : j = i
  · subst hj; simp [hi]
  · simp [hj]

theorem SameButSlots.accounts_eq {u : Bool} (h : SameButSlots s s' i u a) :
    s'.accounts = put s.accounts i a := by rw [h.eq]

theorem isUsed_lt {j : Nat} (h : s.isUsed j = true) : j < s.maxAccounts := by
  unfold RiskEngine.isUsed at h
  simp only [Bool.and_eq_true, decide_eq_true_eq] at h
  exact h.1

theorem Freed.usedSlots (h : Freed s s' i) : s'.usedSlots = s.usedSlots.erase i := by
  ext j
  rw [RiskEngine.mem_usedSlots, Finset.mem_erase, RiskEngine.mem_usedSlots,
    h.toSameButSlots.isUsed (isUsed_lt h.used)]
  by_cases hj : j = i <;> simp [hj]

theorem Materialized.usedSlots {slot : Nat} (h : Materialized s s' i slot) :
    s'.usedSlots = insert i s.usedSlots := by
  ext j
  rw [RiskEngine.mem_usedSlots, Finset.mem_insert, RiskEngine.mem_usedSlots,
    h.toSameButSlots.isUsed h.lt]
  by_cases hj : j = i <;> simp [hj]

/-- A tally over accounts does not see a freeable one go. -/
theorem Freed.tally {M : Type} [AddCommMonoid M] {f : Account → M} (h : Freed s s' i)
    (h0 : f (s.accounts i) = 0) : tally s'.usedSlots s'.accounts f = tally s.usedSlots s.accounts f := by
  rw [h.usedSlots, h.accounts_eq, ← tally_erase (t := s.accounts) (RiskEngine.mem_usedSlots.mpr h.used),
    h0, zero_add]
  exact tally_put_of_notMem (Finset.notMem_erase i _)

/-- A tally over accounts does not see an empty one come. -/
theorem Materialized.tally {M : Type} [AddCommMonoid M] {f : Account → M} {slot : Nat}
    (h : Materialized s s' i slot) (h0 : f (emptyAccount.withLastFeeSlot slot) = 0) :
    tally s'.usedSlots s'.accounts f = tally s.usedSlots s.accounts f := by
  have hnot : i ∉ s.usedSlots := by rw [RiskEngine.mem_usedSlots, h.unused]; rintro ⟨⟩
  rw [h.usedSlots, h.accounts_eq, tally_insert hnot, tally_put_of_notMem hnot, put_same, h0, zero_add]

end SlotMoves

end Percolator
