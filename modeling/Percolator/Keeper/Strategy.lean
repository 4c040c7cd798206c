import Percolator.Program.Collection
import Percolator.Program.Custody

/-!
The decisions of the keeper.

The keeper reads a snapshot of a slab and its feed and picks the next instruction for it. What it picks is
checked here against the markets that the program can reach: what it sends passes the checks of slots, what
it expects of a liquidation bounds what the program pays, and one of its actions is never picked.
-/

namespace Percolator.Keeper

open Effect Program

/-- What the keeper fetched. The bytes of the engine are cast to it. -/
structure SlabSnapshot where
  slab : Pubkey
  nowSlot : UInt64
  engine : RiskEngine
  oraclePrice : Option UInt64
  oracleLastUpdateSlot : UInt64
  staleSlots : UInt64
  fundingStalenessSlots : UInt64

inductive Action where
  | refreshOracle
  | liquidate (victimSlot : U16) (estimatedBounty : Nat)
  | crankFunding
  | crankAdlReset
  | crankGc
  | skip
deriving DecidableEq, Repr

def LIQ_BOUNTY_BPS : Nat := 50
def MIN_BOUNTY_THRESHOLD : Nat := 1000

/-- The cast of a `u128` to `i128`. -/
def asI128 (n : Nat) : Int := if (n : Int) ≤ I128_MAX then n else n - 2 ^ 128

/-- The nearest `i128`. -/
def saturateI128 (x : Int) : Int := max I128_MIN (min x I128_MAX)

/-- The slots that the scans visit: all but that of the protocol LP. -/
def scanned (s : RiskEngine) : List Nat :=
  let max := min s.params.maxAccounts s.maxAccounts
  List.range' 1 (max - 1)

/-- The loss that a move of the price since the last accrual makes on a position. -/
def markedLoss (basis : Int) (lastPx oraclePrice : Nat) : Nat :=
  if 0 < lastPx then
    let (refPx, livePx) := if 0 < basis then (lastPx, oraclePrice) else (oraclePrice, lastPx)
    if livePx < refPx then saturatingMulU128 basis.natAbs (refPx - livePx) / POS_SCALE else 0
  else 0

/-- The bounty expected for account `i`, if it looks short of its maintenance margin and pays enough. -/
def candidate (s : RiskEngine) (oraclePrice i : Nat) : Option Nat :=
  let acct := s.accounts i
  let basis := acct.positionBasisQ
  if s.isUsed i = false then none
  else if basis = 0 then none
  else
    let notional := saturatingMulU128 basis.natAbs oraclePrice / POS_SCALE
    let mmReq := saturatingMulU128 notional s.params.maintenanceMarginBps / 10000
    let equityLow := saturateI128 (asI128 acct.capital + acct.pnl)
    let estEquity := saturateI128 (equityLow - asI128 (markedLoss basis s.lastOraclePrice oraclePrice))
    if asI128 mmReq ≤ estEquity then none
    else
      let est := saturatingMulU128 acct.capital LIQ_BOUNTY_BPS / 10000
      if est < MIN_BOUNTY_THRESHOLD then none else some est

/-- The scan for a victim. -/
def findVictim (s : RiskEngine) (oraclePrice : Nat) : Option Action :=
  (scanned s).findSome? fun i => (candidate s oraclePrice i).map fun est => .liquidate (BitVec.ofNat 16 i) est

/-- A side drains and has no open interest. -/
def resetReady (s : RiskEngine) : Prop :=
  (s.sides .long).sideMode = .drainOnly ∧ (s.sides .long).oiEffQ = 0 ∨
    (s.sides .short).sideMode = .drainOnly ∧ (s.sides .short).oiEffQ = 0

instance (s : RiskEngine) : Decidable (resetReady s) := by unfold resetReady; infer_instance

/-- What the keeper takes for dust. -/
def isDust (s : RiskEngine) (i : Nat) : Prop :=
  s.isUsed i = true ∧ (s.accounts i).positionBasisQ = 0 ∧ (s.accounts i).pnl = 0 ∧ (s.accounts i).reservedPnl = 0 ∧
    (s.accounts i).schedPresent = false ∧ (s.accounts i).pendingPresent = false ∧
    (s.accounts i).capital < s.params.minInitialDeposit

instance (s : RiskEngine) (i : Nat) : Decidable (isDust s i) := by unfold isDust; infer_instance

/-- The decision once the oracle is fresh. -/
def decideFresh (snap : SlabSnapshot) (oraclePrice : Nat) : Action :=
  let engine := snap.engine
  match findVictim engine oraclePrice with
  | some action => action
  | none =>
      if snap.fundingStalenessSlots.toNat < snap.nowSlot.toNat - engine.lastMarketSlot then .crankFunding
      else if resetReady engine then .crankAdlReset
      else if (scanned engine).any fun i => isDust engine i then .crankGc
      else .skip

/-- `decide`. -/
def SlabSnapshot.decide (snap : SlabSnapshot) : Action :=
  match snap.oraclePrice with
  | none => .refreshOracle
  | some price =>
      if snap.staleSlots.toNat < snap.nowSlot.toNat - snap.oracleLastUpdateSlot.toNat then .refreshOracle
      else decideFresh snap price.toNat

/-! ### What a decision rests on -/

/-- What an action rests on, in the engine that the keeper has seen. Nothing justifies an `AdlReset` crank. -/
inductive Justified (snap : SlabSnapshot) : Action → Prop
  | refreshOracle (stale : snap.oraclePrice = none ∨
      snap.staleSlots.toNat < snap.nowSlot.toNat - snap.oracleLastUpdateSlot.toNat) : Justified snap .refreshOracle
  /-- A user in debt of margin, and a bounty within the estimate. -/
  | liquidate {victim : U16} {est : Nat} (user : victim.toNat ≠ PROTOCOL_LP_SLOT)
      (used : snap.engine.isUsed victim.toNat = true) (basis : (snap.engine.accounts victim.toNat).positionBasisQ ≠ 0)
      (enough : MIN_BOUNTY_THRESHOLD ≤ est)
      (bounty : ∀ feed slot e ts n, processLiquidate ⟨victim⟩ feed slot snap.engine = .ok () e ts →
        .fromVault n ∈ ts → n ≤ est) : Justified snap (.liquidate victim est)
  | crankFunding (due : snap.engine.lastMarketSlot < snap.nowSlot.toNat) : Justified snap .crankFunding
  | crankGc {i : Nat} (dusty : Dusty snap.engine i) : Justified snap .crankGc
  | skip {price : UInt64} (clean : ∀ i, ¬ Dusty snap.engine i)
      (draining : ∀ d, (snap.engine.sides d).sideMode = .drainOnly → 0 < (snap.engine.sides d).oiEffQ)
      (fresh : snap.oraclePrice = some price)
      (calm : ∀ i, i ≠ PROTOCOL_LP_SLOT → candidate snap.engine price.toNat i = none) : Justified snap .skip

variable {m : Slab} {snap : SlabSnapshot} {s : RiskEngine} {i : Nat}

theorem mem_scanned : i ∈ scanned s ↔ i ≠ PROTOCOL_LP_SLOT ∧ i < s.params.maxAccounts ∧ i < s.maxAccounts := by
  unfold scanned PROTOCOL_LP_SLOT
  rw [List.mem_range'_1]
  omega

theorem candidate_spec {price est : Nat} (found : candidate s price i = some est) : s.isUsed i = true ∧
    (s.accounts i).positionBasisQ ≠ 0 ∧ MIN_BOUNTY_THRESHOLD ≤ est ∧
      est = saturatingMulU128 (s.accounts i).capital LIQ_BOUNTY_BPS / 10000 := by
  unfold candidate at found
  simp only [Option.ite_none_left_eq_some, Option.some.injEq] at found
  obtain ⟨used, basis, -, enough, rfl⟩ := found
  exact ⟨Bool.eq_true_of_not_eq_false used, basis, not_lt.mp enough, rfl⟩

theorem candidate_unused {price : Nat} (unused : s.isUsed i = false) : candidate s price i = none := if_pos unused

theorem isDust_iff : isDust s i ↔ gcEligible s i := Iff.rfl

/-- Nothing saturates on a market's books. -/
theorem bounty_exact (sound : Sound s) (used : s.isUsed i = true) :
    saturatingMulU128 (s.accounts i).capital LIQ_BOUNTY_BPS = (s.accounts i).capital * LIQ_BOUNTY_BPS := by
  have books := sound.books
  have held : (s.accounts i).capital ≤ MAX_VAULT_TVL :=
    calc (s.accounts i).capital ≤ s.cTot := books.capital_le used
      _ ≤ s.vault := (Nat.le_add_right _ _).trans books.backed
      _ ≤ MAX_VAULT_TVL := books.vault_le
  exact min_eq_left ((Nat.mul_le_mul_right _ held).trans (by decide))

/-- The keeper's estimate bounds what the program pays for the liquidation. -/
theorem bounty_le {victim : U16} {est n : Nat} {feed : List Byte} {slot : UInt64} {e : RiskEngine} {ts : List Transfer}
    (sound : Sound s) (used : s.isUsed victim.toNat = true)
    (expected : est = saturatingMulU128 (s.accounts victim.toNat).capital LIQ_BOUNTY_BPS / 10000)
    (ok : processLiquidate ⟨victim⟩ feed slot s = .ok () e ts) (mem : Transfer.fromVault n ∈ ts) : n ≤ est := by
  have moves := wp_sound (Q := fun _ e ts => (Request.liquidate ⟨victim⟩ feed).Moves s e ts) ok processLiquidate_moves
  rw [expected, bounty_exact sound used]
  cases moves with
  | none => cases mem
  | into amount => cases List.mem_singleton.mp mem
  | out amount pays =>
      cases List.mem_singleton.mp mem
      exact pays.2

theorem findVictim_justified (sound : Sound snap.engine) (slab : snap.engine.maxAccounts ≤ NIL) {price : Nat} {action : Action}
    (found : findVictim snap.engine price = some action) : Justified snap action := by
  obtain ⟨i, mem, picked⟩ := List.exists_of_findSome?_eq_some found
  obtain ⟨est, isCandidate, rfl⟩ := Option.map_eq_some_iff.mp picked
  obtain ⟨user, -, within⟩ := mem_scanned.mp mem
  obtain ⟨used, basis, enough, expected⟩ := candidate_spec isCandidate
  -- a slot fits the instruction's `u16`
  have fits : (BitVec.ofNat 16 i).toNat = i := by
    rw [BitVec.toNat_ofNat]
    refine Nat.mod_eq_of_lt ?_
    unfold NIL U16_MAX at slab
    omega
  refine .liquidate ?_ ?_ ?_ enough ?_
  · rw [fits]
    exact user
  · rw [fits]
    exact used
  · rw [fits]
    exact basis
  · intro feed slot e ts n ok paid
    exact bounty_le sound (fits.symm ▸ used) (fits.symm ▸ expected) ok paid

theorem resetReady_never (sound : Sound s) : ¬ resetReady s := by
  have draining : ∀ d, (s.sides d).sideMode = .drainOnly → 0 < (s.sides d).oiEffQ := fun d =>
    (sound.positions.quiet rfl d).draining
  rintro (⟨mode, empty⟩ | ⟨mode, empty⟩)
  · exact absurd (draining .long mode) (by omega)
  · exact absurd (draining .short mode) (by omega)

/-- Every decision on a market that the program can reach rests on what it is made for. A liquidation names a used slot
with a position, not that of the LP, and whatever the program then pays for it is within the estimate; a `Gc` crank has a
slot to reclaim, a funding crank slots to accrue; the keeper skips only when there is nothing of this. It never sends
an `AdlReset` crank. -/
theorem SlabSnapshot.decide_justified (h : Program.Reachable m) (slab : m.engine.maxAccounts ≤ NIL)
    (seen : snap.engine = m.engine) : Justified snap snap.decide := by
  have sound : Sound snap.engine := seen ▸ h.sound
  obtain ⟨chain, tenancy⟩ := (h.orderly slab).tenancy
  rw [← seen] at slab tenancy
  unfold SlabSnapshot.decide
  cases price : snap.oraclePrice with
  | none => exact .refreshOracle (.inl price)
  | some p =>
      dsimp only
      split_ifs with stale
      · exact .refreshOracle (.inr stale)
      unfold decideFresh
      dsimp only
      split
      · rename_i action victim
        exact findVictim_justified sound slab victim
      · rename_i victim
        split_ifs with lags ready dust
        · exact .crankFunding (by omega)
        · exact absurd ready (resetReady_never sound)
        · obtain ⟨i, mem, isDust⟩ := List.any_eq_true.mp dust
          exact .crankGc ⟨(mem_scanned.mp mem).1, isDust_iff.mp (of_decide_eq_true isDust)⟩
        · refine .skip ?_ (fun d => (sound.positions.quiet rfl d).draining) price ?_
          · rintro i ⟨user, eligible⟩
            refine dust (List.any_eq_true.mpr ⟨i, ?_, decide_eq_true (isDust_iff.mpr eligible)⟩)
            exact mem_scanned.mpr ⟨user, tenancy.active i eligible.1, isUsed_lt eligible.1⟩
          · intro i user
            by_cases used : snap.engine.isUsed i = true
            · have visited : i ∈ scanned snap.engine := mem_scanned.mpr ⟨user, tenancy.active i used, isUsed_lt used⟩
              exact Option.map_eq_none_iff.mp (List.findSome?_eq_none_iff.mp victim i visited)
            · exact candidate_unused (Bool.eq_false_of_not_eq_true used)

/-- A user is short before the price rises seven times. -/
def pressedSlab : Slab :=
  sendAll sampleSlab
    [(.bootstrapLp ⟨1000000⟩, 101), (.deposit 1 ⟨300000⟩, 101), (.placeOrder 1 ⟨1, 50000000, 2000, 0⟩ (quote 1000 101), 101)]

/-- The view of a market at slot 102, with the price at 7000. -/
def viewOf (m : Slab) : SlabSnapshot := ⟨10, 102, m.engine, some 7000, 102, 150, 64⟩

theorem viewOf_engine (m : Slab) : (viewOf m).engine = m.engine := rfl

theorem pressedSlab_decide_justified : Justified (viewOf pressedSlab) (.liquidate 1 1499) := by
  have picked : (viewOf pressedSlab).decide = .liquidate 1 1499 := by decide +kernel
  have reachable : Program.Reachable pressedSlab := sampleSlab_reachable.sendAll _
  have slab : pressedSlab.engine.maxAccounts ≤ NIL := by decide +kernel
  rw [← picked]
  exact SlabSnapshot.decide_justified reachable slab (viewOf_engine pressedSlab)

end Percolator.Keeper
