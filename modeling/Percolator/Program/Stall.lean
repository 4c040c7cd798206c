import Percolator.Laws.Forward
import Percolator.Program.Collection

/-!
Resets that wait.

A drained side opens again when every position that it has left over is settled. A stale position is settled
by an operation on its account, and of these the program lets others than the owner ask for one only: a
liquidation, which is refused as there is nothing to liquidate and takes its settlement back. So one owner
who stays away keeps the side closed.
-/

namespace Percolator

open Effect

variable {s s' t : RiskEngine} {i now price hMin hMax : Nat} {rate : Int} {d : Side} {did : Bool} {l : List Event}

namespace Program

variable {slot : UInt64} {user : Bytes32} {feed : List Byte} {ts : List Transfer} {chain : List Nat} {m m' : Slab}
  {α : Type} {k : List (Request × UInt64)}

/-- The owner who signs a request, where it is only for an owner to send. -/
def Request.signer : Request → Option Bytes32
  | .deposit user _ | .withdraw user _ | .placeOrder user _ _ => some user
  | .bootstrapLp _ | .liquidate _ _ | .crank _ => none

/-- Side `d` waits for its reset, and account `i` still has a position there. -/
structure Awaits (s : RiskEngine) (d : Side) (i : Nat) : Prop where
  lp : Bootstrapped s
  user : i ≠ PROTOCOL_LP_SLOT
  used : s.isUsed i = true
  side : sideOfI128 (s.accounts i).positionBasisQ = some d
  waits : (s.sides d).sideMode = .resetPending

/-- Account `i` is as it was, and side `d` has gone forward. -/
structure Spared (s s' : RiskEngine) (d : Side) (i : Nat) : Prop where
  account : s'.accounts i = s.accounts i
  used : s'.isUsed i = s.isUsed i
  stage : (s.sides d).stage ≤ (s'.sides d).stage

theorem Spared.refl (s : RiskEngine) (d : Side) (i : Nat) : Spared s s d i := ⟨rfl, rfl, le_rfl⟩

theorem Spared.trans (h : Spared s s' d i) (h' : Spared s' t d i) : Spared s t d i :=
  ⟨h'.account.trans h.account, h'.used.trans h.used, h.stage.trans h'.stage⟩

/-! ### A request that someone else sends -/

/-- A stale position is spent. -/
theorem Awaits.spent (h : Awaits s d i) (seated : Percolator.Seated s) : s.Spent i := by
  rw [seated.spent_iff h.used h.side, Account.floorShare, if_neg]
  rintro ⟨-, current⟩
  have position : PositionOk (s.sides d) (s.accounts i) := seated.position i d h.used h.side
  rcases position.epoch with ⟨open_, -⟩ | ⟨-, before⟩
  · exact open_ h.waits
  · omega

/-- The wait goes on, for the same reset. -/
theorem Awaits.spared (h : Awaits s d i) (before : Percolator.Seated s) (after : Percolator.Seated s')
    (lp : Bootstrapped s') (spared : Spared s s' d i) :
    Awaits s' d i ∧ (s'.sides d).adlEpoch = (s.sides d).adlEpoch := by
  have used : s'.isUsed i = true := spared.used.trans h.used
  have side : sideOfI128 (s'.accounts i).positionBasisQ = some d := by
    rw [spared.account]
    exact h.side
  have position : PositionOk (s.sides d) (s.accounts i) := before.position i d h.used h.side
  have position' : PositionOk (s'.sides d) (s'.accounts i) := after.position i d used side
  have stale : (s.accounts i).adlEpochSnap + 1 = (s.sides d).adlEpoch := by
    rcases position.epoch with ⟨open_, -⟩ | ⟨-, before⟩
    · exact absurd h.waits open_
    · exact before
  have onward : (s.sides d).adlEpoch ≤ (s'.sides d).adlEpoch := by
    rcases SideState.stage_le_iff.mp spared.stage with later | ⟨same, -⟩
    · exact later.le
    · exact same.le
  rcases position'.epoch with ⟨-, current⟩ | ⟨waits, snap⟩
  · rw [spared.account] at current
    omega
  · rw [spared.account] at snap
    exact ⟨⟨lp, h.user, used, side, waits⟩, snap.symm.trans stale⟩

end Program

end Percolator
