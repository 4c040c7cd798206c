import Percolator.Laws.Gate
import Percolator.Program.Runs

/-!
The gate of an order against the gate of the trade it becomes: the wrapper goes by the position of
the user and by the mode of the order's side before the trade, the engine by what is left of both
sides once the parties are settled.
-/

namespace Percolator.Program

open Effect

variable {s : RiskEngine} {u d : Side} {i price now q : Nat} {c p x y : Int} {user : Bytes32} {args : PlaceOrderArgs}
  {feed : List Byte} {slot : UInt64}

/-! ### The order -/

/-- The effective position of an account in use. -/
def held (s : RiskEngine) (i : Nat) : Int := (effectivePosQ s i).getD 0

theorem findOwner_used (found : findOwner s user = some i) : s.isUsed i = true := by
  have member := List.find?_some found
  rw [Bool.and_eq_true] at member
  exact member.1

/-- Side `d` still stores a position when the parties are settled. -/
def Keeps (s : RiskEngine) (u : Side) (i : Nat) (d : Side) : Prop :=
  s.Remains (tradeParties u i).1 (tradeParties u i).2 d

end Percolator.Program
