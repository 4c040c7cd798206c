import Mathlib.Algebra.Order.Field.GeomSum
import Mathlib.Data.Nat.Cast.Order.Field
import Mathlib.Tactic.GCongr
import Mathlib.Tactic.Positivity
import Mathlib.Tactic.Ring

/-!
Compounding in whole numbers: multiplying by a ratio again and again, rounding
down each time.

What one rounding loses is carried along by the multiplications that follow it,
so that the losses add up to a geometric sum of the ratio.
-/

namespace Percolator

variable {K : Type} [Field K] [LinearOrder K] [IsStrictOrderedRing K] {a b n x : Nat}

end Percolator
