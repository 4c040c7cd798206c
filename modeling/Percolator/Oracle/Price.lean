import Mathlib.Algebra.Order.Ring.Pow
import Mathlib.Tactic.FieldSimp
import Mathlib.Tactic.Linarith
import Percolator.Base.Compound
import Percolator.Oracle.Processor

/-!
The DLMM price law: how far the price that is read lies below
`base_price * (1 + bin_step / 10_000) ^ active_bin_id`.
-/

namespace Percolator.Oracle

variable {data : List Byte} {p : U64} {num den steps price value : Nat}

/-! ### The fields of a DLMM account -/

def binStep (data : List Byte) : Nat := fromLeBytes data 0x0C 2

def basePrice (data : List Byte) : Nat := fromLeBytes data 0x0E 8

variable {s : Nat} {n : Nat}

end Percolator.Oracle
