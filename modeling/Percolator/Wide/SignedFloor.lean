import Mathlib.Data.Rat.Floor
import Percolator.Spec.Settlement
import Percolator.Wide.Rounding

/-!
The signed floor divisions of `wide_math.rs`: they divide magnitudes and put the
sign back. Where the result is not a number of the type, most panic and one
reinterprets the bits of the magnitude.
-/

namespace Percolator
namespace Wide

/-- `unsigned_abs` of an `i128`. -/
def unsignedAbs (v : U128) : U128 := if v.toInt < 0 then -v else v

/-- The number a 256-bit computation returns for `v`, whose negation it makes: the
residue of `v`, but for the one whose negation overflows. -/
def negated (v : Int) : Option Int := if v.bmod (2 ^ 256) = I256_MIN then none else some (v.bmod (2 ^ 256))

theorem toInt_small {v : U128} (h : v.toNat < 2 ^ 127) : v.toInt = v.toNat := by
  rcases I256.toInt_cases v with ⟨_, _, _⟩ | ⟨_, _, _⟩ <;> omega

theorem toNat_unsignedAbs (v : U128) : (unsignedAbs v).toNat = v.toInt.natAbs := by
  have hv := v.isLt
  have negated : (-v).toNat = (2 ^ 128 - v.toNat) % 2 ^ 128 := BitVec.toNat_neg ..
  unfold unsignedAbs
  rcases I256.toInt_cases v with ⟨neg, _, signed⟩ | ⟨nonneg, _, signed⟩
  · rw [if_pos neg, negated]
    omega
  · rw [if_neg nonneg]
    omega

end Wide
end Percolator
