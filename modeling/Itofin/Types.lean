import Mathlib.Algebra.Group.Defs
/-!
# Types — machine numbers

`Real` of `types.rs` is a floating-point number.  Where the results hold whatever its operations compute, it is any type
that has them (`Floats`, without laws).
-/
namespace Itofin

/-- The operations on machine numbers; what they compute does not matter here. -/
class Floats (K : Type) extends Zero K, Add K, Sub K, Mul K, Div K where
  lt : K → K → Bool
  le : K → K → Bool
  isFinite : K → Bool
  abs : K → K
  max : K → K → K
  ofNat : ℕ → K
  nan : K

/-- The operations on machine numbers with a square root. -/
class SqrtFloats (K : Type) extends Floats K where
  sqrt : K → K

end Itofin
