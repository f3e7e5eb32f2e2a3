-- SUMMARY: The arithmetic that colors are computed with, for doubles and for exact rationals.
import StyleScript.Binary64.Rounding

/-!
# Scalars

Color arithmetic is written once over a class of scalars. Programs run it on
doubles. On the rationals the same definitions have no rounding, so laws that
hold only up to rounding on doubles can be stated exactly there.

A scalar need not equal itself: the double that is not a number does not, and
this is how the definitions here recognise it.
-/

namespace StyleScript

/-- Numbers with the four operations, an order, literals and the remainder of
    the division that drops the fraction of the quotient. -/
class Scalar (K : Type) extends Add K, Sub K, Mul K, Div K, LT K, LE K, BEq K where
  literal : ∀ n, OfNat K n
  decidableLt : DecidableLT K
  decidableLe : DecidableLE K
  remainder : K → K → K

attribute [reducible, instance] Scalar.literal Scalar.decidableLt Scalar.decidableLe

instance : Scalar Float where
  literal _ := inferInstance
  decidableLt := inferInstance
  decidableLe := inferInstance
  remainder := Binary64.remainder

instance : Scalar Rat where
  literal _ := inferInstance
  decidableLt := inferInstance
  decidableLe := inferInstance
  remainder x y :=
    let quotient := x / y
    x - y * (if quotient < 0 then quotient.ceil else quotient.floor : Int)

namespace Scalar

variable {K : Type} [Scalar K]

/-- Move a scalar into a range; one that does not equal itself stays. -/
def limit (low high x : K) : K :=
  if x < low then low else if high < x then high else x

/-- Move a scalar into a range; one that does not equal itself becomes the lower
    end. -/
def clamp (low high x : K) : K :=
  if x == x then limit low high x else low

/-- The larger of two scalars; one that does not equal itself is passed over. Of
    two that are equal this is the second: on doubles the sign of a zero shows
    which of them it is. -/
def larger (x y : K) : K :=
  if y == y then (if y < x then x else y) else x

/-- The smaller of two scalars; one that does not equal itself is passed over. Of
    two that are equal this is the second. -/
def smaller (x y : K) : K :=
  if y == y then (if x < y then x else y) else x

end Scalar

end StyleScript
