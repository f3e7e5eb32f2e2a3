-- SUMMARY: Whole numbers near a double, and the remainder of a truncated division.
import StyleScript.Binary64.Parts

/-!
# Rounding a double to a whole number

A finite double with a negative exponent is a fraction `mantissa / 2 ^ k`;
rounding it is one division of naturals. Doubles with an exponent of zero or
more, infinities and the double that is not a number are their own roundings.
-/

namespace StyleScript.Binary64

/-- Replace the magnitude `m / d` of a fraction by the whole number
    `pick negative m d`, keeping the sign also of a zero. -/
def mapWhole (pick : Bool → Nat → Nat → Nat) (x : Float) : Float :=
  match parts x with
  | .finite negative m e =>
    if 0 ≤ e then x else assemble negative (pick negative m (Nat.pow 2 (-e).toNat)) 0
  | _ => x

/-- The nearest whole number; a half goes away from zero. -/
def roundHalfAway : Float → Float :=
  mapWhole fun _ m d => (2 * m + d) / (2 * d)

/-- The greatest whole number that is not above. -/
def floor : Float → Float :=
  mapWhole fun negative m d => if negative then (m + d - 1) / d else m / d

/-- The least whole number that is not below. -/
def ceil : Float → Float :=
  mapWhole fun negative m d => if negative then m / d else (m + d - 1) / d

/-- The nearest integer, a half going away from zero, or `none` off the real
    line. -/
def nearestInt? (x : Float) : Option Int :=
  match parts x with
  | .finite negative m e =>
    let magnitude :=
      if 0 ≤ e then m * Nat.pow 2 e.toNat
      else (2 * m + Nat.pow 2 (-e).toNat) / (2 * Nat.pow 2 (-e).toNat)
    some (if negative then -(magnitude : Int) else magnitude)
  | _ => none

/-- The nearest integer among `0` to `255`; a double that is not a number
    gives `0`. -/
def toByte (x : Float) : UInt8 := (roundHalfAway x).toUInt8

/-- The remainder of the division that drops the fraction of the quotient. It
    is exact and has the sign of the dividend. -/
def remainder (x y : Float) : Float :=
  match parts x, parts y with
  | .finite _ _ _, .infinite _ => x
  | .finite negative m e, .finite _ n f =>
    if n = 0 then nan
    else
      let g := min e f
      assemble negative (m * Nat.pow 2 (e - g).toNat % (n * Nat.pow 2 (f - g).toNat)) g
  | _, _ => nan

end StyleScript.Binary64
