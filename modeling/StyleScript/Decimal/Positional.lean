-- SUMMARY: The text of a double: positional, with the fewest digits that read back.
import StyleScript.Binary64.Rounding
import StyleScript.Decimal.Shortest

/-!
# Positional text

Numbers are always written out in full, without an exponent: `1e21` has
twenty-two digits and `1e-7` has seven places. No point is written without
digits after it.
-/

namespace StyleScript.Decimal

/-- The decimal digits of a natural number, most significant first. -/
def digits (n : Nat) : List Char := Nat.toDigits 10 n

/-- `c * 10 ^ g` written out in full. -/
def positional (c : Nat) (g : Int) : List Char :=
  if 0 ≤ g then digits (c * Nat.pow 10 g.toNat)
  else
    let places := (-g).toNat
    let whole := digits (c / Nat.pow 10 places)
    let fraction := digits (c % Nat.pow 10 places)
    whole ++ '.' :: List.replicate (places - fraction.length) '0' ++ fraction

/-- The text of a double. Both zeros are finite, and a negative zero keeps its
    sign. -/
def spell (x : Float) : List Char :=
  match Binary64.parts x with
  | .nan => "NaN".toList
  | .infinite negative => if negative then "-inf".toList else "inf".toList
  | .finite negative m e =>
    let magnitude := if m = 0 then ['0'] else let d := shortest m e; positional d.1 d.2
    if negative then '-' :: magnitude else magnitude

/-- The text of a double. -/
def text (x : Float) : String := String.ofList (spell x)

/-- A double rounded to `places` decimal places, a half going away from zero.
    More than sixteen places count as sixteen. -/
def toPlaces (places : Nat) (x : Float) : Float :=
  let factor := Float.ofNat (Nat.pow 10 (min places 16))
  Binary64.roundHalfAway (x * factor) / factor

/-- The text of a double rounded to `places` decimal places. What rounds to a
    zero of either sign is written `0`. -/
def format (places : Nat) (x : Float) : String :=
  let rounded := toPlaces places x
  if rounded == 0 then "0" else text rounded

end StyleScript.Decimal
