-- SUMMARY: Numbers with units: arithmetic, comparison within a tolerance, text.
import StyleScript.Decimal.Positional
import StyleScript.Units
import StyleScript.Error

/-!
# Numbers

A number is a double with units. Products and quotients combine the units.
Sums, differences, remainders and comparisons need compatible units, and the
result has the units of the side that has any. Magnitudes that differ by less
than a fixed tolerance are equal.
-/

namespace StyleScript

/-- Decimal places that are kept in diagnostics and in the text of values. -/
def defaultPlaces : Nat := 5

/-- Magnitudes closer than this are equal. -/
def tolerance : Float := 1e-10

/-- Equality of magnitudes. It is not transitive, and infinities are not equal
    to themselves, because their difference is not a number. -/
def near (x y : Float) : Bool := (x - y).abs < tolerance

/-- A magnitude with units. -/
structure Number where
  value : Float
  units : Units
  deriving DecidableEq

namespace Number

/-- A magnitude without units. -/
def unitless (value : Float) : Number := ⟨value, .unitless⟩

def isUnitless (n : Number) : Bool := n.units.isUnitless

/-- Whether the magnitude is within the tolerance of a whole number. -/
def isInteger (n : Number) : Bool := (n.value - Binary64.roundHalfAway n.value).abs < tolerance

/-- Change the magnitude and keep the units. -/
def map (f : Float → Float) (n : Number) : Number := { n with value := f n.value }

/-- A number with its magnitude rounded to `places`. -/
def inspect (places : Nat) (n : Number) : String := Decimal.format places n.value ++ n.units.text

/-- A number as diagnostics show it. -/
def text (n : Number) : String := n.inspect defaultPlaces

/-! ## Arithmetic -/

/-- The units of a sum: those of the side that has any. -/
def commonUnits (operation : String) (a b : Number) : Except Error Units :=
  if a.units.compatible b.units then
    .ok (if a.units.isUnitless then b.units else a.units)
  else .error (.ofCause (.incompatibleUnits a.units.text b.units.text operation))

def add (a b : Number) : Except Error Number :=
  (commonUnits "+" a b).map fun units => ⟨a.value + b.value, units⟩

def sub (a b : Number) : Except Error Number :=
  (commonUnits "-" a b).map fun units => ⟨a.value - b.value, units⟩

def rem (a b : Number) : Except Error Number :=
  (commonUnits "%" a b).map fun units => ⟨Binary64.remainder a.value b.value, units⟩

def mul (a b : Number) : Number := ⟨a.value * b.value, a.units.mul b.units⟩

def div (a b : Number) : Number := ⟨a.value / b.value, a.units.div b.units⟩

/-! ## Comparison -/

/-- The order of two numbers. Magnitudes within the tolerance are equal, and
    what is not a number has no order. -/
def compare (a b : Number) : Except Error Ordering :=
  (commonUnits "comparison" a b).bind fun _ =>
    if near a.value b.value then .ok .eq
    else if a.value < b.value then .ok .lt
    else if b.value < a.value then .ok .gt
    else if a.value == b.value then .ok .eq
    else .error (.ofCause .incomparable)

/-- Compatible units, and magnitudes within the tolerance. -/
def same (a b : Number) : Bool := a.units.compatible b.units && near a.value b.value

end Number

end StyleScript
