-- SUMMARY: Units as symbolic products of names, with cancellation.
import StyleScript.Text.Blank
import StyleScript.Text.Pieces

/-!
# Units

The units of a number are a product of names over a product of names, such as
`px*em/s`. Multiplication and division combine the names and cancel what
stands on both sides; the names that stay keep their order.
-/

namespace StyleScript

/-- A product of unit names over a product of unit names. -/
structure Units where
  numerator : List String
  denominator : List String
  deriving DecidableEq, Repr, Inhabited

namespace Units

/-- The empty product. -/
def unitless : Units := ⟨[], []⟩

/-- A single name. -/
def single (name : String) : Units := ⟨[name], []⟩

/-- The unit of a percentage. -/
def percent : Units := single "%"

/-- The unit of an angle. -/
def degrees : Units := single "deg"

/-- Whether a product is the empty one. -/
def isUnitless (u : Units) : Bool := u.numerator.isEmpty && u.denominator.isEmpty

/-- Whether a product is the single name. -/
def isSingle (u : Units) (name : String) : Bool := u == single name

/-- Two products are compatible when they are equal or one is empty. -/
def compatible (u v : Units) : Bool := u.isUnitless || v.isUnitless || u == v

/-! ## Multiplication -/

/-- Remove from both lists the names that they share, each as often as the list
    that has it less often. Of a shared name the first ones go. -/
def cancelNames : List String → List String → List String × List String
  | [], below => ([], below)
  | name :: above, below =>
    if name ∈ below then cancelNames above (below.erase name)
    else
      let rest := cancelNames above below
      (name :: rest.1, rest.2)

/-- The product of the names above over the names below, cancelled. -/
def ofNames (above below : List String) : Units :=
  let rest := cancelNames above below
  ⟨rest.1, rest.2⟩

/-- The two sides exchanged. -/
def inverse (u : Units) : Units := ⟨u.denominator, u.numerator⟩

/-- The product of two products. -/
def mul (u v : Units) : Units :=
  ofNames (u.numerator ++ v.numerator) (u.denominator ++ v.denominator)

/-- The quotient of two products. -/
def div (u v : Units) : Units := u.mul v.inverse

@[simp] theorem inverse_inverse (u : Units) : u.inverse.inverse = u := rfl

@[simp] theorem isUnitless_unitless : unitless.isUnitless = true := rfl

theorem isUnitless_iff {u : Units} : u.isUnitless = true ↔ u = unitless := by
  obtain ⟨above, below⟩ := u
  simp [isUnitless, unitless]

/-! ## Text -/

/-- The names of one side of a written product. Blanks around a name do not
    count, and empty names and the factor `1` are dropped. -/
def namesOf (side : List Char) : List String :=
  (((Text.pieces '*' side).map Text.trim).filter fun p => p != [] && p != ['1']).map String.ofList

/-- Read a product such as `px`, `px*em`, `px/s`, `/s` or nothing at all. The
    first slash divides the sides; later ones belong to a name. -/
def ofText (text : String) : Units :=
  let sides := Text.cut '/' text.toList
  ofNames (namesOf sides.1) (namesOf sides.2)

/-- A product as it is written after a number. -/
def text (u : Units) : String :=
  let side (names : List String) := Text.join ['*'] (names.map String.toList)
  String.ofList <|
    side u.numerator ++ if u.denominator.isEmpty then [] else '/' :: side u.denominator

end Units

end StyleScript
