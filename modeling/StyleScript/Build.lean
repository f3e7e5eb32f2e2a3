-- SUMMARY: Building values: each is stamped with the current location and counted.
import StyleScript.Value

/-!
# Building values

Values are built by a builder, which stamps them with the location that is
current and counts them. Failing does not undo what was built.
-/

namespace StyleScript

/-- The current location, and how many values were built. -/
structure Builder where
  location : Option Location
  built : Nat
  deriving DecidableEq, Repr, Inhabited

/-- A builder that has built nothing and knows no location. -/
def Builder.fresh : Builder := ⟨none, 0⟩

/-- A computation that builds values and may fail. -/
abbrev Build := EStateM Error Builder

namespace Build

/-- Build one value. -/
def make (value : Option Location → Value) : Build Value := fun b =>
  .ok (value b.location) { b with built := b.built + 1 }

def number (n : Number) : Build Value := make (.number n)

/-- A number without units. -/
def unitless (x : Float) : Build Value := number (.unitless x)

def color (c : Color Float) : Build Value := make (.color c)

def string (content : String) (quoted : Bool) : Build Value := make (.string content quoted)

def quoted (content : String) : Build Value := string content true

def unquoted (content : String) : Build Value := string content false

def bool (b : Bool) : Build Value := make (.bool b)

def list (items : List Value) (separator : Separator) : Build Value := make (.list items separator)

def null : Build Value := make .null

/-- A result that builds nothing. -/
def ofExcept : Except Error α → Build α
  | .ok a => pure a
  | .error e => throw e

/-- Change how a failure is reported. -/
def mapError (f : Error → Error) (x : Build α) : Build α := fun b =>
  match x b with
  | .ok a b' => .ok a b'
  | .error e b' => .error (f e) b'

/-- Make a location current while values are built, and then the one that was. -/
def stamped (location : Option Location) (x : Build α) : Build α := fun b =>
  match x { b with location } with
  | .ok a b' => .ok a { b' with location := b.location }
  | .error e b' => .error e { b' with location := b.location }

/-- Make a location current, and give back the one that was. -/
def setLocation (location : Option Location) : Build (Option Location) := fun b =>
  .ok b.location { b with location := location }

@[simp] theorem make_apply (value : Option Location → Value) (b : Builder) :
    make value b = .ok (value b.location) { b with built := b.built + 1 } := rfl

end Build

end StyleScript
