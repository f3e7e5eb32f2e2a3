-- SUMMARY: The values of programs: views, text, equality.
import StyleScript.Color.Text

/-!
# Values

A value is a number, a color, a string, a truth value, a list or null, and
remembers where it was built when that is known. Locations never count when
values are compared or shown.

Every value can be seen as a list: a value that is not a list is the list of
itself alone.
-/

namespace StyleScript

/-- What stands between the items of a list. -/
inductive Separator where
  | comma
  | space
  deriving DecidableEq, Repr

namespace Separator

/-- A separator as programs name it. -/
def text : Separator → String
  | .comma => "comma"
  | .space => "space"

/-- What is written between two items. -/
def joiner : Separator → String
  | .comma => ", "
  | .space => " "

end Separator

/-- A value with the place it was built at. -/
inductive Value where
  | number (n : Number) (location : Option Location)
  | color (c : Color Float) (location : Option Location)
  | string (content : String) (quoted : Bool) (location : Option Location)
  | bool (b : Bool) (location : Option Location)
  | list (items : List Value) (separator : Separator) (location : Option Location)
  | null (location : Option Location)

namespace Value

/-- Where a value was built. -/
def location : Value → Option Location
  | .number _ l | .color _ l | .string _ _ l | .bool _ l | .list _ _ l | .null l => l

def typeName : Value → TypeName
  | .number .. => .number
  | .color .. => .color
  | .string .. => .string
  | .bool .. => .bool
  | .list .. => .list
  | .null .. => .null

def isNull : Value → Bool
  | .null _ => true
  | _ => false

/-- Only `false` and null do not count as true. -/
def isTruthy : Value → Bool
  | .null _ | .bool false _ => false
  | _ => true

/-! ## Text -/

/-- A string between its quotes: a backslash is put before each backslash and
    each double quote. -/
def escape : List Char → List Char
  | [] => []
  | c :: cs => if c = '\\' ∨ c = '"' then '\\' :: c :: escape cs else c :: escape cs

mutual

/-- The text of a value, with numbers rounded to `places`. -/
def inspect (places : Nat) : Value → String
  | .number n _ => n.inspect places
  | .color c _ => c.text
  | .string content quoted _ =>
    if quoted then String.ofList ('"' :: (escape content.toList ++ ['"'])) else content
  | .bool b _ => if b then "true" else "false"
  | .list items separator _ =>
    if items.isEmpty then "()" else separator.joiner.intercalate (inspectItems places items)
  | .null _ => "null"

/-- The texts of the items of a list. -/
def inspectItems (places : Nat) : List Value → List String
  | [] => []
  | v :: vs => inspect places v :: inspectItems places vs

end

/-- A value as diagnostics show it. -/
def text (v : Value) : String := v.inspect defaultPlaces

@[simp] theorem inspectItems_eq_map (places : Nat) (vs : List Value) :
    inspectItems places vs = vs.map (inspect places) := by
  induction vs with
  | nil => rfl
  | cons v vs ih => simp [inspectItems, ih]

/-! ## Views -/

/-- The error of a value that is not of the expected type. -/
def mismatch (v : Value) (expected : TypeName) : Error := .ofCause (.notOfType v.text expected)

def asNumber : Value → Except Error Number
  | .number n _ => .ok n
  | v => .error (v.mismatch .number)

def asColor : Value → Except Error (Color Float)
  | .color c _ => .ok c
  | v => .error (v.mismatch .color)

/-- The content of a string and whether it is quoted. -/
def asString : Value → Except Error (String × Bool)
  | .string content quoted _ => .ok (content, quoted)
  | v => .error (v.mismatch .string)

def asBool : Value → Except Error Bool
  | .bool b _ => .ok b
  | v => .error (v.mismatch .bool)

def asList : Value → Except Error (List Value × Separator)
  | .list items separator _ => .ok (items, separator)
  | v => .error (v.mismatch .list)

/-- The items of a value seen as a list. -/
def items : Value → List Value
  | .list items _ _ => items
  | v => [v]

/-- The separator of a value seen as a list. -/
def separator : Value → Separator
  | .list _ separator _ => separator
  | _ => .space

/-! ## Relations -/

/-- Whether two values have an order or a distance: numbers with compatible
    units, and any two colors. -/
def comparable : Value → Value → Bool
  | .number a _, .number b _ => a.units.compatible b.units
  | .color .., .color .. => true
  | _, _ => false

mutual

/-- Equality of values. Quotes of strings do not count, nor does the separator
    of lists that have at most one item. -/
def same : Value → Value → Bool
  | .number a _, .number b _ => a.same b
  | .color a _, .color b _ => a.same b
  | .string a _ _, .string b _ _ => a == b
  | .bool a _, .bool b _ => a == b
  | .null _, .null _ => true
  | .list as s _, .list bs t _ => (s == t || as.length ≤ 1) && sameItems as bs
  | _, _ => false

/-- Equality of as many items, one by one. -/
def sameItems : List Value → List Value → Bool
  | [], [] => true
  | a :: as, b :: bs => same a b && sameItems as bs
  | _, _ => false

end

end Value

end StyleScript
