-- SUMMARY: The six kinds of values.

/-! # Type names -/

namespace StyleScript

/-- The kinds of values. -/
inductive TypeName where
  | number
  | color
  | string
  | bool
  | list
  | null
  deriving DecidableEq, Repr

/-- A kind as programs and diagnostics name it. -/
def TypeName.text : TypeName → String
  | .number => "number"
  | .color => "color"
  | .string => "string"
  | .bool => "bool"
  | .list => "list"
  | .null => "null"

end StyleScript
