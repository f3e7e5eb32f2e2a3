-- SUMMARY: Places in a source text.

/-! # Locations -/

namespace StyleScript

/-- The file and line of a call site, a definition or a value. -/
structure Location where
  path : String
  line : Nat
  deriving DecidableEq, Repr, Inhabited

/-- A location as diagnostics show it. -/
def Location.text (l : Location) : String := s!"{l.path}:{l.line}"

end StyleScript
