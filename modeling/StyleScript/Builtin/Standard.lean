-- SUMMARY: The registry of all builtins.
import StyleScript.Builtin.Choice
import StyleScript.Builtin.Components
import StyleScript.Builtin.Lists
import StyleScript.Builtin.Quantities

/-! # The standard registry -/

namespace StyleScript

/-- All builtins. -/
def Builtin.all : List Builtin :=
  onChannels ++ onHsl ++ onComponents ++ onQuantities ++ onLists ++ onValues

namespace Registry

/-- Add builtins one after the other, up to the first whose signature is none. -/
def addAll (r : Registry) : List Builtin → Attempt
  | [] => .ok r
  | b :: bs =>
    match r.register b.name b.signature b.run with
    | .ok r => r.addAll bs
    | refused => refused

/-- The registry that builtins were added to, or the empty one if a signature is
    none. -/
def orEmpty : Attempt → Registry
  | .ok r => r
  | .error _ => empty

/-- The registry of all builtins. -/
def standard : Registry := orEmpty (empty.addAll Builtin.all)

end Registry

end StyleScript
