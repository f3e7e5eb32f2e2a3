-- SUMMARY: Builtins on numbers and their units.
import StyleScript.Builtin.Answer

/-! # Numbers and units -/

namespace StyleScript.Builtin

def percentage : Builtin := ofNumber "percentage" "$value" fun call => do
  let n ← call.number "value"
  if n.isUnitless then return ⟨n.value * 100, .percent⟩
  else Invocation.ofParameter "value" (.error (.ofCause (.unitNotAllowed n.text)))

/-- A number with its magnitude changed and its units kept. -/
def onMagnitude (name : String) (f : Float → Float) : Builtin :=
  ofNumber name "$value" fun call => do
    let n ← call.number "value"
    return n.map f

def unit : Builtin := ⟨"unit", "$number", fun call => do
  let n ← call.number "number"
  return .quoted n.units.text⟩

def unitless : Builtin := ofBool "unitless" "$number" fun call => do
  let n ← call.number "number"
  return n.isUnitless

def comparable : Builtin := ofBool "comparable" "$number-1, $number-2" fun call => do
  let a ← call.arg "number-1"
  let b ← call.arg "number-2"
  return a.comparable b

/-- The builtins of this module. -/
def onQuantities : List Builtin :=
  [percentage, onMagnitude "round" Binary64.roundHalfAway, onMagnitude "ceil" Binary64.ceil,
    onMagnitude "floor" Binary64.floor, onMagnitude "abs" Float.abs, unit, unitless, comparable]

end StyleScript.Builtin
