-- SUMMARY: Builtins on lists.
import StyleScript.Builtin.Answer

/-!
# Lists

Every value is a list here: one that is not a list is the list of itself alone,
divided by spaces.
-/

namespace StyleScript

/-! ## List operations -/

namespace Value

/-- The item at a position, counted from one, or from the end when the position
    is negative. -/
def itemAt? (items : List Value) (position : Int) : Option Value :=
  if 0 < position then items[position.toNat - 1]?
  else if position < 0 then items.reverse[position.natAbs - 1]?
  else none

/-- The separator of two values put together: the chosen one, or that of the
    first unless it is empty. -/
def jointSeparator (chosen : Option Separator) (first second : Value) : Separator :=
  chosen.getD (if first.items.isEmpty then second.separator else first.separator)

/-- The items of two values put together. A list that is joined with nothing shares its items
    with the result. -/
def jointItems (first second : Value) : List Value :=
  match first with
  | .list items _ _ => if second.items.isEmpty then items else items ++ second.items
  | _ => first.items ++ second.items

/-- Shared items are the items that would be put together. -/
theorem jointItems_eq (first second : Value) :
    jointItems first second = first.items ++ second.items := by
  cases first with
  | list items _ _ =>
    change (if second.items.isEmpty then items else items ++ second.items) = items ++ second.items
    cases second.items with
    | nil => exact (List.append_nil items).symm
    | cons v vs => rfl
  | _ => rfl

/-- What `compact` filters, from its arguments: the items of the only one when
    that is a list, else the arguments themselves. -/
def compactSource : List Value → List Value
  | [.list items _ _] => items
  | values => values

end Value

/-! ## Builtins -/

namespace Builtin

/-- Read a separator by its name; `auto` chooses none. -/
def separatorArg (call : Invocation) : Except Error (Option Separator) := do
  let (name, _) ← call.string "separator"
  if name = Separator.comma.text then return some .comma
  else if name = Separator.space.text then return some .space
  else if name = "auto" then return none
  else Invocation.ofParameter "separator" (.error (.ofCause (.unknownSeparator name)))

def length : Builtin := ofNumber "length" "$list" fun call => do
  let list ← call.arg "list"
  return .unitless (Float.ofNat list.items.length)

def nth : Builtin := ⟨"nth", "$list, $n", fun call => do
  let list ← call.arg "list"
  let n ← call.number "n"
  let position := if n.isInteger then (Binary64.nearestInt? n.value).getD 0 else 0
  if position = 0 then
    Invocation.ofParameter "n" (.error (.ofCause (.zeroOrFractionalIndex n.text)))
  else
    match Value.itemAt? list.items position with
    | some v => return .given v
    | none =>
      Invocation.ofParameter "n" (.error (.ofCause (.indexOutOfBounds n.text list.items.length)))⟩

def join : Builtin := ⟨"join", "$list-1, $list-2, $separator: auto", fun call => do
  let first ← call.arg "list-1"
  let second ← call.arg "list-2"
  let chosen ← separatorArg call
  return .list (Value.jointItems first second) (Value.jointSeparator chosen first second)⟩

def append : Builtin := ⟨"append", "$list, $val, $separator: auto", fun call => do
  let list ← call.arg "list"
  let v ← call.arg "val"
  let chosen ← separatorArg call
  return .list (list.items ++ [v]) (Value.jointSeparator chosen list v)⟩

def compact : Builtin := ⟨"compact", "$values...", fun call => do
  let values ← call.arg "values"
  return .list ((Value.compactSource values.items).filter Value.isTruthy) .space⟩

/-- The builtins of this module. -/
def onLists : List Builtin := [length, nth, join, append, compact]

end Builtin

end StyleScript
