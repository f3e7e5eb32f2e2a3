-- SUMMARY: Builtins on any value: strings of values, types, truth.
import StyleScript.Builtin.Answer

/-! # Strings, types and truth -/

namespace StyleScript.Builtin

/-- Strings lose their quotes; anything else comes back unchanged. -/
def unquote : Builtin := ⟨"unquote", "$string", fun call => do
  let v ← call.arg "string"
  match v with
  | .string content true _ => return .unquoted content
  | v => return .given v⟩

/-- Strings gain quotes; the text of any other value becomes a string. -/
def quote : Builtin := ⟨"quote", "$string", fun call => do
  let v ← call.arg "string"
  match v with
  | .string _ true _ => return .given v
  | .string content false _ => return .quoted content
  | v => return .quoted (call.inspect v)⟩

def typeOf : Builtin := ⟨"type-of", "$value", fun call => do
  let v ← call.arg "value"
  return .unquoted v.typeName.text⟩

def not : Builtin := ofBool "not" "$value" fun call => do
  let v ← call.arg "value"
  return !v.isTruthy

/-- Both branches are already evaluated; one of them is chosen. -/
def choose : Builtin := ⟨"if", "$condition, $if-true, $if-false", fun call => do
  let condition ← call.arg "condition"
  let v ← call.arg (if condition.isTruthy then "if-true" else "if-false")
  return .given v⟩

/-- The builtins of this module. -/
def onValues : List Builtin := [unquote, quote, typeOf, not, choose]

end StyleScript.Builtin
