-- SUMMARY: Functions: builtins, functions of programs, and what a builtin sees of its call.
import StyleScript.Build
import StyleScript.Expr
import StyleScript.NameTable

/-!
# Functions

A function is a parameter list with a body. The body of a builtin is a
computation on its bound arguments; that of a function of a program is a
definition together with the scope it was defined in.

A builtin sees its call as an invocation. It can read its arguments, the
variables around the call and the options, and it can build values; it cannot
write to any scope.
-/

namespace StyleScript

/-- What a host program may choose: the decimal places that `quote` keeps, and
    how many bodies of program functions may be nested. -/
structure Options where
  places : Nat
  maxDepth : Nat
  deriving DecidableEq, Repr

/-- The options of a host program that chooses nothing. -/
def Options.standard : Options := ⟨defaultPlaces, 256⟩

/-- The arguments of a call, already evaluated. -/
structure Args where
  positional : List Value
  named : List (String × Value)

/-- How many arguments there are. -/
def Args.count (args : Args) : Nat := args.positional.length + args.named.length

/-! ## Invocations -/

/-- What a builtin sees of its call. -/
structure Invocation where
  name : String
  bound : NameTable Value
  callerVariable : String → Option Value
  location : Option Location
  options : Options

/-- The code of a builtin. -/
abbrev NativeCode := Invocation → Build Value

namespace Invocation

/-- Read an argument under the name of its parameter. -/
def arg (call : Invocation) (parameter : String) : Except Error Value :=
  match call.bound.get? parameter with
  | some v => .ok v
  | none => .error (.ofCause (.missingArgument parameter))

/-- Report a failure as one of an argument. -/
def ofParameter (parameter : String) (result : Except Error α) : Except Error α :=
  result.mapError (·.inContext ("$" ++ parameter))

/-- Read an argument that must be a number. -/
def number (call : Invocation) (parameter : String) : Except Error Number :=
  (call.arg parameter).bind fun v => ofParameter parameter v.asNumber

/-- Read an argument that must be a color. -/
def color (call : Invocation) (parameter : String) : Except Error (Color Float) :=
  (call.arg parameter).bind fun v => ofParameter parameter v.asColor

/-- Read an argument that must be a string. -/
def string (call : Invocation) (parameter : String) : Except Error (String × Bool) :=
  (call.arg parameter).bind fun v => ofParameter parameter v.asString

/-- Read an argument that must be a number or null. -/
def numberOrNull (call : Invocation) (parameter : String) : Except Error (Option Number) :=
  (call.arg parameter).bind fun v =>
    if v.isNull then .ok none else (ofParameter parameter v.asNumber).map some

/-- The magnitude of a number, which must be in a range. What is not a number is
    in no range. -/
def inRange (parameter : String) (n : Number) (low high : Float) : Except Error Float :=
  if n.value < low ∨ high < n.value ∨ n.value.isNaN then
    let bound (x : Float) := (⟨x, n.units⟩ : Number).text
    ofParameter parameter (.error (.ofCause (.outOfRange n.text (bound low) (bound high))))
  else .ok n.value

/-- Read an argument that must be a number with its magnitude in a range. -/
def numberIn (call : Invocation) (parameter : String) (low high : Float) : Except Error Float :=
  (call.number parameter).bind fun n => inRange parameter n low high

/-- The text of a value with as many decimal places as the options say. -/
def inspect (call : Invocation) (v : Value) : String := v.inspect call.options.places

end Invocation

/-! ## Functions -/

/-- A scope is known by its number. -/
abbrev ScopeId := Nat

/-- What runs when a function is called. -/
inductive Body where
  | native (run : NativeCode)
  | written (definition : Definition) (closure : ScopeId)

/-- A function. `overloaded` tells whether its name has other candidates. -/
structure Function where
  name : String
  params : Params
  body : Body
  overloaded : Bool

namespace Function

/-- A builtin that is the only candidate of its name. -/
def native (name : String) (params : Params) (run : NativeCode) : Function :=
  ⟨name, params, .native run, false⟩

/-- The function of a definition in a scope. -/
def ofDefinition (definition : Definition) (closure : ScopeId) : Function :=
  ⟨definition.name, definition.params, .written definition closure, false⟩

def isNative (f : Function) : Bool :=
  match f.body with
  | .native _ => true
  | .written .. => false

/-- A parameter as it is shown. A default that is not a literal is left out. -/
def paramText (p : Param) : String :=
  let name := p.name
  match p.default with
  | none => s!"${name}"
  | some (.literal v) =>
    let value := v.text
    s!"${name}: {value}"
  | some _ => s!"${name}: …"

/-- The parameters as they are shown between the parentheses. -/
def paramsText (p : Params) : String :=
  ", ".intercalate (p.fixed.map paramText ++ p.rest.toList.map fun name => s!"${name}...")

/-- The name and the parameters, as diagnostics show them. -/
def signature (f : Function) : String :=
  let name := f.name
  let parameters := paramsText f.params
  s!"{name}({parameters})"

end Function

end StyleScript
