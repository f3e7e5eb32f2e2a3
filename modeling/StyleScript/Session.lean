-- SUMMARY: Calls: which function a call reaches, and how it runs.
import StyleScript.Eval
import StyleScript.Registry

/-!
# Sessions

A session has the builtins and the options of a program. A call reaches the
nearest program function of its name as seen from the calling scope, and a
builtin only when there is none. Defaults and bodies are left to an interpreter.

Calls are followed to a given depth, the fuel. Bodies of program functions are
counted against the options, but calls in the defaults of parameters are not, so
no depth is enough for all programs; a result, once reached, is the same with
more fuel.
-/

namespace StyleScript

/-- The builtins and the options of a program. -/
structure Session where
  registry : Registry
  options : Options

/-- What a call leaves to others: how defaults are evaluated and how bodies are run. -/
structure Interpreter where
  eval : Evaluator
  body : Definition → ScopeId → Eval Value

namespace Session

/-- Run a builtin on its bound arguments. The values that it builds have the
    place of the call, and so have its errors, which also name it. -/
def runNative (s : Session) (name : String) (run : NativeCode) (bound scope : ScopeId)
    (location : Option Location) : Eval Value := do
  let store ← Eval.ofStore id
  let call : Invocation :=
    { name, bound := store.locals bound, callerVariable := store.lookup? scope, location,
      options := s.options }
  Eval.build (Build.stamped location (Build.mapError
    (fun e => (e.inContext name).locate location) (run call)))

/-- Run a function on arguments, for a call from a scope. A builtin has its
    arguments bound in a scope of its own, a program function in a new scope
    inside the one that it was defined in; the latter fails when its scope is
    gone. -/
def invokeBy (s : Session) (interpreter : Interpreter) (f : Function) (args : Args)
    (scope : ScopeId) (location : Option Location) : Eval Value :=
  match f.body with
  | .native run =>
    Eval.inNewScope none fun bound => do
      Eval.locate location (f.params.bind f.name args interpreter.eval bound)
      s.runNative f.name run bound scope location
  | .written definition closure => do
    if ← Eval.ofStore (·.contains closure) then
      Eval.inNewScope (some closure) fun inner => do
        Eval.locate location (f.params.bind f.name args interpreter.eval inner)
        Eval.locate location (interpreter.body definition inner)
    else Eval.fail ((Error.ofCause (.undefinedFunction f.name)).locate location)

/-- Find the function that a call reaches and run it in a given way. -/
def dispatch (s : Session) (invoke : Function → Args → ScopeId → Option Location → Eval Value) :
    Caller := fun name args scope location => do
  match ← Eval.ofStore (·.lookupFunction? scope name) with
  | some f => invoke f args scope location
  | none =>
    match s.registry.resolve name args.count with
    | .ok f => invoke f args scope location
    | .error e => Eval.fail (e.locate location)

/-- Evaluate defaults and run bodies with the calls in them made in a given way. -/
def interpreter (s : Session) (call : Caller) : Interpreter where
  eval e scope := e.eval call scope
  body d scope := d.run s.options.maxDepth call scope

/-- Run a function on arguments, with the calls in it made in a given way. -/
def invoke (s : Session) (call : Caller) (f : Function) (args : Args) (scope : ScopeId)
    (location : Option Location) : Eval Value :=
  s.invokeBy (s.interpreter call) f args scope location

/-- Make a call, following calls within it to a depth of `fuel`. -/
def call (s : Session) : Nat → Caller
  | 0 => fun _ _ _ _ => throw .outOfFuel
  | fuel + 1 => s.dispatch (s.invoke (s.call fuel))

/-- Evaluate an expression in a scope. -/
def eval (s : Session) (fuel : Nat) (e : Expr) (scope : ScopeId) : Eval Value :=
  e.eval (s.call fuel) scope

/-- Run statements in a scope. -/
def run (s : Session) (fuel : Nat) (body : List Stmt) (scope : ScopeId) : Eval (Option Value) :=
  Stmt.run (s.call fuel) scope body

/-- Run the body of a definition in a scope, without binding anything. -/
def runBody (s : Session) (fuel : Nat) (d : Definition) (scope : ScopeId) : Eval Value :=
  d.run s.options.maxDepth (s.call fuel) scope

/-- Make a call from a scope without names. -/
def callAlone (s : Session) (fuel : Nat) (name : String) (args : Args)
    (location : Option Location) : Eval Value :=
  Eval.inNewScope none fun scope => s.call fuel name args scope location

end Session

end StyleScript
