-- SUMMARY: Evaluation of expressions and statements, given how calls are made.
import StyleScript.Binding
import StyleScript.Operator

/-!
# Evaluation

Expressions and statements are evaluated by recursion on themselves. The one
thing that leads out of them, a call, is a parameter here: `Session.call` ties
the knot.

Operands, items and arguments are evaluated from left to right, and the first
failure ends the evaluation. `and` and `or` evaluate their right side only when
the left side does not decide.
-/

namespace StyleScript

/-- How a call is made: the name, the arguments, the scope and the place of the
    call. -/
abbrev Caller := String → Args → ScopeId → Option Location → Eval Value

/-! ## Expressions -/

/-- Put an evaluated argument in front of the others. -/
def Args.cons (name : Option String) (v : Value) (args : Args) : Args :=
  match name with
  | none => { args with positional := v :: args.positional }
  | some name => { args with named := (name, v) :: args.named }

mutual

/-- Evaluate an expression in a scope. -/
def Expr.eval (call : Caller) (scope : ScopeId) : Expr → Eval Value
  | .literal v => pure v
  | .variable name location => do
    match ← Eval.ofStore (·.lookup? scope name) with
    | some v => pure v
    | none => Eval.fail ((Error.ofCause (.undefinedVariable name)).locate location)
  | .list items separator => do
    let values ← evalItems call scope items
    Eval.build (Build.list values separator)
  | .unary op operand location => do
    let v ← operand.eval call scope
    Eval.locate location (Eval.build (op.apply v))
  | .binary op left right location => do
    let l ← left.eval call scope
    if (op = .and ∧ !l.isTruthy) ∨ (op = .or ∧ l.isTruthy) then pure l
    else
      let r ← right.eval call scope
      if op = .and ∨ op = .or then pure r
      else Eval.locate location (Eval.build (op.apply l r))
  | .call name args location => do
    let args ← evalArgs call scope args
    call name args scope location

/-- Evaluate items in order. -/
def evalItems (call : Caller) (scope : ScopeId) : List Expr → Eval (List Value)
  | [] => pure []
  | e :: es => do
    let v ← e.eval call scope
    let vs ← evalItems call scope es
    return v :: vs

/-- Evaluate arguments in order. -/
def evalArgs (call : Caller) (scope : ScopeId) : List Arg → Eval Args
  | [] => pure ⟨[], []⟩
  | .mk name e :: args => do
    let v ← e.eval call scope
    let rest ← evalArgs call scope args
    return rest.cons name v

end

/-! ## Statements -/

/-- Run statements in a scope up to the first one that returns a value. -/
def Stmt.run (call : Caller) (scope : ScopeId) : List Stmt → Eval (Option Value)
  | [] => pure none
  | .assign name e :: rest => do
    let v ← e.eval call scope
    Eval.define scope name v
    run call scope rest
  | .result e :: _ => do
    let v ← e.eval call scope
    return some v
  | .define name params body location :: rest => do
    Eval.defineFunction scope (.ofDefinition ⟨name, params, body, location⟩ scope)
    run call scope rest

/-- Count statements as the body of a definition. At most `limit` bodies may be
    running at a time, and a body must return a value. -/
def Definition.counted (d : Definition) (limit : Nat) (body : Eval (Option Value)) :
    Eval Value := do
  if (← get).full limit then
    Eval.fail ((Error.ofCause (.stackOverflow d.name limit)).locate d.location)
  else
    match ← Eval.nested body with
    | some v => pure v
    | none => Eval.fail ((Error.ofCause (.missingReturn d.name)).locate d.location)

/-- Run the body of a definition in a scope. -/
def Definition.run (d : Definition) (limit : Nat) (call : Caller) (scope : ScopeId) : Eval Value :=
  d.counted limit (Stmt.run call scope d.body)

end StyleScript
