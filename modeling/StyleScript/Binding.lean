-- SUMMARY: Placing arguments on parameters and binding them in a scope.
import StyleScript.Machine

/-!
# Binding

Arguments are bound in three stages. Placing puts each argument on a parameter:
the positional ones in order, then each named one on the first parameter of its
name. Filling goes through the parameters in order and binds each to what was
placed on it or to its default; a default that is not a literal is evaluated in
the scope, so it sees the parameters before it. At the end the rest parameter
takes the positional arguments beyond the others.

Required parameters without an argument are reported after all defaults were
evaluated, together. What was bound before a failure stays bound.
-/

namespace StyleScript

/-! ## Placing -/

/-- A parameter and the argument that was placed on it. -/
structure Slot where
  param : Param
  given : Option Value

namespace Slot

/-- Place positional arguments in order, as far as there are parameters. -/
def positional : List Param → List Value → List Slot
  | [], _ => []
  | p :: ps, [] => ⟨p, none⟩ :: positional ps []
  | p :: ps, v :: vs => ⟨p, some v⟩ :: positional ps vs

/-- Place an argument on the first parameter with the canonical name `key`. -/
def place (key : String) (v : Value) : List Slot → Except ArityFault (List Slot)
  | [] => .error (.unknownName key)
  | slot :: slots =>
    if canonical slot.param.name = key then
      match slot.given with
      | some _ => .error (.givenTwice key)
      | none => .ok ({ slot with given := some v } :: slots)
    else (place key v slots).map (slot :: ·)

/-- Place named arguments, one after the other. -/
def placeNamed : List (String × Value) → List Slot → Except ArityFault (List Slot)
  | [], slots => .ok slots
  | (name, v) :: named, slots => (place (canonical name) v slots).bind (placeNamed named)

end Slot

/-- The parameters with the arguments placed on them. -/
def Params.place (p : Params) (args : Args) : Except ArityFault (List Slot) :=
  let count := args.positional.length
  if p.fixed.length < count ∧ p.rest = none then .error (.tooMany (count - p.fixed.length))
  else Slot.placeNamed args.named (Slot.positional p.fixed args.positional)

/-! ## Filling -/

/-- How the default of a parameter is evaluated in a scope. -/
abbrev Evaluator := Expr → ScopeId → Eval Value

/-- Bind each parameter to its argument or its default, and tell which have
    neither. -/
def Slot.fill (evaluate : Evaluator) (scope : ScopeId) : List Slot → Eval (List String)
  | [] => pure []
  | slot :: slots =>
    match slot.given, slot.param.default with
    | some v, _ => do
      Eval.define scope slot.param.name v
      fill evaluate scope slots
    | none, some (.literal v) => do
      Eval.define scope slot.param.name v
      fill evaluate scope slots
    | none, some default => do
      let v ← evaluate default scope
      Eval.define scope slot.param.name v
      fill evaluate scope slots
    | none, none => do
      let missing ← fill evaluate scope slots
      return slot.param.name :: missing

/-! ## Binding -/

/-- Bind the rest parameter, if there is one, to the comma list of the
    positional arguments beyond the others. -/
def Params.bindRest (p : Params) (args : Args) (scope : ScopeId) : Eval Unit :=
  match p.rest with
  | none => pure ()
  | some rest => do
    let list ← Eval.build (Build.list (args.positional.drop p.fixed.length) .comma)
    Eval.define scope rest list

/-- Bind arguments to parameters in a scope. Failures name the function. -/
def Params.bind (p : Params) (function : String) (args : Args) (evaluate : Evaluator)
    (scope : ScopeId) : Eval Unit := do
  let refuse (fault : ArityFault) : Eval Unit :=
    Eval.fail (.ofCause (.wrongArity function p.countText args.count fault))
  match p.place args with
  | .error fault => refuse fault
  | .ok slots => do
    let missing ← Slot.fill evaluate scope slots
    if missing.isEmpty then p.bindRest args scope else refuse (.missing missing)

end StyleScript
