-- SUMMARY: Calls in stages: the function that is reached, its scope, its binding and its end.
import StyleScript.Proofs.Outcome

/-!
# Calls

A call looks for its target, opens a scope for it, binds the arguments there and
then finishes: a builtin computes, a function of a program runs its body. These
stages have names here, and the laws say that calls are made of them. Builtins
and functions of programs differ in two of the stages only, in where the scope
stands and in how the call finishes.
-/

namespace StyleScript

/-! ## Targets -/

namespace Session

/-- The function that a call reaches: the nearest one of its name, or a builtin
    that is chosen by the number of arguments. -/
def target (s : Session) (store : Store) (name : String) (count : Nat) (scope : ScopeId) :
    Except Error Function :=
  match store.lookupFunction? scope name with
  | some f => .ok f
  | none => s.registry.resolve name count

variable {s : Session} {name : String} {args : Args} {scope : ScopeId}
  {location : Option Location} {m : Machine}

/-- No call is followed without fuel. -/
@[simp] theorem call_zero : s.call 0 name args scope location m = .error .outOfFuel m := rfl

theorem call_target {fuel : Nat} {f : Function}
    (h : s.target m.store name args.count scope = .ok f) :
    s.call (fuel + 1) name args scope location m = s.invoke (s.call fuel) f args scope location m := by
  unfold target at h
  simp only [call, dispatch, Eval.ofStore_bind_apply]
  cases hlookup : m.store.lookupFunction? scope name with
  | some g =>
    rw [hlookup] at h
    cases h
    rfl
  | none =>
    rw [hlookup] at h
    simp only at h ⊢
    rw [h]

theorem call_no_target {fuel : Nat} {e : Error}
    (h : s.target m.store name args.count scope = .error e) :
    s.call (fuel + 1) name args scope location m = .error (.error (e.locate location)) m := by
  unfold target at h
  simp only [call, dispatch, Eval.ofStore_bind_apply]
  cases hlookup : m.store.lookupFunction? scope name with
  | some g =>
    rw [hlookup] at h
    cases h
  | none =>
    rw [hlookup] at h
    simp only at h ⊢
    rw [h]
    rfl

end Session

/-! ## Invocations -/

namespace Body

/-- The scope that the scope of a call stands in. -/
def around : Body → Option ScopeId
  | .native _ => none
  | .written _ closure => some closure

/-- Whether the scope that a body was defined in is still there. -/
def alive (store : Store) : Body → Bool
  | .native _ => true
  | .written _ closure => store.contains closure

end Body

namespace Session

/-- How defaults are evaluated when calls in them are made in a given way. -/
abbrev evaluator (call : Caller) : Evaluator := fun e inner => e.eval call inner

/-- The end of a call, after its arguments were bound in the scope `inner`. -/
def finish (s : Session) (call : Caller) (f : Function) (inner scope : ScopeId)
    (location : Option Location) : Eval Value :=
  match f.body with
  | .native run => s.runNative f.name run inner scope location
  | .written definition _ =>
    Eval.locate location (definition.run s.options.maxDepth call inner)

/-- Bind the arguments of a call in the scope `inner` and finish it. -/
def perform (s : Session) (call : Caller) (f : Function) (args : Args) (scope : ScopeId)
    (location : Option Location) (inner : ScopeId) : Eval Value := do
  Eval.locate location (f.params.bind f.name args (evaluator call) inner)
  s.finish call f inner scope location

variable {s : Session} {call : Caller} {f : Function} {args : Args} {scope : ScopeId}
  {location : Option Location} {m : Machine}

theorem invoke_alive (h : f.body.alive m.store = true) :
    s.invoke call f args scope location m =
      Eval.inNewScope f.body.around (s.perform call f args scope location) m := by
  unfold invoke invokeBy perform finish
  cases hbody : f.body with
  | native run => rfl
  | written definition closure =>
    rw [hbody] at h
    have hclosure : m.store.contains closure = true := h
    simp only [Eval.ofStore_bind_apply, hclosure]
    rfl

theorem invoke_dead (h : f.body.alive m.store = false) :
    s.invoke call f args scope location m =
      .error (.error ((Error.ofCause (.undefinedFunction f.name)).locate location)) m := by
  unfold invoke invokeBy
  cases hbody : f.body with
  | native run =>
    rw [hbody] at h
    cases h
  | written definition closure =>
    rw [hbody] at h
    have hclosure : m.store.contains closure = false := h
    simp only [Eval.ofStore_bind_apply, hclosure]
    rfl

end Session

/-! ## Bodies -/

namespace Definition

variable {d : Definition} {limit : Nat} {call : Caller} {scope : ScopeId} {m : Machine}

/-- No body is run beyond the limit. -/
theorem run_at_limit (h : limit ≤ m.depth) :
    d.run limit call scope m =
      .error (.error ((Error.ofCause (.stackOverflow d.name limit)).locate d.location)) m := by
  have hfull : m.full limit = true := decide_eq_true h
  simp only [run, counted, Eval.get_bind_apply, hfull, if_true, Eval.fail_apply]

/-- What a body has returned, if it has returned anything. -/
def returned (d : Definition) : Option Value → Eval Value
  | some v => pure v
  | none => Eval.fail ((Error.ofCause (.missingReturn d.name)).locate d.location)

theorem run_below_limit (h : m.depth < limit) :
    d.run limit call scope m =
      (Eval.nested (Stmt.run call scope d.body) >>= d.returned) m := by
  have hfull : m.full limit = false := Machine.not_full_iff.2 h
  simp only [run, counted, Eval.get_bind_apply, hfull]
  rfl

end Definition

/-! ## Binding -/

namespace Slot

variable {evaluate : Evaluator} {scope : ScopeId}

/-- The value that a parameter is bound to: its argument, or its default; none
    when it has neither. -/
def value? (evaluate : Evaluator) (scope : ScopeId) (slot : Slot) : Eval (Option Value) :=
  match slot.given, slot.param.default with
  | some v, _ => pure (some v)
  | none, some (.literal v) => pure (some v)
  | none, some default => some <$> evaluate default scope
  | none, none => pure none

section Value

variable {slot : Slot}

theorem value?_given {v : Value} (h : slot.given = some v) :
    slot.value? evaluate scope = pure (some v) := by
  unfold value?
  rw [h]

theorem value?_literal {v : Value} (hgiven : slot.given = none)
    (hdefault : slot.param.default = some (.literal v)) :
    slot.value? evaluate scope = pure (some v) := by
  unfold value?
  rw [hgiven, hdefault]

/-- A default that is no literal is evaluated. -/
theorem value?_default {e : Expr} (hgiven : slot.given = none)
    (hdefault : slot.param.default = some e) (hliteral : ∀ v, e ≠ .literal v) :
    slot.value? evaluate scope = some <$> evaluate e scope := by
  unfold value?
  rw [hgiven, hdefault]
  cases e with
  | literal v => exact absurd rfl (hliteral v)
  | _ => rfl

theorem value?_none (hgiven : slot.given = none) (hdefault : slot.param.default = none) :
    slot.value? evaluate scope = pure none := by
  unfold value?
  rw [hgiven, hdefault]

/-- A parameter has no default, a literal one, or one that is evaluated. -/
theorem default_cases (param : Param) :
    param.default = none ∨ (∃ v, param.default = some (.literal v)) ∨
      ∃ e, param.default = some e ∧ ∀ v, e ≠ .literal v := by
  cases param.default with
  | none => exact .inl rfl
  | some e =>
    by_cases hliteral : ∃ v, e = .literal v
    · obtain ⟨v, rfl⟩ := hliteral
      exact .inr (.inl ⟨v, rfl⟩)
    · exact .inr (.inr ⟨e, rfl, fun v hv => hliteral ⟨v, hv⟩⟩)

end Value

/-- Bind a parameter to its value and the others to theirs. -/
def settle (evaluate : Evaluator) (scope : ScopeId) (slot : Slot) (slots : List Slot) :
    Option Value → Eval (List String)
  | some v => do
    Eval.define scope slot.param.name v
    fill evaluate scope slots
  | none => do
    let missing ← fill evaluate scope slots
    return slot.param.name :: missing

/-- Parameters are bound one after the other. -/
theorem fill_cons (slot : Slot) (slots : List Slot) :
    fill evaluate scope (slot :: slots) =
      slot.value? evaluate scope >>= settle evaluate scope slot slots := by
  obtain ⟨⟨name, default⟩, given⟩ := slot
  cases given with
  | some v => rfl
  | none =>
    cases default with
    | none => rfl
    | some e =>
      cases e with
      | literal v => rfl
      | _ =>
        simp only [fill, value?, bind_map_left]
        rfl

end Slot

namespace Params

variable {p : Params} {function : String} {args : Args} {evaluate : Evaluator} {scope : ScopeId}
  {m : Machine}

/-- The error of arguments that do not fit the parameters of a function. -/
def misfit (p : Params) (function : String) (args : Args) (fault : ArityFault) : Error :=
  .ofCause (.wrongArity function p.countText args.count fault)

/-- The end of a binding, after the parameters got their values: the rest
    parameter, unless there are parameters that have none. -/
def complete (p : Params) (function : String) (args : Args) (scope : ScopeId) :
    List String → Eval Unit
  | [] => p.bindRest args scope
  | missing => Eval.fail (p.misfit function args (.missing missing))

theorem bind_of_place_error {fault : ArityFault} (h : p.place args = .error fault) :
    p.bind function args evaluate scope m = .error (.error (p.misfit function args fault)) m := by
  unfold bind
  rw [h]
  rfl

theorem bind_of_place_ok {slots : List Slot} (h : p.place args = .ok slots) :
    p.bind function args evaluate scope m =
      (Slot.fill evaluate scope slots >>= p.complete function args scope) m := by
  unfold bind
  rw [h]
  have hcomplete : (fun missing : List String =>
      if missing.isEmpty then p.bindRest args scope
      else Eval.fail (p.misfit function args (.missing missing))) =
        p.complete function args scope := by
    funext missing
    cases missing <;> rfl
  exact congrFun (congrArg (Slot.fill evaluate scope slots >>= ·) hcomplete) m

end Params

end StyleScript
