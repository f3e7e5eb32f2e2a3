-- SUMMARY: What expressions, statements, bindings and calls write.
import StyleScript.Proofs.Frame

/-!
# Writes

The frame of each construct, by recursion on it: expressions keep the machine,
statements write what they assign and define, binding writes the parameters, and
calls keep the machine again, because all that they write goes with their scope.
-/

namespace StyleScript

/-- A way to make calls that keeps the machine. -/
def Caller.Keeps (call : Caller) : Prop :=
  ∀ name args scope location, Eval.Preserves Machine.Kept (call name args scope location)

/-! ## Expressions -/

open Eval

section Program

variable {R : Machine → Machine → Prop} [IsPreorder Machine R] {call : Caller} {scope : ScopeId}

mutual

/-- Evaluating an expression preserves what calls and builds do. -/
theorem Expr.preserves_eval
    (hcall : ∀ name args location, Preserves R (call name args scope location))
    (hbuild : ∀ x : Build Value, x.Blind → Preserves R (build x)) :
    (e : Expr) → Preserves R (e.eval call scope)
  | .literal v => preserves_pure v
  | .variable name location => by
    unfold Expr.eval
    refine preserves_ofStore_bind _ ?_
    intro found
    cases found with
    | some v => exact preserves_pure v
    | none => exact preserves_fail _
  | .list items separator =>
    preserves_bind (preserves_evalItems hcall hbuild items) fun _ => hbuild _ (Build.blind_make _)
  | .unary op operand location =>
    preserves_bind (Expr.preserves_eval hcall hbuild operand) fun v =>
      preserves_locate (hbuild _ (op.blind_apply v))
  | .binary op left right location => by
    unfold Expr.eval
    refine preserves_bind (Expr.preserves_eval hcall hbuild left) ?_
    intro l
    split
    · exact preserves_pure l
    · refine preserves_bind (Expr.preserves_eval hcall hbuild right) ?_
      intro r
      split
      · exact preserves_pure r
      · exact preserves_locate (hbuild _ (op.blind_apply l r))
  | .call name args location =>
    preserves_bind (preserves_evalArgs hcall hbuild args) fun vs => hcall name vs location

theorem preserves_evalItems
    (hcall : ∀ name args location, Preserves R (call name args scope location))
    (hbuild : ∀ x : Build Value, x.Blind → Preserves R (build x)) :
    (es : List Expr) → Preserves R (evalItems call scope es)
  | [] => preserves_pure []
  | e :: es =>
    preserves_bind (Expr.preserves_eval hcall hbuild e) fun v =>
      preserves_bind (preserves_evalItems hcall hbuild es) fun vs => preserves_pure (v :: vs)

theorem preserves_evalArgs
    (hcall : ∀ name args location, Preserves R (call name args scope location))
    (hbuild : ∀ x : Build Value, x.Blind → Preserves R (build x)) :
    (args : List Arg) → Preserves R (evalArgs call scope args)
  | [] => preserves_pure _
  | .mk name e :: args =>
    preserves_bind (Expr.preserves_eval hcall hbuild e) fun v =>
      preserves_bind (preserves_evalArgs hcall hbuild args) fun rest =>
        preserves_pure (rest.cons name v)

end

end Program

/-- Evaluating an expression keeps the machine. -/
theorem Expr.keeps_eval {call : Caller} (hcall : Caller.Keeps call) (scope : ScopeId) (e : Expr) :
    Preserves Machine.Kept (e.eval call scope) :=
  e.preserves_eval (fun name args => hcall name args scope) fun _ hx => keeps_build hx.steady

theorem keeps_evalArgs {call : Caller} (hcall : Caller.Keeps call) (scope : ScopeId)
    (args : List Arg) : Preserves Machine.Kept (evalArgs call scope args) :=
  preserves_evalArgs (fun name args => hcall name args scope) (fun _ hx => keeps_build hx.steady) args

/-! ## Statements -/

namespace Stmt

/-- The variables that statements assign before they return, not counting those of
    the functions that they define. -/
def assigned : List Stmt → List String
  | [] => []
  | .assign name _ :: rest => name :: assigned rest
  | .result _ :: _ => []
  | .define .. :: rest => assigned rest

/-- The functions that statements define before they return, not counting those that
    are defined within them. -/
def defined : List Stmt → List String
  | [] => []
  | .assign .. :: rest => defined rest
  | .result _ :: _ => []
  | .define name .. :: rest => name :: defined rest

end Stmt

/-- A name that is among others, however they are spelled. -/
def NamedIn (names : List String) (name : String) : Prop := ∃ other ∈ names, SameName other name

section Program

variable {R : Machine → Machine → Prop} [IsPreorder Machine R] {call : Caller}
  {evaluate : Evaluator} {scope : ScopeId}

/-- Statements preserve what their expressions, their assignments and their
    definitions do. -/
theorem Stmt.preserves_run (heval : ∀ e : Expr, Preserves R (e.eval call scope)) :
    (body : List Stmt) →
      (∀ name ∈ assigned body, ∀ v, Preserves R (Eval.define scope name v)) →
      (∀ d : Definition, d.name ∈ defined body →
        Preserves R (Eval.defineFunction scope (.ofDefinition d scope))) →
      Preserves R (Stmt.run call scope body)
  | [], _, _ => preserves_pure none
  | .assign name e :: rest, hassigned, hdefined => by
    unfold Stmt.run
    refine preserves_bind (heval e) ?_
    intro v
    refine preserves_bind (hassigned name List.mem_cons_self v) ?_
    intro _
    exact Stmt.preserves_run heval rest
      (fun other hmem => hassigned other (List.mem_cons_of_mem name hmem)) hdefined
  | .result e :: _, _, _ => by
    unfold Stmt.run
    refine preserves_bind (heval e) ?_
    intro v
    exact preserves_pure (some v)
  | .define name params body location :: rest, hassigned, hdefined => by
    unfold Stmt.run
    refine preserves_bind (hdefined ⟨name, params, body, location⟩ List.mem_cons_self) ?_
    intro _
    exact Stmt.preserves_run heval rest hassigned
      (fun d hmem => hdefined d (List.mem_cons_of_mem name hmem))

/-- A body preserves what its statements do when they are counted as one. -/
theorem Definition.preserves_run {d : Definition}
    (hbody : Preserves R (nested (Stmt.run call scope d.body))) (limit : Nat) :
    Preserves R (d.run limit call scope) := by
  intro m
  by_cases hdepth : m.depth < limit
  · rw [d.run_below_limit hdepth]
    refine preserves_bind hbody ?_ m
    intro v
    cases v with
    | some v => exact preserves_pure v
    | none => exact preserves_fail _
  · rw [d.run_at_limit (Nat.le_of_not_lt hdepth)]
    exact refl_of R m

theorem Slot.preserves_value? (heval : ∀ e, Preserves R (evaluate e scope)) (slot : Slot) :
    Preserves R (slot.value? evaluate scope) := by
  unfold Slot.value?
  split
  · exact preserves_pure _
  · exact preserves_pure _
  · rw [map_eq_pure_bind]
    exact preserves_bind (heval _) fun v => preserves_pure (some v)
  · exact preserves_pure _

/-- Binding preserves what evaluating defaults, building a list and writing variables
    do. -/
theorem Slot.preserves_fill (heval : ∀ e, Preserves R (evaluate e scope))
    (hdefine : ∀ name v, Preserves R (define scope name v)) :
    (slots : List Slot) → Preserves R (Slot.fill evaluate scope slots)
  | [] => preserves_pure []
  | slot :: slots => by
    rw [Slot.fill_cons]
    refine preserves_bind (Slot.preserves_value? heval slot) ?_
    intro v
    cases v with
    | some v =>
      refine preserves_bind (hdefine slot.param.name v) ?_
      intro _
      exact Slot.preserves_fill heval hdefine slots
    | none =>
      refine preserves_bind (Slot.preserves_fill heval hdefine slots) ?_
      intro missing
      exact preserves_pure (slot.param.name :: missing)

theorem Params.preserves_bind (heval : ∀ e, Preserves R (evaluate e scope))
    (hdefine : ∀ name v, Preserves R (define scope name v))
    (hbuild : ∀ x : Build Value, x.Blind → Preserves R (build x)) (p : Params)
    (function : String) (args : Args) : Preserves R (p.bind function args evaluate scope) := by
  intro m
  cases hplace : p.place args with
  | error fault =>
    rw [Params.bind_of_place_error hplace]
    exact refl_of R m
  | ok slots =>
    rw [Params.bind_of_place_ok hplace]
    refine Eval.preserves_bind (Slot.preserves_fill heval hdefine slots) ?_ m
    intro missing
    cases missing with
    | cons _ _ => exact preserves_fail _
    | nil =>
      unfold Params.complete Params.bindRest
      cases p.rest with
      | none => exact preserves_pure ()
      | some rest =>
        refine Eval.preserves_bind (hbuild _ (Build.blind_make _)) ?_
        intro list
        exact hdefine rest list

end Program

/-- Running statements in a scope edits that scope, at the names that they
    assign and define. -/
theorem Stmt.edits_run {call : Caller} (hcall : Caller.Keeps call) (scope : ScopeId)
    (body : List Stmt) :
    Preserves (Machine.Edited scope (NamedIn (assigned body)) (NamedIn (defined body)))
      (Stmt.run call scope body) := by
  apply Stmt.preserves_run
  · intro e
    exact (e.keeps_eval hcall scope).edited
  · intro name hname v
    refine (edits_define scope name v).mono fun _ _ h => h.mono ?_ fun _ => False.elim
    intro other hsame
    exact ⟨name, hname, hsame⟩
  · intro d hd
    refine (edits_defineFunction scope _).mono fun _ _ h => h.mono (fun _ => False.elim) ?_
    intro other hsame
    exact ⟨d.name, hd, hsame⟩

/-- A body writes what its statements do. -/
theorem Definition.edits_run {call : Caller} (hcall : Caller.Keeps call) (d : Definition)
    (limit : Nat) (scope : ScopeId) :
    Preserves (Machine.Edited scope (NamedIn (Stmt.assigned d.body)) (NamedIn (Stmt.defined d.body)))
      (d.run limit call scope) :=
  Definition.preserves_run (edits_nested (Stmt.edits_run hcall scope d.body)) limit

/-! ## Binding -/

/-- A way to evaluate defaults that keeps the machine. -/
def Evaluator.Keeps (evaluate : Evaluator) : Prop :=
  ∀ e scope, Preserves Machine.Kept (evaluate e scope)

theorem Slot.keeps_value? {evaluate : Evaluator} (hev : Evaluator.Keeps evaluate)
    (scope : ScopeId) (slot : Slot) : Preserves Machine.Kept (slot.value? evaluate scope) :=
  Slot.preserves_value? (fun e => hev e scope) slot

/-- Binding arguments defines no function, and writes to its scope only. -/
theorem Params.edits_bind (p : Params) (function : String) (args : Args) {evaluate : Evaluator}
    (hev : Evaluator.Keeps evaluate) (scope : ScopeId) :
    Preserves (Machine.Edited scope (fun _ => True) fun _ => False)
      (p.bind function args evaluate scope) := by
  apply Params.preserves_bind
  · intro e
    exact (hev e scope).edited
  · intro name v
    exact (edits_define scope name v).mono fun _ _ h => h.mono (fun _ _ => trivial) fun _ => id
  · intro x hx
    exact (keeps_build hx.steady).edited

/-! ## Calls -/

namespace Session

theorem keeps_evaluator {call : Caller} (hcall : Caller.Keeps call) :
    Evaluator.Keeps (evaluator call) :=
  fun e scope => e.keeps_eval hcall scope

/-- A builtin keeps the machine, because it can only build. -/
theorem keeps_runNative (s : Session) (name : String) (run : NativeCode) (bound scope : ScopeId)
    (location : Option Location) :
    Preserves Machine.Kept (s.runNative name run bound scope location) := by
  unfold runNative
  exact preserves_ofStore_bind _ fun _ => keeps_build (Build.steady_stamped _ _)

theorem edits_finish (s : Session) {call : Caller} (hcall : Caller.Keeps call) (f : Function)
    (inner scope : ScopeId) (location : Option Location) :
    Preserves (Machine.Edited inner (fun _ => True) fun _ => True)
      (s.finish call f inner scope location) := by
  unfold finish
  split
  · exact (s.keeps_runNative _ _ _ _ _).edited
  · rename_i definition _ _
    refine preserves_locate ?_
    exact (definition.edits_run hcall _ inner).mono fun _ _ h =>
      h.mono (fun _ _ => trivial) fun _ _ => trivial

theorem edits_perform (s : Session) {call : Caller} (hcall : Caller.Keeps call) (f : Function)
    (args : Args) (scope : ScopeId) (location : Option Location) (inner : ScopeId) :
    Preserves (Machine.Edited inner (fun _ => True) fun _ => True)
      (s.perform call f args scope location inner) := by
  refine preserves_bind (preserves_locate ?_) fun _ => s.edits_finish hcall f inner scope location
  exact (f.params.edits_bind f.name args (keeps_evaluator hcall) inner).mono fun _ _ h =>
    h.mono (fun _ => id) fun _ => False.elim

theorem keeps_invoke (s : Session) {call : Caller} (hcall : Caller.Keeps call) (f : Function)
    (args : Args) (scope : ScopeId) (location : Option Location) :
    Preserves Machine.Kept (s.invoke call f args scope location) := by
  intro m
  cases halive : f.body.alive m.store with
  | true =>
    rw [invoke_alive halive]
    exact keeps_inNewScope (s.edits_perform hcall f args scope location) m
  | false =>
    rw [invoke_dead halive]
    exact .refl m

/-- A call keeps the machine, whichever function it reaches and however deep the
    calls within it are followed. -/
theorem keeps_call (s : Session) (fuel : Nat) : Caller.Keeps (s.call fuel) := by
  induction fuel with
  | zero => exact fun _ _ _ _ m => .refl m
  | succ fuel ih =>
    intro name args scope location m
    cases htarget : s.target m.store name args.count scope with
    | ok f =>
      rw [call_target htarget]
      exact s.keeps_invoke ih f args scope location m
    | error e =>
      rw [call_no_target htarget]
      exact .refl m

/-- Evaluating an expression keeps the machine. -/
theorem keeps_eval (s : Session) (fuel : Nat) (e : Expr) (scope : ScopeId) :
    Preserves Machine.Kept (s.eval fuel e scope) :=
  e.keeps_eval (s.keeps_call fuel) scope

theorem keeps_callAlone (s : Session) (fuel : Nat) (name : String) (args : Args)
    (location : Option Location) :
    Preserves Machine.Kept (s.callAlone fuel name args location) := by
  have hcall (scope : ScopeId) : Preserves (Machine.Edited scope (fun _ => False) fun _ => False)
      (s.call fuel name args scope location) :=
    (s.keeps_call fuel name args scope location).edited
  exact keeps_inNewScope hcall

end Session

end StyleScript
