-- SUMMARY: What a host program asks of a session, the moments of answering it, and what these preserve.
import StyleScript.Proofs.Tasks

/-!
# Requests

A host program has a session evaluate an expression, run statements or a body, make a
call or bind arguments. Each of these requests starts with one task at most, and the
tasks that come of it are the moments of its answer. A moment is reached through the
tasks that are under way at that moment: each of them was started by the one before and
has not come to its end.

A relation between machines is preserved by a request when calls, builds and single
writes preserve it. What is proved about requests is an instance of this.
-/

namespace StyleScript

open Eval

/-! ## Relations that programs stay within -/

/-- A relation that calls, builds and single writes preserve. A function that is written
    to a scope refers to that scope. -/
structure Caller.StaysWithin (R : Machine → Machine → Prop) (call : Caller) : Prop where
  calls : ∀ name args scope location, Preserves R (call name args scope location)
  builds : ∀ x : Build Value, x.Blind → Preserves R (build x)
  define : ∀ (m : Machine) scope name v, R m (m.define scope name v)
  defineFunction : ∀ (m : Machine) scope d, R m (m.defineFunction scope (.ofDefinition d scope))
  withDepth : ∀ (m : Machine) n, R m (m.withDepth n)

section StaysWithin

variable {R : Machine → Machine → Prop}

namespace Caller.StaysWithin

variable [IsPreorder Machine R] {call : Caller} (h : call.StaysWithin R)

include h

theorem eval (e : Expr) (scope : ScopeId) : Preserves R (e.eval call scope) :=
  e.preserves_eval (fun name args => h.calls name args scope) h.builds

theorem run (body : List Stmt) (scope : ScopeId) : Preserves R (Stmt.run call scope body) := by
  apply Stmt.preserves_run
  · intro e
    exact h.eval e scope
  · intro name _ v m
    exact h.define m scope name v
  · intro d _ m
    exact h.defineFunction m scope d

theorem body (d : Definition) (limit : Nat) (scope : ScopeId) :
    Preserves R (d.run limit call scope) :=
  Definition.preserves_run (preserves_nested h.withDepth (h.run d.body scope)) limit

theorem bind (p : Params) (function : String) (args : Args) (scope : ScopeId) :
    Preserves R (p.bind function args (Session.evaluator call) scope) := by
  apply Params.preserves_bind
  · intro e
    exact h.eval e scope
  · intro name v m
    exact h.define m scope name v
  · exact h.builds

end Caller.StaysWithin

/-- Calls and builds keep the machine, so what remains to be seen is what writes do. -/
theorem Session.staysWithin_of_kept (s : Session) (fuel : Nat)
    (hkept : ∀ m m' : Machine, m.Kept m' → R m m')
    (hdefine : ∀ (m : Machine) scope name v, R m (m.define scope name v))
    (hfunction : ∀ (m : Machine) scope d, R m (m.defineFunction scope (.ofDefinition d scope)))
    (hdepth : ∀ (m : Machine) n, R m (m.withDepth n)) : (s.call fuel).StaysWithin R where
  calls name args scope location := (s.keeps_call fuel name args scope location).mono hkept
  builds _ hx := (keeps_build hx.steady).mono hkept
  define := hdefine
  defineFunction := hfunction
  withDepth := hdepth

end StaysWithin

/-! ## Requests and their moments -/

/-- What a host program can ask of a session. -/
inductive Request where
  | eval (e : Expr) (scope : ScopeId)
  | run (body : List Stmt) (scope : ScopeId)
  | runBody (d : Definition) (scope : ScopeId)
  | call (name : String) (args : Args) (scope : ScopeId) (location : Option Location)
  | callAlone (name : String) (args : Args) (location : Option Location)
  | bind (p : Params) (function : String) (args : Args) (scope : ScopeId)

namespace Request

/-- The scope that a request is about. -/
def scope? : Request → Option ScopeId
  | .eval _ scope => some scope
  | .run _ scope => some scope
  | .runBody _ scope => some scope
  | .call _ _ scope _ => some scope
  | .callAlone .. => none
  | .bind _ _ _ scope => some scope

/-- The answer to a request: a value, or none when statements return none and when
    arguments are only bound. -/
def answer (s : Session) (fuel : Nat) : Request → Eval (Option Value)
  | .eval e scope => some <$> s.eval fuel e scope
  | .run body scope => s.run fuel body scope
  | .runBody d scope => some <$> s.runBody fuel d scope
  | .call name args scope location => some <$> s.call fuel name args scope location
  | .callAlone name args location => some <$> s.callAlone fuel name args location
  | .bind p function args scope => do
    p.bind function args (s.eval fuel) scope
    return none

/-- The machine that is left when a request was answered, whatever the answer is. -/
def after (s : Session) (fuel : Nat) (m : Machine) : Request → Machine
  | .eval e scope => Outcome.machine (s.eval fuel e scope m)
  | .run body scope => Outcome.machine (s.run fuel body scope m)
  | .runBody d scope => Outcome.machine (s.runBody fuel d scope m)
  | .call name args scope location => Outcome.machine (s.call fuel name args scope location m)
  | .callAlone name args location => Outcome.machine (s.callAlone fuel name args location m)
  | .bind p function args scope =>
    Outcome.machine (p.bind function args (s.eval fuel) scope m)

theorem preserves_after {R : Machine → Machine → Prop} [IsPreorder Machine R] {s : Session}
    {fuel : Nat} (h : (s.call fuel).StaysWithin R)
    (halone : ∀ name args location, Preserves R (s.callAlone fuel name args location))
    (m : Machine) (r : Request) : R m (r.after s fuel m) := by
  cases r with
  | eval e scope => exact h.eval e scope m
  | run body scope => exact h.run body scope m
  | runBody d scope => exact h.body d _ scope m
  | call name args scope location => exact h.calls name args scope location m
  | callAlone name args location => exact halone name args location m
  | bind p function args scope => exact h.bind p function args scope m

/-- The task that a request starts with, on the machine that this task finds. The number
    tells how many bodies begin by that. -/
inductive Begins (s : Session) (m : Machine) : Request → Nat → Task → Machine → Prop where
  | eval {e scope} : Begins s m (.eval e scope) 0 (.expr e scope) m
  | run {body scope} : Begins s m (.run body scope) 0 (.stmts body scope) m
  | runBody {d scope} :
    m.full s.options.maxDepth = false →
    Begins s m (.runBody d scope) 1 (.stmts d.body scope) m.inBody
  | call {name args scope location} :
    Begins s m (.call name args scope location) 0 (.call name args scope location) m
  | callAlone {name args location} :
    Begins s m (.callAlone name args location) 0 (.call name args m.store.next location)
      (m.enter none)
  | bind {p function args scope slots} :
    p.place args = .ok slots → Begins s m (.bind p function args scope) 0 (.fill slots scope) m

/-- A moment of the answer to a request: a task that is started, and the machine that it
    finds. The number tells how many bodies are being run at that moment for the request,
    and the list has the scopes of the tasks that are under way, the innermost first. -/
inductive Moment (s : Session) (m : Machine) (r : Request) :
    Nat → List ScopeId → Task → Machine → Prop where
  | first {k t m'} : r.Begins s m k t m' → Moment s m r k [t.scope] t m'
  | next {j k active t t' m₁ m'} :
    Moment s m r j active t m₁ → s.Starts k t m₁ t' m' →
    Moment s m r (j + k) (t'.scope :: active) t' m'

end Request

end StyleScript
