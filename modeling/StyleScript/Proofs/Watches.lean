-- SUMMARY: Runs that are watched at every moment, and watches that never stop them.
import StyleScript.Proofs.Requests

/-!
# Watches

A watch looks at the moments of a run. At each of them it is shown the machine and how many
bodies are being run, and it may stop the run there with an interruption of its choice. A
watched run does what the run itself does, and has its watch look whenever an expression,
a rest of statements, a call or a body begins, and again whenever one of these ends, with a
result or not. How many bodies are being run is counted apart from the machine: the
statements of a body are watched with a count that is one higher.

So a fact about machines is a fact about all moments of a run when no watch that stops
elsewhere only ever stops the run. Main statement: this is so of the fact that the machine
counts the bodies that are being run, and that they are not more than the limit allows
unless there were more before. Then the watched run is the run itself.
-/

namespace StyleScript

open Eval

variable {α β : Type}

/-! ## Watched runs -/

/-- What a watch does when it is shown how many bodies are being run, and the machine: it
    stops the run, or lets it go on. -/
abbrev Watch := Nat → Machine → Option Interruption

namespace Watch

/-- Look at the machine that an outcome leaves. -/
def look (w : Watch) (n : Nat) (o : Outcome α) : Outcome α :=
  match w n (Outcome.machine o) with
  | some stop => .error stop (Outcome.machine o)
  | none => o

/-- Look at the machine before a computation and after it. -/
def around (w : Watch) (n : Nat) (x : Eval α) : Eval α := fun m =>
  match w n m with
  | some stop => .error stop m
  | none => w.look n (x m)

end Watch

mutual

/-- Evaluate an expression under a watch, while `n` bodies are being run. -/
def Expr.watched (w : Watch) (n : Nat) (call : Caller) (scope : ScopeId) : Expr → Eval Value
  | .literal v => w.around n ((Expr.literal v).eval call scope)
  | .variable name location => w.around n ((Expr.variable name location).eval call scope)
  | .list items separator => w.around n do
    let values ← watchedItems w n call scope items
    build (Build.list values separator)
  | .unary op operand location => w.around n do
    let v ← operand.watched w n call scope
    locate location (build (op.apply v))
  | .binary op left right location => w.around n do
    let l ← left.watched w n call scope
    if (op = .and ∧ !l.isTruthy) ∨ (op = .or ∧ l.isTruthy) then pure l
    else
      let r ← right.watched w n call scope
      if op = .and ∨ op = .or then pure r
      else locate location (build (op.apply l r))
  | .call name args location => w.around n do
    let vs ← watchedArgs w n call scope args
    call name vs scope location

def watchedItems (w : Watch) (n : Nat) (call : Caller) (scope : ScopeId) :
    List Expr → Eval (List Value)
  | [] => pure []
  | e :: es => do
    let v ← e.watched w n call scope
    let vs ← watchedItems w n call scope es
    return v :: vs

def watchedArgs (w : Watch) (n : Nat) (call : Caller) (scope : ScopeId) : List Arg → Eval Args
  | [] => pure ⟨[], []⟩
  | .mk name e :: args => do
    let v ← e.watched w n call scope
    let rest ← watchedArgs w n call scope args
    return rest.cons name v

end

/-- Run statements under a watch, while `n` bodies are being run. -/
def Stmt.watched (w : Watch) (n : Nat) (call : Caller) (scope : ScopeId) :
    List Stmt → Eval (Option Value)
  | [] => w.around n (pure none)
  | .assign name e :: rest => w.around n do
    let v ← e.watched w n call scope
    Eval.define scope name v
    watched w n call scope rest
  | .result e :: _ => w.around n do
    let v ← e.watched w n call scope
    return some v
  | .define name params body location :: rest => w.around n do
    Eval.defineFunction scope (.ofDefinition ⟨name, params, body, location⟩ scope)
    watched w n call scope rest

namespace Session

/-- Evaluate defaults and run bodies under a watch, while `n` bodies are being run. During
    the statements of a body it is one more. -/
def watchedInterpreter (s : Session) (w : Watch) (n : Nat) (call : Nat → Caller) : Interpreter where
  eval e scope := e.watched w n (call n) scope
  body d scope := w.around n
    (d.counted s.options.maxDepth (Stmt.watched w (n + 1) (call (n + 1)) scope d.body))

/-- Make a call under a watch, while `n` bodies are being run. -/
def watchedCall (s : Session) (w : Watch) : Nat → Nat → Caller
  | 0, _ => fun _ _ _ _ => throw .outOfFuel
  | fuel + 1, n => fun name args scope location =>
    let interpreter := s.watchedInterpreter w n (s.watchedCall w fuel)
    w.around n (s.dispatch (s.invokeBy interpreter) name args scope location)

/-- Evaluate an expression under a watch. -/
def watchedEval (s : Session) (w : Watch) (fuel : Nat) (e : Expr) (scope : ScopeId) : Eval Value :=
  e.watched w 0 (s.watchedCall w fuel 0) scope

end Session

/-- The answer to a request under a watch. -/
def Request.watchedAnswer (s : Session) (w : Watch) (fuel : Nat) : Request → Eval (Option Value)
  | .eval e scope => some <$> s.watchedEval w fuel e scope
  | .run body scope => Stmt.watched w 0 (s.watchedCall w fuel 0) scope body
  | .runBody d scope => some <$> (s.watchedInterpreter w 0 (s.watchedCall w fuel)).body d scope
  | .call name args scope location => some <$> s.watchedCall w fuel 0 name args scope location
  | .callAlone name args location =>
    some <$> inNewScope none fun scope => s.watchedCall w fuel 0 name args scope location
  | .bind p function args scope => do
    p.bind function args (s.watchedEval w fuel) scope
    return none

/-! ## Computations that are the same on some machines -/

namespace Eval

/-- Computations that come to the same outcome on machines that count `depth` bodies, and
    leave such machines. -/
def SameAt (depth : Nat) (x y : Eval α) : Prop :=
  ∀ m : Machine, m.depth = depth → x m = y m ∧ (Outcome.machine (y m)).depth = depth

variable {depth : Nat} {x y : Eval α}

theorem sameAt_self (h : ∀ m : Machine, (Outcome.machine (x m)).depth = m.depth) :
    SameAt depth x x := by
  intro m hm
  exact ⟨rfl, (h m).trans hm⟩

theorem sameAt_pure (a : α) : SameAt depth (pure a) (pure a) := sameAt_self fun _ => rfl

theorem sameAt_fail (e : Error) : SameAt depth (fail e : Eval α) (fail e) :=
  sameAt_self fun _ => rfl

theorem sameAt_build (b : Build α) : SameAt depth (build b) (build b) := by
  refine sameAt_self fun m => ?_
  unfold build
  cases b m.builder <;> rfl

theorem sameAt_define (scope : ScopeId) (name : String) (v : Value) :
    SameAt depth (define scope name v) (define scope name v) :=
  sameAt_self fun _ => rfl

theorem sameAt_bind {f g : α → Eval β} (hx : SameAt depth x y)
    (hf : ∀ a, SameAt depth (f a) (g a)) : SameAt depth (x >>= f) (y >>= g) := by
  intro m hm
  obtain ⟨hsame, hdepth⟩ := hx m hm
  cases hy : y m with
  | ok a n =>
    rw [hy] at hsame hdepth
    rw [bind_ok hsame, bind_ok hy]
    exact hf a n hdepth
  | error e n =>
    rw [hy] at hsame hdepth
    rw [bind_error hsame, bind_error hy]
    exact ⟨rfl, hdepth⟩

theorem sameAt_map (f : α → β) (h : SameAt depth x y) : SameAt depth (f <$> x) (f <$> y) := by
  rw [map_eq_pure_bind, map_eq_pure_bind]
  exact sameAt_bind h fun a => sameAt_pure (f a)

theorem sameAt_ofStore_bind (read : Store → β) {f g : β → Eval α}
    (hf : ∀ b, SameAt depth (f b) (g b)) :
    SameAt depth (ofStore read >>= f) (ofStore read >>= g) :=
  sameAt_bind (sameAt_self fun _ => rfl) hf

theorem sameAt_locate (place : Option Location) (h : SameAt depth x y) :
    SameAt depth (locate place x) (locate place y) := by
  intro m hm
  obtain ⟨hsame, hdepth⟩ := h m hm
  refine ⟨?_, ?_⟩
  · unfold locate
    rw [hsame]
  · rw [machine_locate]
    exact hdepth

theorem sameAt_inNewScope (parent : Option ScopeId) {body body' : ScopeId → Eval α}
    (h : ∀ id, SameAt depth (body id) (body' id)) :
    SameAt depth (inNewScope parent body) (inNewScope parent body') := by
  intro m hm
  obtain ⟨hsame, hdepth⟩ := h m.store.next (m.enter parent) hm
  rw [inNewScope_apply, inNewScope_apply, hsame]
  refine ⟨rfl, ?_⟩
  rw [Outcome.machine_onMachine]
  exact hdepth

/-- What is counted as a body finds machines that count one more. -/
theorem sameAt_nested (h : SameAt (depth + 1) x y) : SameAt depth (nested x) (nested y) := by
  intro m hm
  obtain ⟨hsame, hdepth⟩ := h (m.withDepth (m.depth + 1)) (congrArg (· + 1) hm)
  rw [nested_apply, nested_apply, hsame]
  refine ⟨rfl, ?_⟩
  rw [Outcome.machine_onMachine, Machine.depth_withDepth, hdepth]
  rfl

/-- A body begins only where the limit allows one more. -/
theorem sameAt_counted (d : Definition) (limit : Nat) {x y : Eval (Option Value)}
    (h : depth < limit → SameAt (depth + 1) x y) :
    SameAt depth (d.counted limit x) (d.counted limit y) := by
  intro m hm
  unfold Definition.counted
  rw [get_bind_apply, get_bind_apply]
  cases hfull : m.full limit with
  | true => exact ⟨rfl, hm⟩
  | false =>
    have hroom : depth < limit := hm ▸ Machine.not_full_iff.1 hfull
    refine sameAt_bind (sameAt_nested (h hroom)) (fun v => ?_) m hm
    cases v with
    | some v => exact sameAt_pure v
    | none => exact sameAt_fail _

end Eval

/-! ## Watches that let pass -/

namespace Watch

/-- A watch lets pass the machines that count `depth` bodies while `n` are being run. -/
def PassesAt (w : Watch) (n depth : Nat) : Prop := ∀ m : Machine, m.depth = depth → w n m = none

/-- A watch lets pass every machine that counts the bodies that are being run, from `start`
    on, as long as they are no more than the limit allows or than there were. -/
def Passes (w : Watch) (start limit : Nat) : Prop :=
  ∀ (n : Nat) (m : Machine), m.depth = start + n → m.depth ≤ max start limit → w n m = none

/-- The watch that stops a run where the machine does not count the bodies that are being
    run, or counts more than may be. -/
def onMiscount (start limit : Nat) (stop : Interruption) : Watch := fun n m =>
  if m.depth = start + n ∧ m.depth ≤ max start limit then none else some stop

theorem passes_onMiscount (start limit : Nat) (stop : Interruption) :
    (onMiscount start limit stop).Passes start limit :=
  fun _ _ hdepth hlimit => if_pos ⟨hdepth, hlimit⟩

variable {w : Watch} {n start limit depth : Nat}

theorem Passes.passesAt (h : w.Passes start limit) (hn : start + n ≤ max start limit) :
    w.PassesAt n (start + n) := by
  intro m hm
  exact h n m hm (hm ▸ hn)

theorem sameAt_around (hw : w.PassesAt n depth) {x y : Eval α} (h : SameAt depth x y) :
    SameAt depth (w.around n x) y := by
  intro m hm
  obtain ⟨hsame, hdepth⟩ := h m hm
  refine ⟨?_, hdepth⟩
  rw [around, hw m hm, hsame]
  change w.look n (y m) = y m
  rw [look, hw _ hdepth]

end Watch

/-! ## Expressions and statements -/

section Program

variable {w : Watch} {n depth : Nat} {call call' : Caller} {scope : ScopeId}

/-- Ways to make calls that are the same on machines that count `depth` bodies. -/
def Caller.SameAt (depth : Nat) (call call' : Caller) : Prop :=
  ∀ name args scope location,
    Eval.SameAt depth (call name args scope location) (call' name args scope location)

mutual

theorem Expr.sameAt_watched (hw : w.PassesAt n depth) (hcall : Caller.SameAt depth call call') :
    (e : Expr) → Eval.SameAt depth (e.watched w n call scope) (e.eval call' scope)
  | .literal v => w.sameAt_around hw (sameAt_pure v)
  | .variable name location => by
    unfold Expr.watched
    refine Watch.sameAt_around hw (sameAt_ofStore_bind _ fun found => ?_)
    cases found with
    | some v => exact sameAt_pure v
    | none => exact sameAt_fail _
  | .list items separator =>
    Watch.sameAt_around hw <|
      sameAt_bind (sameAt_watchedItems hw hcall items) fun vs => sameAt_build _
  | .unary op operand location =>
    Watch.sameAt_around hw <|
      sameAt_bind (Expr.sameAt_watched hw hcall operand) fun v =>
        sameAt_locate location (sameAt_build _)
  | .binary op left right location => by
    unfold Expr.watched
    refine Watch.sameAt_around hw (sameAt_bind (Expr.sameAt_watched hw hcall left) fun l => ?_)
    split
    · exact sameAt_pure l
    · refine sameAt_bind (Expr.sameAt_watched hw hcall right) fun r => ?_
      split
      · exact sameAt_pure r
      · exact sameAt_locate location (sameAt_build _)
  | .call name args location =>
    Watch.sameAt_around hw <|
      sameAt_bind (sameAt_watchedArgs hw hcall args) fun vs => hcall name vs scope location

theorem sameAt_watchedItems (hw : w.PassesAt n depth) (hcall : Caller.SameAt depth call call') :
    (es : List Expr) →
      Eval.SameAt depth (watchedItems w n call scope es) (evalItems call' scope es)
  | [] => sameAt_pure []
  | e :: es =>
    sameAt_bind (Expr.sameAt_watched hw hcall e) fun v =>
      sameAt_bind (sameAt_watchedItems hw hcall es) fun vs => sameAt_pure (v :: vs)

theorem sameAt_watchedArgs (hw : w.PassesAt n depth) (hcall : Caller.SameAt depth call call') :
    (args : List Arg) →
      Eval.SameAt depth (watchedArgs w n call scope args) (evalArgs call' scope args)
  | [] => sameAt_pure _
  | .mk name e :: args =>
    sameAt_bind (Expr.sameAt_watched hw hcall e) fun v =>
      sameAt_bind (sameAt_watchedArgs hw hcall args) fun rest => sameAt_pure (rest.cons name v)

end

theorem Stmt.sameAt_watched (hw : w.PassesAt n depth) (hcall : Caller.SameAt depth call call') :
    (body : List Stmt) →
      Eval.SameAt depth (Stmt.watched w n call scope body) (Stmt.run call' scope body)
  | [] => Watch.sameAt_around hw (sameAt_pure none)
  | .assign name e :: rest =>
    Watch.sameAt_around hw <|
      sameAt_bind (e.sameAt_watched hw hcall) fun v =>
        sameAt_bind (sameAt_define scope name v) fun _ => Stmt.sameAt_watched hw hcall rest
  | .result e :: _ =>
    Watch.sameAt_around hw <|
      sameAt_bind (e.sameAt_watched hw hcall) fun v => sameAt_pure (some v)
  | .define .. :: rest =>
    Watch.sameAt_around hw <|
      sameAt_bind (sameAt_self fun _ => rfl) fun _ => Stmt.sameAt_watched hw hcall rest

end Program

/-! ## Calls -/

section Calls

variable {depth : Nat} {evaluate evaluate' : Evaluator} {scope : ScopeId}

theorem Slot.sameAt_value? (h : ∀ e, Eval.SameAt depth (evaluate e scope) (evaluate' e scope))
    (slot : Slot) :
    Eval.SameAt depth (slot.value? evaluate scope) (slot.value? evaluate' scope) := by
  unfold Slot.value?
  split
  · exact sameAt_pure _
  · exact sameAt_pure _
  · exact sameAt_map some (h _)
  · exact sameAt_pure _

theorem Slot.sameAt_fill (h : ∀ e, Eval.SameAt depth (evaluate e scope) (evaluate' e scope)) :
    (slots : List Slot) →
      Eval.SameAt depth (Slot.fill evaluate scope slots) (Slot.fill evaluate' scope slots)
  | [] => sameAt_pure []
  | slot :: slots => by
    rw [Slot.fill_cons, Slot.fill_cons]
    refine sameAt_bind (slot.sameAt_value? h) fun v => ?_
    cases v with
    | some v =>
      exact sameAt_bind (sameAt_define scope slot.param.name v) fun _ => Slot.sameAt_fill h slots
    | none =>
      exact sameAt_bind (Slot.sameAt_fill h slots) fun missing =>
        sameAt_pure (slot.param.name :: missing)

theorem Params.sameAt_bind (h : ∀ e, Eval.SameAt depth (evaluate e scope) (evaluate' e scope))
    (p : Params) (function : String) (args : Args) :
    Eval.SameAt depth (p.bind function args evaluate scope)
      (p.bind function args evaluate' scope) := by
  intro m hm
  cases hplace : p.place args with
  | error fault =>
    rw [Params.bind_of_place_error hplace, Params.bind_of_place_error hplace]
    exact ⟨rfl, hm⟩
  | ok slots =>
    rw [Params.bind_of_place_ok hplace, Params.bind_of_place_ok hplace]
    refine Eval.sameAt_bind (Slot.sameAt_fill h slots) (fun missing => ?_) m hm
    cases missing with
    | cons _ _ => exact sameAt_fail _
    | nil =>
      unfold Params.complete Params.bindRest
      cases p.rest with
      | none => exact sameAt_pure ()
      | some rest =>
        exact Eval.sameAt_bind (sameAt_build _) fun list => sameAt_define scope rest list

/-- Interpreters that are the same on machines that count `depth` bodies. -/
structure Interpreter.SameAt (depth : Nat) (i j : Interpreter) : Prop where
  eval : ∀ e scope, Eval.SameAt depth (i.eval e scope) (j.eval e scope)
  body : ∀ d scope, Eval.SameAt depth (i.body d scope) (j.body d scope)

namespace Session

variable {s : Session}

theorem sameAt_invokeBy {i j : Interpreter} (h : i.SameAt depth j) (f : Function) (args : Args)
    (scope : ScopeId) (location : Option Location) :
    Eval.SameAt depth (s.invokeBy i f args scope location) (s.invokeBy j f args scope location) := by
  have hbind (inner : ScopeId) := f.params.sameAt_bind (fun e => h.eval e inner) f.name args
  unfold invokeBy
  cases f.body with
  | native run =>
    refine sameAt_inNewScope none fun bound => ?_
    refine Eval.sameAt_bind (sameAt_locate location (hbind bound)) fun _ => ?_
    unfold runNative
    exact sameAt_ofStore_bind id fun store => sameAt_build _
  | written d closure =>
    refine sameAt_ofStore_bind _ fun alive => ?_
    split
    · refine sameAt_inNewScope (some closure) fun inner => ?_
      exact Eval.sameAt_bind (sameAt_locate location (hbind inner)) fun _ =>
        sameAt_locate location (h.body d inner)
    · exact sameAt_fail _

theorem sameAt_dispatch
    {invoke invoke' : Function → Args → ScopeId → Option Location → Eval Value}
    (h : ∀ f args scope location,
      Eval.SameAt depth (invoke f args scope location) (invoke' f args scope location)) :
    Caller.SameAt depth (s.dispatch invoke) (s.dispatch invoke') := by
  intro name args scope location
  unfold dispatch
  refine sameAt_ofStore_bind _ fun found => ?_
  cases found with
  | some f => exact h f args scope location
  | none =>
    dsimp only
    cases s.registry.resolve name args.count with
    | ok f => exact h f args scope location
    | error e => exact sameAt_fail _

variable {w : Watch} {start : Nat}

/-- A watched interpreter is the interpreter itself, when calls are: to the defaults as many
    bodies are being run, and to a body that begins one more. -/
theorem sameAt_watchedInterpreter (hw : w.Passes start s.options.maxDepth) {fuel n : Nat}
    (hn : start + n ≤ max start s.options.maxDepth)
    (hcall : ∀ k, start + k ≤ max start s.options.maxDepth →
      Caller.SameAt (start + k) (s.watchedCall w fuel k) (s.call fuel)) :
    (s.watchedInterpreter w n (s.watchedCall w fuel)).SameAt (start + n)
      (s.interpreter (s.call fuel)) where
  eval e _ := e.sameAt_watched (hw.passesAt hn) (hcall n hn)
  body d _ := by
    refine Watch.sameAt_around (hw.passesAt hn) (sameAt_counted d _ fun hroom => ?_)
    have hbody : start + (n + 1) ≤ max start s.options.maxDepth :=
      Nat.le_trans hroom (Nat.le_max_right _ _)
    exact Stmt.sameAt_watched (hw.passesAt hbody) (hcall (n + 1) hbody) d.body

/-- Watched calls are the calls themselves, however deep they are followed. -/
theorem sameAt_watchedCall (hw : w.Passes start s.options.maxDepth) (fuel : Nat) :
    ∀ n, start + n ≤ max start s.options.maxDepth →
      Caller.SameAt (start + n) (s.watchedCall w fuel n) (s.call fuel) := by
  induction fuel with
  | zero => exact fun _ _ _ _ _ _ => sameAt_self fun _ => rfl
  | succ fuel ih =>
    intro n hn name args scope location
    have hinterpreter := sameAt_watchedInterpreter hw hn ih
    refine Watch.sameAt_around (hw.passesAt hn) ?_
    exact sameAt_dispatch (sameAt_invokeBy hinterpreter) name args scope location

theorem watchedEval_eq {m : Machine} (hw : w.Passes m.depth s.options.maxDepth) (fuel : Nat)
    (e : Expr) (scope : ScopeId) : s.watchedEval w fuel e scope m = s.eval fuel e scope m := by
  have hstart : m.depth + 0 ≤ max m.depth s.options.maxDepth := Nat.le_max_left _ _
  exact (e.sameAt_watched (hw.passesAt hstart) (sameAt_watchedCall hw fuel 0 hstart) m rfl).1

end Session

/-- A watch that lets pass every machine that counts the bodies being run never stops the
    answer to a request. -/
theorem Request.watchedAnswer_eq {s : Session} {w : Watch} {m : Machine}
    (hw : w.Passes m.depth s.options.maxDepth) (fuel : Nat) (r : Request) :
    r.watchedAnswer s w fuel m = r.answer s fuel m := by
  have hstart : m.depth + 0 ≤ max m.depth s.options.maxDepth := Nat.le_max_left _ _
  have hpass : w.PassesAt 0 m.depth := hw.passesAt hstart
  have hcall : Caller.SameAt m.depth (s.watchedCall w fuel 0) (s.call fuel) :=
    Session.sameAt_watchedCall hw fuel 0 hstart
  have hinterpreter : (s.watchedInterpreter w 0 (s.watchedCall w fuel)).SameAt m.depth
      (s.interpreter (s.call fuel)) :=
    Session.sameAt_watchedInterpreter hw hstart (Session.sameAt_watchedCall hw fuel)
  have hsame : Eval.SameAt m.depth (r.watchedAnswer s w fuel) (r.answer s fuel) := by
    cases r with
    | eval e scope => exact sameAt_map some (hinterpreter.eval e scope)
    | run body scope => exact Stmt.sameAt_watched hpass hcall body
    | runBody d scope => exact sameAt_map some (hinterpreter.body d scope)
    | call name args scope location => exact sameAt_map some (hcall name args scope location)
    | callAlone name args location =>
      exact sameAt_map some (sameAt_inNewScope none fun scope => hcall name args scope location)
    | bind p function args scope =>
      refine Eval.sameAt_bind ?_ fun _ => sameAt_pure none
      exact p.sameAt_bind (fun e => hinterpreter.eval e scope) function args
  exact (hsame m rfl).1

end Calls

end StyleScript
