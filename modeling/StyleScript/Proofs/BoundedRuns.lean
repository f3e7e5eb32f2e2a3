-- SUMMARY: Runs over the standard registry make no color outside its ranges.
import StyleScript.Proofs.Bounded
import StyleScript.Proofs.Scripts

/-!
# Runs keep to bounded colors

Started on a bounded machine, with arguments and programs that are bounded, a computation
leaves a bounded machine, also when it fails, and what it comes to is bounded. Each construct
has one law for this, by recursion on it. A call needs the law for the calls within it, which
have less fuel.

So whatever a host program does, step after step, each color that it sees was made within its
ranges, and is written as such.
-/

namespace StyleScript

/-- A bounded machine was left, and if there is a result it has a property. -/
inductive Outcome.Bounded {α : Type} (P : α → Prop) : Outcome α → Prop where
  | ok {a : α} {m : Machine} : P a → m.Bounded → Bounded P (.ok a m)
  | error {e : Interruption} {m : Machine} : m.Bounded → Bounded P (.error e m)

/-- A computation that leaves bounded machines and has only results with a property, from
    machines that are bounded. -/
def Eval.Bounded {α : Type} (P : α → Prop) (x : Eval α) : Prop :=
  ∀ m : Machine, m.Bounded → Outcome.Bounded P (x m)

/-- A way to make calls that gives bounded values for bounded arguments. -/
def Caller.Bounded (call : Caller) : Prop :=
  ∀ name args scope location, args.Bounded →
    Eval.Bounded Value.Bounded (call name args scope location)

/-- If there is a value, it is bounded. -/
def BoundedIfAny (v : Option Value) : Prop := ∀ w, v = some w → w.Bounded

theorem boundedIfAny_some {v : Value} (h : v.Bounded) : BoundedIfAny (some v) := by
  rintro _ ⟨⟩
  exact h

/-! ## Putting computations together -/

namespace Eval

variable {α β : Type} {P : α → Prop} {Q : β → Prop}

theorem bounded_pure {a : α} (h : P a) : Bounded P (pure a : Eval α) := fun _ hm => .ok h hm

theorem bounded_fail (e : Error) : Bounded P (fail e : Eval α) := fun _ hm => .error hm

theorem bounded_bind {x : Eval α} {f : α → Eval β} (hx : Bounded P x)
    (hf : ∀ a, P a → Bounded Q (f a)) : Bounded Q (x >>= f) := by
  intro m hm
  have ho := hx m hm
  cases h : x m with
  | ok a n =>
    rw [h] at ho
    rw [bind_ok h]
    cases ho with
    | ok ha hn => exact hf a ha n hn
  | error e n =>
    rw [h] at ho
    rw [bind_error h]
    cases ho with
    | error hn => exact .error hn

theorem bounded_map {x : Eval α} {f : α → β} (hx : Bounded P x) (hf : ∀ a, P a → Q (f a)) :
    Bounded Q (f <$> x) := by
  rw [map_eq_pure_bind]
  exact bounded_bind hx fun a ha => bounded_pure (hf a ha)

theorem bounded_locate {x : Eval α} (place : Option Location) (hx : Bounded P x) :
    Bounded P (locate place x) := by
  intro m hm
  have ho := hx m hm
  unfold locate
  generalize x m = o at ho
  cases ho with
  | ok ha hn => exact .ok ha hn
  | @error e _ hn => cases e <;> exact .error hn

/-- Building touches no scope. -/
theorem bounded_build {x : Build α} (hx : x.Gives P) : Bounded P (build x) := by
  intro m hm
  unfold build
  cases h : x m.builder with
  | ok a b => exact .ok (hx _ _ a h) hm
  | error e b => exact .error hm

theorem bounded_nested {x : Eval α} (hx : Bounded P x) : Bounded P (nested x) := by
  intro m hm
  have ho := hx (m.withDepth (m.depth + 1)) hm
  rw [nested_apply]
  generalize x (m.withDepth (m.depth + 1)) = o at ho
  cases ho with
  | ok ha hn => exact .ok ha hn
  | error hn => exact .error hn

theorem bounded_inNewScope {parent : Option ScopeId} {body : ScopeId → Eval α}
    (hbody : ∀ id, Bounded P (body id)) : Bounded P (inNewScope parent body) := by
  intro m hm
  have ho := hbody m.store.next (m.enter parent) (hm.enter parent)
  rw [inNewScope_apply]
  generalize body m.store.next (m.enter parent) = o at ho
  cases ho with
  | ok ha hn => exact .ok ha (hn.of_dropped (Store.get?_leave_or _ _))
  | error hn => exact .error (hn.of_dropped (Store.get?_leave_or _ _))

theorem bounded_define (scope : ScopeId) (name : String) {v : Value} (hv : v.Bounded) :
    Bounded (fun _ => True) (define scope name v) :=
  fun _ hm => .ok trivial (hm.define scope name hv)

theorem bounded_defineFunction (scope : ScopeId) {f : Function} (hf : f.Bounded) :
    Bounded (fun _ => True) (defineFunction scope f) :=
  fun _ hm => .ok trivial (hm.defineFunction scope hf)

end Eval

open Eval

/-! ## Expressions and statements -/

section Program

variable {call : Caller} {scope : ScopeId}

theorem Args.Bounded.cons {args : Args} (h : args.Bounded) (name : Option String) {v : Value}
    (hv : v.Bounded) : (args.cons name v).Bounded := by
  cases name with
  | none => exact ⟨List.forall_mem_cons.2 ⟨hv, h.positional⟩, h.named⟩
  | some name => exact ⟨h.positional, List.forall_mem_cons.2 ⟨hv, h.named⟩⟩

mutual

theorem Expr.bounded_eval (hcall : call.Bounded) :
    (e : Expr) → e.Bounded → Eval.Bounded Value.Bounded (e.eval call scope)
  | .literal v, h => bounded_pure (by rwa [Expr.Bounded] at h)
  | .variable name location, _ => by
    intro m hm
    unfold Expr.eval
    rw [ofStore_bind_apply]
    cases hlookup : m.store.lookup? scope name with
    | some v => exact .ok (hm.lookup? hlookup) hm
    | none => exact .error hm
  | .list items separator, h =>
    bounded_bind (bounded_evalItems hcall items (by rwa [Expr.Bounded] at h)) fun vs hvs =>
      bounded_build (Build.gives_make fun _ => Value.bounded_list.2 hvs)
  | .unary op operand location, h =>
    bounded_bind (Expr.bounded_eval hcall operand (by rwa [Expr.Bounded] at h)) fun v _ =>
      bounded_locate location (bounded_build (op.gives_apply v))
  | .binary op left right location, h => by
    rw [Expr.Bounded] at h
    unfold Expr.eval
    refine bounded_bind (Expr.bounded_eval hcall left h.1) fun l hl => ?_
    split
    · exact bounded_pure hl
    · refine bounded_bind (Expr.bounded_eval hcall right h.2) fun r hr => ?_
      split
      · exact bounded_pure hr
      · exact bounded_locate location (bounded_build (op.gives_apply l r))
  | .call name args location, h =>
    bounded_bind (bounded_evalArgs hcall args (by rwa [Expr.Bounded] at h)) fun vs hvs =>
      hcall name vs scope location hvs

theorem bounded_evalItems (hcall : call.Bounded) :
    (es : List Expr) → Expr.BoundedAll es →
      Eval.Bounded (fun vs => ∀ v ∈ vs, v.Bounded) (evalItems call scope es)
  | [], _ => bounded_pure nofun
  | e :: es, h => by
    rw [Expr.BoundedAll] at h
    exact bounded_bind (Expr.bounded_eval hcall e h.1) fun v hv =>
      bounded_bind (bounded_evalItems hcall es h.2) fun vs hvs =>
        bounded_pure (List.forall_mem_cons.2 ⟨hv, hvs⟩)

theorem bounded_evalArgs (hcall : call.Bounded) :
    (args : List Arg) → Arg.BoundedAll args → Eval.Bounded Args.Bounded (evalArgs call scope args)
  | [], _ => bounded_pure ⟨nofun, nofun⟩
  | .mk name e :: args, h => by
    rw [Arg.BoundedAll] at h
    exact bounded_bind (Expr.bounded_eval hcall e h.1) fun v hv =>
      bounded_bind (bounded_evalArgs hcall args h.2) fun rest hrest =>
        bounded_pure (hrest.cons name hv)

end

theorem Stmt.bounded_run (hcall : call.Bounded) :
    (body : List Stmt) → Stmt.BoundedAll body →
      Eval.Bounded BoundedIfAny (Stmt.run call scope body)
  | [], _ => bounded_pure nofun
  | .assign name e :: rest, h => by
    rw [Stmt.BoundedAll, Stmt.Bounded] at h
    exact bounded_bind (e.bounded_eval hcall h.1) fun v hv =>
      bounded_bind (bounded_define scope name hv) fun _ _ => Stmt.bounded_run hcall rest h.2
  | .result e :: _, h => by
    rw [Stmt.BoundedAll, Stmt.Bounded] at h
    exact bounded_bind (e.bounded_eval hcall h.1) fun v hv => bounded_pure (boundedIfAny_some hv)
  | .define name params body location :: rest, h => by
    rw [Stmt.BoundedAll, Stmt.Bounded] at h
    obtain ⟨⟨hparams, hbody⟩, hrest⟩ := h
    exact bounded_bind
      (bounded_defineFunction scope (Function.bounded_ofDefinition ⟨hparams, hbody⟩ scope))
      fun _ _ => Stmt.bounded_run hcall rest hrest

theorem Definition.bounded_run (hcall : call.Bounded) {d : Definition} (h : d.Bounded) (limit : Nat) :
    Eval.Bounded Value.Bounded (d.run limit call scope) := by
  intro m hm
  by_cases hdepth : m.depth < limit
  · rw [d.run_below_limit hdepth]
    refine bounded_bind (bounded_nested (Stmt.bounded_run hcall d.body h.body)) ?_ m hm
    intro v hv
    cases v with
    | some v => exact bounded_pure (hv v rfl)
    | none => exact bounded_fail _
  · rw [d.run_at_limit (Nat.le_of_not_lt hdepth)]
    exact .error hm

end Program

/-! ## Binding -/

/-- A parameter with a bounded default and a bounded argument, as far as it has them. -/
structure Slot.Bounded (slot : Slot) : Prop where
  default : ∀ e, slot.param.default = some e → e.Bounded
  given : BoundedIfAny slot.given

namespace Slot

theorem bounded_positional : (params : List Param) → (vs : List Value) →
    (∀ param ∈ params, ∀ e, param.default = some e → e.Bounded) → (∀ v ∈ vs, v.Bounded) →
    ∀ slot ∈ positional params vs, slot.Bounded
  | [], _, _, _ => nofun
  | param :: params, [], hparams, hvs => by
    rw [List.forall_mem_cons] at hparams
    unfold positional
    exact List.forall_mem_cons.2
      ⟨⟨hparams.1, nofun⟩, bounded_positional params [] hparams.2 hvs⟩
  | param :: params, v :: vs, hparams, hvs => by
    rw [List.forall_mem_cons] at hparams hvs
    unfold positional
    exact List.forall_mem_cons.2
      ⟨⟨hparams.1, boundedIfAny_some hvs.1⟩, bounded_positional params vs hparams.2 hvs.2⟩

theorem bounded_place {key : String} {v : Value} (hv : v.Bounded) {slots slots' : List Slot}
    (hslots : ∀ slot ∈ slots, slot.Bounded) (h : place key v slots = .ok slots') :
    ∀ slot ∈ slots', slot.Bounded := by
  induction slots generalizing slots' with
  | nil => cases h
  | cons slot slots ih =>
    rw [List.forall_mem_cons] at hslots
    unfold place at h
    split at h
    · split at h
      · cases h
      · cases h
        exact List.forall_mem_cons.2 ⟨⟨hslots.1.default, boundedIfAny_some hv⟩, hslots.2⟩
    · cases hrest : place key v slots with
      | error fault =>
        rw [hrest] at h
        cases h
      | ok placed =>
        rw [hrest] at h
        cases h
        exact List.forall_mem_cons.2 ⟨hslots.1, ih hslots.2 hrest⟩

theorem bounded_placeNamed {named : List (String × Value)} (hnamed : ∀ arg ∈ named, arg.2.Bounded)
    {slots slots' : List Slot} (hslots : ∀ slot ∈ slots, slot.Bounded)
    (h : placeNamed named slots = .ok slots') : ∀ slot ∈ slots', slot.Bounded := by
  induction named generalizing slots with
  | nil =>
    cases h
    exact hslots
  | cons arg named ih =>
    rw [List.forall_mem_cons] at hnamed
    unfold placeNamed at h
    cases hplace : place (canonical arg.1) arg.2 slots with
    | error fault =>
      rw [hplace] at h
      cases h
    | ok placed =>
      rw [hplace] at h
      exact ih hnamed.2 (bounded_place hnamed.1 hslots hplace) h

end Slot

theorem Params.Bounded.place {p : Params} (hp : p.Bounded) {args : Args} (hargs : args.Bounded)
    {slots : List Slot} (h : p.place args = .ok slots) : ∀ slot ∈ slots, slot.Bounded := by
  unfold Params.place at h
  dsimp only at h
  split at h
  · cases h
  · exact Slot.bounded_placeNamed hargs.named
      (Slot.bounded_positional _ _ hp hargs.positional) h

section Binding

variable {call : Caller} {scope : ScopeId}

theorem Slot.bounded_value? (hcall : call.Bounded) {slot : Slot} (h : slot.Bounded) :
    Eval.Bounded BoundedIfAny (slot.value? (Session.evaluator call) scope) := by
  unfold Slot.value?
  split
  · rename_i hgiven
    exact bounded_pure (boundedIfAny_some (h.given _ hgiven))
  · rename_i hdefault
    have hv := h.default _ hdefault
    rw [Expr.Bounded] at hv
    exact bounded_pure (boundedIfAny_some hv)
  · rename_i e _ _ hdefault
    exact bounded_map (e.bounded_eval hcall (h.default e hdefault)) fun _ => boundedIfAny_some
  · exact bounded_pure nofun

theorem Slot.bounded_fill (hcall : call.Bounded) :
    (slots : List Slot) → (∀ slot ∈ slots, slot.Bounded) →
      Eval.Bounded (fun _ => True) (Slot.fill (Session.evaluator call) scope slots)
  | [], _ => bounded_pure trivial
  | slot :: slots, h => by
    rw [List.forall_mem_cons] at h
    rw [Slot.fill_cons]
    refine bounded_bind (Slot.bounded_value? hcall h.1) fun v hv => ?_
    cases v with
    | some v =>
      exact bounded_bind (bounded_define scope _ (hv v rfl)) fun _ _ =>
        Slot.bounded_fill hcall slots h.2
    | none =>
      exact bounded_bind (Slot.bounded_fill hcall slots h.2) fun _ _ => bounded_pure trivial

theorem Params.bounded_bind (hcall : call.Bounded) {p : Params} (hp : p.Bounded)
    (function : String) {args : Args} (hargs : args.Bounded) :
    Eval.Bounded (fun _ => True) (p.bind function args (Session.evaluator call) scope) := by
  intro m hm
  cases hplace : p.place args with
  | error fault =>
    rw [Params.bind_of_place_error hplace]
    exact .error hm
  | ok slots =>
    rw [Params.bind_of_place_ok hplace]
    refine Eval.bounded_bind (Slot.bounded_fill hcall slots (hp.place hargs hplace)) ?_ m hm
    intro missing _
    cases missing with
    | cons _ _ => exact bounded_fail _
    | nil =>
      unfold Params.complete Params.bindRest
      cases p.rest with
      | none => exact bounded_pure trivial
      | some rest =>
        have hlist : ∀ v ∈ args.positional.drop p.fixed.length, v.Bounded := fun v hv =>
          hargs.positional v (List.mem_of_mem_drop hv)
        exact Eval.bounded_bind
          (bounded_build (Build.gives_make fun _ => Value.bounded_list.2 hlist))
          fun list hlist => bounded_define scope rest hlist

end Binding

/-! ## Calls -/

theorem Build.gives_stamped {P : Value → Prop} {x : Build Value} (location : Option Location)
    (hx : x.Gives P) : (Build.stamped location x).Gives P := by
  intro b b' a h
  unfold stamped at h
  cases hxb : x { b with location } with
  | ok c n =>
    rw [hxb] at h
    cases h
    exact hx _ _ _ hxb
  | error e n =>
    rw [hxb] at h
    cases h

namespace Session

variable {s : Session} {call : Caller} {scope : ScopeId}

theorem bounded_runNative (s : Session) (name : String) {run : NativeCode} (hrun : run.Bounded)
    (bound scope : ScopeId) (location : Option Location) :
    Eval.Bounded Value.Bounded (s.runNative name run bound scope location) := by
  intro m hm
  unfold runNative
  rw [ofStore_bind_apply]
  refine bounded_build (Build.gives_stamped _ (Build.gives_mapError _ (hrun _ ?_))) m hm
  exact ⟨hm.locals bound, fun name v => hm.lookup?⟩

theorem bounded_invoke (s : Session) (hcall : call.Bounded) {f : Function} (hf : f.Bounded)
    {args : Args} (hargs : args.Bounded) (location : Option Location) :
    Eval.Bounded Value.Bounded (s.invoke call f args scope location) := by
  intro m hm
  cases halive : f.body.alive m.store with
  | false =>
    rw [invoke_dead halive]
    exact .error hm
  | true =>
    rw [invoke_alive halive]
    refine bounded_inNewScope (fun inner => ?_) m hm
    refine bounded_bind (bounded_locate location
      (Params.bounded_bind hcall hf.params f.name hargs)) fun _ _ => ?_
    unfold finish
    split
    · rename_i run hbody
      exact s.bounded_runNative f.name (hf.native run hbody) inner scope location
    · rename_i d closure hbody
      exact bounded_locate location (Definition.bounded_run hcall (hf.written d closure hbody) _)

/-- Calls over the standard registry give bounded values for bounded arguments. -/
theorem bounded_call (hregistry : s.registry.Holds Function.Bounded) (fuel : Nat) :
    (s.call fuel).Bounded := by
  induction fuel with
  | zero => exact fun _ _ _ _ _ m hm => .error hm
  | succ fuel ih =>
    intro name args scope location hargs m hm
    cases htarget : s.target m.store name args.count scope with
    | error e =>
      rw [call_no_target htarget]
      exact .error hm
    | ok f =>
      have hf : f.Bounded := by
        rcases target_eq_ok htarget with hfound | hcandidate
        · exact hm.lookupFunction? hfound
        · exact hregistry name f hcandidate
      rw [call_target htarget]
      exact s.bounded_invoke ih hf hargs location m hm

end Session

/-! ## Scripts -/

/-- A request with bounded programs and arguments. -/
inductive Request.Bounded : Request → Prop where
  | eval {e scope} : e.Bounded → Bounded (.eval e scope)
  | run {body scope} : Stmt.BoundedAll body → Bounded (.run body scope)
  | runBody {d scope} : d.Bounded → Bounded (.runBody d scope)
  | call {name args scope location} : args.Bounded → Bounded (.call name args scope location)
  | callAlone {name args location} : args.Bounded → Bounded (.callAlone name args location)
  | bind {p function args scope} : p.Bounded → args.Bounded → Bounded (.bind p function args scope)

/-- A step with bounded values, functions and requests. -/
inductive Step.Bounded : Step → Prop where
  | enter {parent} : Bounded (.enter parent)
  | retain {held} : Bounded (.retain held)
  | setLocation {location} : Bounded (.setLocation location)
  | build {x} : x.Gives Value.Bounded → Bounded (.build x)
  | define {scope name v} : v.Bounded → Bounded (.define scope name v)
  | defineFunction {scope f} : f.Bounded → Bounded (.defineFunction scope f)
  | lookup {scope name} : Bounded (.lookup scope name)
  | lookupOwn {scope name} : Bounded (.lookupOwn scope name)
  | lookupFunction {scope name} : Bounded (.lookupFunction scope name)
  | request {r fuel} : r.Bounded → Bounded (.request r fuel)

/-- The value of a reply is bounded. -/
def Reply.Bounded (reply : Reply) : Prop := ∀ v, reply = .value (some v) → v.Bounded

section Scripts

variable {s : Session}

theorem Request.Bounded.answer (hregistry : s.registry.Holds Function.Bounded) {r : Request}
    (h : r.Bounded) (fuel : Nat) : Eval.Bounded BoundedIfAny (r.answer s fuel) := by
  have hcall := Session.bounded_call hregistry fuel
  cases h with
  | eval he => exact bounded_map (Expr.bounded_eval hcall _ he) fun _ => boundedIfAny_some
  | run hbody => exact Stmt.bounded_run hcall _ hbody
  | runBody hd => exact bounded_map (Definition.bounded_run hcall hd _) fun _ => boundedIfAny_some
  | call hargs => exact bounded_map (hcall _ _ _ _ hargs) fun _ => boundedIfAny_some
  | callAlone hargs =>
    exact bounded_map (bounded_inNewScope fun scope => hcall _ _ scope _ hargs) fun _ =>
      boundedIfAny_some
  | bind hp hargs =>
    exact bounded_bind (Params.bounded_bind hcall hp _ hargs) fun _ _ => bounded_pure nofun

theorem Step.Bounded.perform (hregistry : s.registry.Holds Function.Bounded) {step : Step}
    (h : step.Bounded) : Eval.Bounded Reply.Bounded (step.perform s) := by
  have hvalue {v : Option Value} (hv : BoundedIfAny v) : Reply.Bounded (.value v) := by
    rintro w ⟨⟩
    exact hv w rfl
  cases h with
  | enter => exact fun m hm => .ok nofun (hm.enter _)
  | retain => exact fun m hm => .ok nofun (hm.of_dropped (Store.get?_retain_or _ _))
  | setLocation => exact fun m hm => .ok nofun hm
  | build hx =>
    exact bounded_bind (bounded_build hx) fun _ hv => bounded_pure (hvalue (boundedIfAny_some hv))
  | define hv => exact bounded_bind (bounded_define _ _ hv) fun _ _ => bounded_pure nofun
  | defineFunction hf =>
    exact bounded_bind (bounded_defineFunction _ hf) fun _ _ => bounded_pure nofun
  | lookup => exact fun m hm => .ok (hvalue fun _ => hm.lookup?) hm
  | lookupOwn => exact fun m hm => .ok (hvalue fun _ => hm.local?) hm
  | lookupFunction => exact fun m hm => .ok nofun hm
  | request hr =>
    exact bounded_bind (hr.answer hregistry _) fun _ hv => bounded_pure (hvalue hv)

/-- Each step of a script replies with a bounded value, if with any, and leaves a bounded
    machine. -/
theorem bounded_runScript (hregistry : s.registry.Holds Function.Bounded) {steps : List Step}
    (hsteps : ∀ step ∈ steps, step.Bounded) {m : Machine} (hm : m.Bounded) :
    ∀ o ∈ runScript s steps m, Outcome.Bounded Reply.Bounded o := by
  induction steps generalizing m with
  | nil => exact fun _ ho => absurd ho List.not_mem_nil
  | cons step steps ih =>
    rw [List.forall_mem_cons] at hsteps
    have hfirst := hsteps.1.perform hregistry m hm
    unfold runScript
    refine List.forall_mem_cons.2 ⟨hfirst, ih hsteps.2 ?_⟩
    generalize step.perform s m = o at hfirst
    cases hfirst with
    | ok _ hn => exact hn
    | error hn => exact hn

/-- Whatever a host program does with values that it built, from whatever doubles, each color
    that it is answered with and each color that a scope then has is in gamut and shows it: no
    component is not a number, the whole channels are bytes without any of them being cut off,
    and a color without transparency is written as six hexadecimal digits. -/
theorem runScript_stays_in_gamut (options : Options) {steps : List Step}
    (hsteps : ∀ step ∈ steps, step.Bounded) :
    ∀ o ∈ runScript ⟨.standard, options⟩ steps .fresh,
      (∀ v m, o = .ok (.value (some v)) m → ∀ c ∈ v.colors, c.Presentable) ∧
      ∀ scope name v, (Outcome.machine o).store.lookup? scope name = some v →
        ∀ c ∈ v.colors, c.Presentable := by
  have hfresh : Machine.fresh.Bounded := Store.Bounded.empty
  have hshown {v : Value} (hv : v.Bounded) : ∀ c ∈ v.colors, c.Presentable :=
    fun c hc => (hv c hc).inGamut.presentable
  intro o ho
  cases bounded_runScript (s := ⟨.standard, options⟩) Registry.bounded_standard hsteps hfresh o ho with
  | ok hreply hm =>
    refine ⟨?_, fun _ _ _ hlookup => hshown (hm.lookup? hlookup)⟩
    rintro v _ ⟨⟩
    exact hshown (hreply v rfl)
  | error hm => exact ⟨nofun, fun _ _ _ hlookup => hshown (hm.lookup? hlookup)⟩

/-- A color of what is not a number, an infinity and a negative zero, which a program puts into a
    list. -/
theorem wildColor_stays_in_gamut :
    (Color.rgba Binary64.nan (1 / 0) (-0) 2).Presentable := by
  let steps : List Step := [.request (.eval
    (.list [.literal (.color (Color.rgba Binary64.nan (1 / 0) (-0) 2) none)] .comma) 0) 1]
  have hsteps : ∀ step ∈ steps, step.Bounded := by
    rw [List.forall_mem_singleton]
    exact .request (.eval (by simp [Expr.Bounded, Expr.BoundedAll]))
  have hall := runScript_stays_in_gamut .standard hsteps
  have hanswer := (hall _ (.head _)).1
    (.list [.color (Color.rgba Binary64.nan (1 / 0) (-0) 2) none] .comma none) _ rfl
  exact hanswer _ (by simp [Value.colors, Value.colorsOfItems])

end Scripts

end StyleScript
