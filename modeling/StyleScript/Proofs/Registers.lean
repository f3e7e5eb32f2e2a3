-- SUMMARY: After every request the depth and the location are what they were before.
import StyleScript.Proofs.Targets
import StyleScript.Proofs.Watches

/-!
# Registers

The count of running bodies and the current location are changed for a while only: the
count while a body runs, the location while a builtin computes. Both are put back on
every way out, with a value or with an error, however deep the calls are nested.

The number of values that were built never decreases, as long as builtins only use the
builder that they are given and do not put another one in its place.
-/

namespace StyleScript

/-! ## Using a builder -/

/-- What can become of a builder that is used: values are built with it, and its location
    is set, in any order. -/
inductive Builder.Used (b : Builder) : Builder → Prop where
  | unused : Used b b
  | make {b'} : Used b b' → Used b { b' with built := b'.built + 1 }
  | setLocation {b'} (location : Option Location) : Used b b' → Used b { b' with location := location }

namespace Builder

variable {a b c : Builder}

theorem Used.trans (hab : a.Used b) (hbc : b.Used c) : a.Used c := by
  induction hbc with
  | unused => exact hab
  | make _ ih => exact ih.make
  | setLocation location _ ih => exact ih.setLocation location

theorem Used.built_le (h : a.Used b) : a.built ≤ b.built := by
  induction h with
  | unused => exact le_rfl
  | make _ ih => exact ih.trans (Nat.le_succ _)
  | setLocation _ _ ih => exact ih

theorem used_grow (b : Builder) (k : Nat) : b.Used (b.grow k) := by
  induction k with
  | zero => exact .unused
  | succ k ih => exact ih.make

end Builder

namespace Build

variable {α : Type}

/-- The builder that a build leaves, also when it fails. -/
def after (x : Build α) (b : Builder) : Builder :=
  match x b with
  | .ok _ b' => b'
  | .error _ b' => b'

/-- A build that does nothing but use its builder. -/
def Uses (x : Build α) : Prop := ∀ b : Builder, b.Used (x.after b)

theorem after_mapError (f : Error → Error) (x : Build α) (b : Builder) :
    (mapError f x).after b = x.after b := by
  unfold after mapError
  cases x b <;> rfl

/-- While a build runs a location is current, and then the one that was. -/
theorem after_stamped (location : Option Location) (x : Build α) (b : Builder) :
    (stamped location x).after b =
      { x.after { b with location := location } with location := b.location } := by
  unfold after stamped
  cases x { b with location := location } <;> rfl

theorem Blind.uses {x : Build α} (hx : x.Blind) : x.Uses := by
  intro b
  have hgrow : ∃ k, x.after b = b.grow k := by
    obtain ⟨k, ⟨_, hb, _⟩ | ⟨_, hb, _⟩⟩ := hx b b rfl <;> exact ⟨k, by rw [after, hb]⟩
  obtain ⟨k, hk⟩ := hgrow
  rw [hk]
  exact b.used_grow k

theorem uses_make (value : Option Location → Value) : (make value).Uses := (blind_make value).uses

theorem uses_setLocation (location : Option Location) : (setLocation location).Uses :=
  fun _ => .setLocation location .unused

theorem Uses.bind {β : Type} {x : Build α} {f : α → Build β} (hx : x.Uses)
    (hf : ∀ a, (f a).Uses) : (x >>= f).Uses := by
  intro b
  have hfirst := hx b
  unfold after at hfirst ⊢
  cases hxb : x b with
  | ok a n =>
    rw [hxb] at hfirst
    rw [bind_ok hxb]
    exact hfirst.trans (hf a n)
  | error e n =>
    rw [hxb] at hfirst
    rw [bind_error hxb]
    exact hfirst

theorem Uses.mapError {x : Build α} (hx : x.Uses) (f : Error → Error) : (mapError f x).Uses := by
  intro b
  rw [after_mapError]
  exact hx b

theorem Uses.stamped {x : Build α} (hx : x.Uses) (location : Option Location) :
    (stamped location x).Uses := by
  intro b
  have hset : b.Used { b with location := location } := .setLocation location .unused
  rw [after_stamped]
  exact (hset.trans (hx _)).setLocation b.location

end Build

/-- Code that does nothing but use the builder that it is given. -/
def NativeCode.UsesBuilder (run : NativeCode) : Prop := ∀ call, (run call).Uses

/-! ## The number of values -/

/-- Where builtins only use the builder, they still do, and no value was lost. -/
def Machine.Counted (m m' : Machine) : Prop :=
  m.store.Runs NativeCode.UsesBuilder →
    m'.store.Runs NativeCode.UsesBuilder ∧ m.builder.built ≤ m'.builder.built

instance : IsPreorder Machine Machine.Counted where
  refl _ h := ⟨h, le_rfl⟩
  trans _ _ _ hab hbc ha := by
    obtain ⟨hb, hle⟩ := hab ha
    exact ⟨(hbc hb).1, hle.trans (hbc hb).2⟩

open Eval

theorem counts_build {α : Type} {x : Build α} (hx : x.Uses) : Preserves Machine.Counted (build x) := by
  intro m hm
  have hused := hx m.builder
  unfold Build.after at hused
  unfold build
  cases h : x m.builder <;> rw [h] at hused <;> exact ⟨hm, hused.built_le⟩

/-- Where calls lose no value, no part of a program does. -/
theorem counted_of_calls {call : Caller}
    (hcall : ∀ name args scope location, Preserves Machine.Counted (call name args scope location)) :
    call.StaysWithin Machine.Counted where
  calls := hcall
  builds _ hx := counts_build hx.uses
  define _ scope name v h := ⟨h.define scope name v, le_rfl⟩
  defineFunction _ scope d h := ⟨h.defineFunction (Function.runs_ofDefinition _ d scope), le_rfl⟩
  withDepth _ _ h := ⟨h, le_rfl⟩

theorem counts_inNewScope {α : Type} {parent : Option ScopeId} {body : ScopeId → Eval α}
    (hbody : ∀ id, Preserves Machine.Counted (body id)) :
    Preserves Machine.Counted (inNewScope parent body) :=
  preserves_inNewScope (fun _ h => ⟨h.enter parent, le_rfl⟩) hbody fun _ id h => ⟨h.leave id, le_rfl⟩

namespace Session

variable {s : Session}

theorem counts_finish {call : Caller} (hcall : call.StaysWithin Machine.Counted) {f : Function}
    (hf : f.Runs NativeCode.UsesBuilder) (inner scope : ScopeId) (location : Option Location) :
    Preserves Machine.Counted (s.finish call f inner scope location) := by
  unfold finish
  split
  · rename_i run hbody
    unfold runNative
    refine preserves_ofStore_bind _ fun _ => counts_build ?_
    exact ((hf run hbody _).mapError _).stamped location
  · rename_i d _ _
    exact preserves_locate (hcall.body d _ inner)

theorem counts_invoke {call : Caller} (hcall : call.StaysWithin Machine.Counted) {f : Function}
    (hf : f.Runs NativeCode.UsesBuilder) (args : Args) (scope : ScopeId)
    (location : Option Location) :
    Preserves Machine.Counted (s.invoke call f args scope location) := by
  intro m
  cases halive : f.body.alive m.store with
  | true =>
    rw [invoke_alive halive]
    refine counts_inNewScope (fun inner => ?_) m
    refine preserves_bind (preserves_locate (hcall.bind f.params f.name args inner)) fun _ => ?_
    exact counts_finish hcall hf inner scope location
  | false =>
    rw [invoke_dead halive]
    exact fun h => ⟨h, le_rfl⟩

/-- Calls lose no value when the builtins of the registry only use the builder. -/
theorem counted_call (hregistry : s.registry.Holds (Function.Runs NativeCode.UsesBuilder))
    (fuel : Nat) : (s.call fuel).StaysWithin Machine.Counted := by
  apply counted_of_calls
  induction fuel with
  | zero => exact fun _ _ _ _ _ h => ⟨h, le_rfl⟩
  | succ fuel ih =>
    -- which code a call comes to depends on the scopes that it starts on
    intro name args scope location m hm
    cases htarget : s.target m.store name args.count scope with
    | ok f =>
      have hruns := runs_target hregistry hm htarget
      rw [call_target htarget]
      exact counts_invoke (counted_of_calls ih) hruns args scope location m hm
    | error e =>
      rw [call_no_target htarget]
      exact ⟨hm, le_rfl⟩

end Session

/-! ## Requests -/

namespace Request

variable {s : Session}

/-- A request writes to one scope at most. -/
theorem edited_after (s : Session) (fuel : Nat) (m : Machine) (r : Request) :
    ∃ scope vars funs, m.Edited scope vars funs (r.after s fuel m) := by
  have hcall := s.keeps_call fuel
  cases r with
  | eval e scope =>
    exact ⟨scope, fun _ => False, fun _ => False, (s.keeps_eval fuel e scope m).edited⟩
  | run body scope => exact ⟨scope, _, _, Stmt.edits_run hcall scope body m⟩
  | runBody d scope => exact ⟨scope, _, _, d.edits_run hcall _ scope m⟩
  | call name args scope location =>
    exact ⟨scope, fun _ => False, fun _ => False, (hcall name args scope location m).edited⟩
  | callAlone name args location =>
    exact ⟨0, fun _ => False, fun _ => False, (s.keeps_callAlone fuel name args location m).edited⟩
  | bind p function args scope =>
    exact ⟨scope, _, _, p.edits_bind function args (Session.keeps_evaluator hcall) scope m⟩

theorem counted_after (hregistry : s.registry.Holds (Function.Runs NativeCode.UsesBuilder))
    (fuel : Nat) (m : Machine) (r : Request) : m.Counted (r.after s fuel m) := by
  have hcall := Session.counted_call hregistry fuel
  refine preserves_after hcall (fun name args location => ?_) m r
  exact counts_inNewScope fun scope => hcall.calls name args scope location

/-- Whatever a request comes to, afterwards as many bodies are being run as before, the same
    location is current, and no fewer values were built. While it is answered, the machine
    counts the bodies that are being run: no watch ever stops it that lets pass the moments
    at which this is so. -/
theorem restores_registers (s : Session)
    (hregistry : s.registry.Holds (Function.Runs NativeCode.UsesBuilder)) {m : Machine}
    (hm : m.store.Runs NativeCode.UsesBuilder) (r : Request) :
    (∀ fuel,
      (r.after s fuel m).depth = m.depth ∧
      (r.after s fuel m).builder.location = m.builder.location ∧
      m.builder.built ≤ (r.after s fuel m).builder.built) ∧
    ∀ w : Watch, w.Passes m.depth s.options.maxDepth →
      ∀ fuel, r.watchedAnswer s w fuel m = r.answer s fuel m := by
  constructor
  · intro fuel
    obtain ⟨_, _, _, hedited⟩ := r.edited_after s fuel m
    exact ⟨hedited.depth, hedited.location, (r.counted_after hregistry fuel m hm).2⟩
  · intro w hw fuel
    exact r.watchedAnswer_eq hw fuel

/-- A builtin that builds two values, forgets the location and fails. -/
def careless : NativeCode := fun _ => do
  let v ← Build.null
  let _ ← Build.setLocation none
  let _ ← Build.list [v] .comma
  throw (.ofCause (.reported .typeMismatch "careless"))

/-- `@function f() { @return careless(); }` -/
def trusting : Definition :=
  ⟨"f", .empty, [.result (.call "careless" [] (some ⟨"theme", 2⟩))], none⟩

/-- `f()` fails in the body of `f`, where two values were built. A watch for a wrong count
    does not stop it, but one that waits for the body does. -/
theorem trusting_restores_registers :
    let s : Session := ⟨Registry.empty.add (.native "careless" .empty careless), .standard⟩
    let m := (Machine.fresh.enter none).defineFunction 0 (.ofDefinition trusting 0)
    let r : Request := .eval (.call "f" [] none) 0
    let stop : Interruption := .error (.ofCause (.reported .typeMismatch "body"))
    (r.after s 2 m).builder.built = m.builder.built + 2 ∧
      (r.after s 2 m).depth = m.depth ∧
      (r.after s 2 m).builder.location = m.builder.location ∧
      (∀ fuel, r.watchedAnswer s (.onMiscount 0 256 stop) fuel m = r.answer s fuel m) ∧
      Outcome.result (r.watchedAnswer s (fun n _ => if n = 0 then none else some stop) 2 m) =
        .error stop := by
  intro s m r stop
  have hcareless : NativeCode.UsesBuilder careless := fun _ =>
    (Build.uses_make _).bind fun _ => (Build.uses_setLocation none).bind fun _ =>
      (Build.uses_make _).bind fun _ => (Build.blind_throw _).uses
  have hregistry : s.registry.Holds (Function.Runs NativeCode.UsesBuilder) := by
    refine Registry.holds_add (fun f hf => hf) nofun ?_
    rintro _ ⟨⟩
    exact hcareless
  have hm : m.store.Runs NativeCode.UsesBuilder := by
    have hfresh : Machine.fresh.store.Runs NativeCode.UsesBuilder := nofun
    exact (hfresh.enter none).defineFunction (Function.runs_ofDefinition _ trusting 0)
  obtain ⟨hafter, hwatch⟩ := restores_registers s hregistry hm r
  obtain ⟨hdepth, hlocation, _⟩ := hafter 2
  exact ⟨rfl, hdepth, hlocation, hwatch _ (Watch.passes_onMiscount 0 256 stop), rfl⟩

end Request

end StyleScript
