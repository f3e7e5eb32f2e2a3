-- SUMMARY: What a host program is answered, step by step, and that this is so in lock-step for scripts that resemble each other.
import StyleScript.Proofs.Lockstep
import StyleScript.Proofs.Requests

/-!
# Scripts

A host program goes step by step: it opens and drops scopes, writes to them and reads from
them, has values built, sets the current location, and makes requests. Each step is
answered with a reply or with an interruption, and the next one finds the machine that was
left, also after a failure.

Steps that resemble each other, on machines that do, are answered alike. From this, by
induction on the steps, so are whole scripts.
-/

namespace StyleScript

/-! ## Steps and their replies -/

/-- A step of a host program. Scopes are given by their numbers. -/
inductive Step where
  | enter (parent : Option ScopeId)
  | retain (held : List ScopeId)
  | setLocation (location : Option Location)
  | build (x : Build Value)
  | define (scope : ScopeId) (name : String) (v : Value)
  | defineFunction (scope : ScopeId) (f : Function)
  | lookup (scope : ScopeId) (name : String)
  | lookupOwn (scope : ScopeId) (name : String)
  | lookupFunction (scope : ScopeId) (name : String)
  | request (r : Request) (fuel : Nat)

/-- What a step is answered with, unless it is interrupted. -/
inductive Reply where
  | done
  | scope (id : ScopeId)
  | value (v : Option Value)
  | function (f : Option Function)

namespace Step

/-- Make a step. -/
def perform (s : Session) : Step → Eval Reply
  | .enter parent => fun m => .ok (.scope m.store.next) (m.enter parent)
  | .retain held => fun m => .ok .done (m.withStore (m.store.retain held))
  | .setLocation location => fun m => .ok .done (m.withBuilder { m.builder with location })
  | .build x => do return .value (← Eval.build x)
  | .define scope name v => do
    Eval.define scope name v
    return .done
  | .defineFunction scope f => do
    Eval.defineFunction scope f
    return .done
  | .lookup scope name => do return .value (← Eval.ofStore (·.lookup? scope name))
  | .lookupOwn scope name => do return .value (← Eval.ofStore (·.local? scope name))
  | .lookupFunction scope name => do return .function (← Eval.ofStore (·.lookupFunction? scope name))
  | .request r fuel => do return .value (← r.answer s fuel)

end Step

/-- What the steps of a script come to, each on the machine that the one before it left. -/
def runScript (s : Session) : List Step → Machine → List (Outcome Reply)
  | [], _ => []
  | step :: steps, m =>
    let o := step.perform s m
    o :: runScript s steps (Outcome.machine o)

/-! ## Scripts that resemble each other -/

variable {R : Resemblance}

/-- Requests that differ in spellings, locations and numbers of scopes only. -/
inductive Request.Resembles (R : Resemblance) : Request → Request → Prop where
  | eval {e e' : Expr} {a b : ScopeId} :
    e.Resembles R e' → R.scope a b → Resembles R (.eval e a) (.eval e' b)
  | run {body body' : List Stmt} {a b : ScopeId} :
    List.Forall₂ (Stmt.Resembles R) body body' → R.scope a b →
    Resembles R (.run body a) (.run body' b)
  | runBody {d d' : Definition} {a b : ScopeId} :
    d.Resembles R d' → R.scope a b → Resembles R (.runBody d a) (.runBody d' b)
  | call {x y : String} {args args' : Args} {a b : ScopeId} {l l' : Option Location} :
    R.name x y → args.Resembles R args' → R.scope a b → R.place l l' →
    Resembles R (.call x args a l) (.call y args' b l')
  | callAlone {x y : String} {args args' : Args} {l l' : Option Location} :
    R.name x y → args.Resembles R args' → R.place l l' →
    Resembles R (.callAlone x args l) (.callAlone y args' l')
  | bind {p q : Params} {x y : String} {args args' : Args} {a b : ScopeId} :
    p.Resembles R q → R.name x y → args.Resembles R args' → R.scope a b →
    Resembles R (.bind p x args a) (.bind q y args' b)

/-- Steps that differ in spellings, locations and numbers of scopes only. -/
inductive Step.Resembles (R : Resemblance) : Step → Step → Prop where
  | enter {a b : Option ScopeId} : Option.Rel R.scope a b → Resembles R (.enter a) (.enter b)
  | retain {held held' : List ScopeId} :
    List.Forall₂ R.scope held held' → Resembles R (.retain held) (.retain held')
  | setLocation {l l' : Option Location} :
    R.place l l' → Resembles R (.setLocation l) (.setLocation l')
  | build {x y : Build Value} : Build.Resembles R x y → Resembles R (.build x) (.build y)
  | define {a b : ScopeId} {x y : String} {v w : Value} :
    R.scope a b → R.name x y → v.Resembles R w → Resembles R (.define a x v) (.define b y w)
  | defineFunction {a b : ScopeId} {f g : Function} :
    R.scope a b → f.Resembles R g → Resembles R (.defineFunction a f) (.defineFunction b g)
  | lookup {a b : ScopeId} {x y : String} :
    R.scope a b → R.name x y → Resembles R (.lookup a x) (.lookup b y)
  | lookupOwn {a b : ScopeId} {x y : String} :
    R.scope a b → R.name x y → Resembles R (.lookupOwn a x) (.lookupOwn b y)
  | lookupFunction {a b : ScopeId} {x y : String} :
    R.scope a b → R.name x y → Resembles R (.lookupFunction a x) (.lookupFunction b y)
  | request {r r' : Request} {fuel : Nat} :
    r.Resembles R r' → Resembles R (.request r fuel) (.request r' fuel)

inductive Reply.Resembles (R : Resemblance) : Reply → Reply → Prop where
  | done : Resembles R .done .done
  | scope {a b : ScopeId} : R.scope a b → Resembles R (.scope a) (.scope b)
  | value {v w : Option Value} :
    Option.Rel (Value.Resembles R) v w → Resembles R (.value v) (.value w)
  | function {f g : Option Function} :
    Option.Rel (Function.Resembles R) f g → Resembles R (.function f) (.function g)

/-! ## Running them -/

/-- Held scopes that stand for each other keep scopes that do. -/
theorem Store.Resembles.retain {store store' : Store} (h : store.Resembles R store')
    {held held' : List ScopeId} (hheld : List.Forall₂ R.scope held held') :
    (store.retain held).Resembles R (store'.retain held') where
  next := h.next
  scopes a b hscope := by
    have hunique : Relator.BiUnique R.scope :=
      ⟨fun _ _ _ hac hbc => (R.scope_iff hac hbc).2 rfl, fun _ _ _ hab hac => (R.scope_iff hab hac).1 rfl⟩
    have hkept : List.Forall₂ R.scope (held.flatMap store.chain) (held'.flatMap store'.chain) :=
      List.rel_flatMap hheld fun _ _ hid => h.chain hid
    have hmem : a ∈ held.flatMap store.chain ↔ b ∈ held'.flatMap store'.chain :=
      List.rel_mem hunique hscope hkept
    simp only [get?_retain, hmem]
    split
    · exact h.scopes a b hscope
    · exact .none

theorem Eval.resembles_ofStore {α β : Type} {P : α → β → Prop} {read : Store → α} {read' : Store → β}
    (h : ∀ store store' : Store, store.Resembles R store' → P (read store) (read' store')) :
    Eval.Resembles R P (ofStore read) (ofStore read') :=
  fun _ _ hm => .ok (h _ _ hm.store) hm

theorem Eval.resembles_map {α β γ δ : Type} {P : α → β → Prop} {Q : γ → δ → Prop} {x : Eval α}
    {y : Eval β} {f : α → γ} {g : β → δ} (hx : Eval.Resembles R P x y)
    (hfg : ∀ a b, P a b → Q (f a) (g b)) : Eval.Resembles R Q (f <$> x) (g <$> y) := by
  rw [map_eq_pure_bind, map_eq_pure_bind]
  exact resembles_bind hx fun a b hab => resembles_pure (hfg a b hab)

theorem Machine.resembles_fresh (h : R.next 0 0) : Machine.fresh.Resembles R .fresh where
  store := ⟨h, fun _ _ _ => .none⟩
  builder := ⟨R.place_refl none, rfl⟩
  depth := rfl

section Scripts

variable {s : Session} (hs : s.registry.Holds fun f => f.Resembles R f)

include hs

theorem Request.resembles_answer {r r' : Request} (h : r.Resembles R r') (fuel : Nat) :
    Eval.Resembles R (Option.Rel (Value.Resembles R)) (r.answer s fuel) (r'.answer s fuel) := by
  have hcall := Session.resembles_call hs fuel
  cases h with
  | eval he hscope =>
    exact Eval.resembles_map (Expr.resembles_eval hcall hscope _ _ he) fun _ _ => .some
  | run hbody hscope => exact Stmt.resembles_run hcall hscope _ _ hbody
  | runBody hd hscope =>
    exact Eval.resembles_map (Definition.resembles_run hd _ hcall hscope) fun _ _ => .some
  | call hname hargs hscope hplace =>
    exact Eval.resembles_map (hcall _ _ _ _ _ _ _ _ hname hargs hscope hplace) fun _ _ => .some
  | callAlone hname hargs hplace =>
    have halone := Eval.resembles_inNewScope .none fun _ _ hscope =>
      hcall _ _ _ _ _ _ _ _ hname hargs hscope hplace
    exact Eval.resembles_map halone fun _ _ => .some
  | bind hp hname hargs hscope =>
    exact Eval.resembles_bind (Params.resembles_bind hp hname hargs hcall hscope) fun _ _ _ =>
      Eval.resembles_pure .none

theorem Step.resembles_perform {step step' : Step} (h : step.Resembles R step') :
    Eval.Resembles R (Reply.Resembles R) (step.perform s) (step'.perform s) := by
  cases h with
  | enter hparent =>
    intro m n hm
    exact .ok (.scope hm.store.scope_next) ⟨hm.store.enter hparent, hm.builder, hm.depth⟩
  | retain hheld =>
    intro m n hm
    exact .ok .done ⟨hm.store.retain hheld, hm.builder, hm.depth⟩
  | setLocation hplace =>
    intro m n hm
    exact .ok .done ⟨hm.store, ⟨hplace, hm.builder.built⟩, hm.depth⟩
  | build hx =>
    exact Eval.resembles_bind (Eval.resembles_build hx) fun _ _ hv =>
      Eval.resembles_pure (.value (.some hv))
  | define hscope hname hv =>
    exact Eval.resembles_bind (Eval.resembles_define hscope hname hv) fun _ _ _ =>
      Eval.resembles_pure .done
  | defineFunction hscope hf =>
    exact Eval.resembles_bind (Eval.resembles_defineFunction hscope hf) fun _ _ _ =>
      Eval.resembles_pure .done
  | lookup hscope hname =>
    exact Eval.resembles_bind (Eval.resembles_ofStore fun _ _ hst => hst.lookup? hname hscope)
      fun _ _ hv => Eval.resembles_pure (.value hv)
  | lookupOwn hscope hname =>
    exact Eval.resembles_bind (Eval.resembles_ofStore fun _ _ hst => hst.local? hname hscope)
      fun _ _ hv => Eval.resembles_pure (.value hv)
  | lookupFunction hscope hname =>
    exact Eval.resembles_bind (Eval.resembles_ofStore fun _ _ hst => hst.lookupFunction? hname hscope)
      fun _ _ hf => Eval.resembles_pure (.function hf)
  | request hr =>
    exact Eval.resembles_bind (Request.resembles_answer hs hr _) fun _ _ hv =>
      Eval.resembles_pure (.value hv)

/-- Scripts that resemble each other are answered alike, step by step. -/
theorem resemble_runScript {steps steps' : List Step}
    (h : List.Forall₂ (Step.Resembles R) steps steps') {m n : Machine} (hm : m.Resembles R n) :
    List.Forall₂ (Outcome.Resembles R (Reply.Resembles R)) (runScript s steps m)
      (runScript s steps' n) := by
  induction h generalizing m n with
  | nil => exact .nil
  | cons hstep _ ih =>
    have houtcome := Step.resembles_perform hs hstep m n hm
    exact .cons houtcome (ih houtcome.machine)

end Scripts

/-! ## Answers as they are seen from outside -/

/-- Replies that are the same as far as a view of values shows. Functions that are found
    resemble each other. -/
inductive Reply.SameBy (R : Resemblance) (view : Value → Value) : Reply → Reply → Prop where
  | done : SameBy R view .done .done
  | scope (id : ScopeId) : SameBy R view (.scope id) (.scope id)
  | value {v w : Option Value} :
    v.map view = w.map view → SameBy R view (.value v) (.value w)
  | function {f g : Option Function} :
    Option.Rel (Function.Resembles R) f g → SameBy R view (.function f) (.function g)

/-- Outcomes that are the same as far as a view of values and one of errors show, with as
    many values built and as many bodies being run. -/
def Outcome.SameBy {γ : Type} (R : Resemblance) (view : Value → Value) (shown : Error → γ)
    (o o' : Outcome Reply) : Prop :=
  (machine o).builder.built = (machine o').builder.built ∧ (machine o).depth = (machine o').depth ∧
    match result o, result o' with
    | .ok reply, .ok reply' => reply.SameBy R view reply'
    | .error (.error e), .error (.error e') => shown e = shown e'
    | .error .outOfFuel, .error .outOfFuel => True
    | _, _ => False

section SameBy

variable {view : Value → Value} (hview : ∀ v w : Value, v.Resembles R w → view v = view w)
  (hscope : ∀ a b, R.scope a b → a = b)

include hview hscope

theorem Reply.Resembles.sameBy {reply reply' : Reply} (h : reply.Resembles R reply') :
    reply.SameBy R view reply' := by
  cases h with
  | done => exact .done
  | @scope a b hab =>
    obtain rfl := hscope a b hab
    exact .scope a
  | value hv =>
    refine .value ?_
    cases hv with
    | none => rfl
    | some hv => exact congrArg some (hview _ _ hv)
  | function hf => exact .function hf

theorem Outcome.Resembles.sameBy {γ : Type} {shown : Error → γ}
    (hshown : ∀ e e' : Error, e.Resembles R e' → shown e = shown e') {o o' : Outcome Reply}
    (h : Outcome.Resembles R (Reply.Resembles R) o o') : o.SameBy R view shown o' := by
  have hmachine := h.machine
  refine ⟨hmachine.builder.built, hmachine.depth, ?_⟩
  cases h with
  | ok hreply _ => exact hreply.sameBy hview hscope
  | error he _ => exact hshown _ _ he
  | outOfFuel _ => trivial

end SameBy

end StyleScript
