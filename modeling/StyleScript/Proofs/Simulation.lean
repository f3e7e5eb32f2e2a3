-- SUMMARY: Two runs of one program side by side, from machines that stand for each other.
import StyleScript.Proofs.Building
import StyleScript.Proofs.Calls

/-!
# Simulation

Two runs of one program, on machines that stand for each other, give the same
results and leave machines that stand for each other again. What it takes is said
once, in the fields of a simulation: the machines agree in what a run reads, and
each change that a run makes keeps them together. The scopes of the two machines
need not have the same numbers.

The right run may be given more fuel or a higher limit. It then does what the left one
does up to where the left one stopped for want of them: such an interruption is excused,
and what the right run does instead is not looked at.
-/

namespace StyleScript

/-- Functions that differ in the number of the scope that they were defined in at
    most; the code of a builtin must be of a given kind. -/
inductive Function.Alike (scope : ScopeId → ScopeId → Prop) (code : NativeCode → Prop) :
    Function → Function → Prop where
  | native {name : String} {params : Params} {run : NativeCode} {overloaded : Bool} :
    code run → Alike scope code ⟨name, params, .native run, overloaded⟩
      ⟨name, params, .native run, overloaded⟩
  | written {name : String} {params : Params} {d : Definition} {a b : ScopeId} {overloaded : Bool} :
    scope a b → Alike scope code ⟨name, params, .written d a, overloaded⟩
      ⟨name, params, .written d b, overloaded⟩

/-- Outcomes with the same result, on machines that stand for each other. An
    interruption that is excused agrees with everything. -/
inductive Outcome.Agree {α : Type} (state : Machine → Machine → Prop)
    (excused : Interruption → Prop) : Outcome α → Outcome α → Prop where
  | ok {a : α} {m n : Machine} : state m n → Agree state excused (.ok a m) (.ok a n)
  | error {e : Interruption} {m n : Machine} :
    state m n → Agree state excused (.error e m) (.error e n)
  | ahead {e : Interruption} {m : Machine} {o : Outcome α} :
    excused e → Agree state excused (.error e m) o

/-- A way in which the machines of two runs stand for each other. -/
structure Simulation where
  /-- The scopes that stand for each other. -/
  scope : ScopeId → ScopeId → Prop
  /-- The machines that stand for each other. -/
  state : Machine → Machine → Prop
  /-- The code of the builtins that the runs may come to. -/
  code : NativeCode → Prop
  /-- The options of the two runs. -/
  options : Options → Options → Prop
  /-- The interruptions of the left run after which the right one may do anything. -/
  excused : Interruption → Prop
  overflow {o o' : Options} {e : Error} : options o o' → o.maxDepth < o'.maxDepth →
    e.kind = .stackOverflow → excused (.error e)
  locate {e : Error} (place : Option Location) :
    excused (.error e) → excused (.error (e.locate place))
  depth {m n : Machine} : state m n → m.depth = n.depth
  withDepth {m n : Machine} (d : Nat) : state m n → state (m.withDepth d) (n.withDepth d)
  location {m n : Machine} : state m n → m.builder.location = n.builder.location
  grow {m n : Machine} (k : Nat) : state m n →
    state (m.withBuilder (m.builder.grow k)) (n.withBuilder (n.builder.grow k))
  native {run : NativeCode} {o o' : Options} {m n : Machine} (call : Invocation)
    (location : Option Location) (report : Error → Error) : code run → options o o' → state m n →
    let x (o : Options) := Eval.build (Build.stamped location (Build.mapError report
      (run { call with options := o })))
    Outcome.Agree state excused (x o m) (x o' n)
  lookup {a b : ScopeId} {m n : Machine} : scope a b → state m n →
    m.store.lookup? a = n.store.lookup? b
  locals {a b : ScopeId} {m n : Machine} : scope a b → state m n →
    m.store.locals a = n.store.locals b
  function {a b : ScopeId} {m n : Machine} (name : String) : scope a b → state m n →
    Option.Rel (Function.Alike scope code) (m.store.lookupFunction? a name)
      (n.store.lookupFunction? b name)
  contains {a b : ScopeId} {m n : Machine} : scope a b → state m n →
    m.store.contains a = n.store.contains b
  define {a b : ScopeId} {m n : Machine} (name : String) (v : Value) : scope a b → state m n →
    state (m.define a name v) (n.define b name v)
  defineFunction {a b : ScopeId} {m n : Machine} (d : Definition) : scope a b → state m n →
    state (m.defineFunction a (.ofDefinition d a)) (n.defineFunction b (.ofDefinition d b))
  enter {a b : Option ScopeId} {m n : Machine} : Option.Rel scope a b → state m n →
    scope m.store.next n.store.next ∧ state (m.enter a) (n.enter b)
  leave {a b : ScopeId} {m n : Machine} : scope a b → state m n → state (m.leave a) (n.leave b)

namespace Simulation

variable (S : Simulation) {α β : Type}

/-- From machines that stand for each other the two computations come to outcomes
    that agree. -/
def Matches (x y : Eval α) : Prop :=
  ∀ m n, S.state m n → Outcome.Agree S.state S.excused (x m) (y n)

/-- Two ways to make calls that match in scopes that stand for each other. -/
def MatchesCalls (call call' : Caller) : Prop :=
  ∀ name args location a b, S.scope a b →
    S.Matches (call name args a location) (call' name args b location)

variable {S}

/-! ## Putting computations together -/

theorem matches_pure (a : α) : S.Matches (pure a) (pure a) := fun _ _ h => .ok h

theorem matches_fail (e : Error) : S.Matches (Eval.fail e : Eval α) (Eval.fail e) :=
  fun _ _ h => .error h

theorem matches_bind {x y : Eval α} {f g : α → Eval β} (hx : S.Matches x y)
    (hf : ∀ a, S.Matches (f a) (g a)) : S.Matches (x >>= f) (y >>= g) := by
  intro m n h
  have hagree := hx m n h
  generalize hxm : x m = o at hagree
  generalize hyn : y n = o' at hagree
  cases hagree with
  | ok hstate =>
    rw [Eval.bind_ok hxm, Eval.bind_ok hyn]
    exact hf _ _ _ hstate
  | error hstate =>
    rw [Eval.bind_error hxm, Eval.bind_error hyn]
    exact .error hstate
  | ahead hexcused =>
    rw [Eval.bind_error hxm]
    exact .ahead hexcused

theorem matches_locate {x y : Eval α} (place : Option Location) (hx : S.Matches x y) :
    S.Matches (Eval.locate place x) (Eval.locate place y) := by
  intro m n h
  have hagree := hx m n h
  unfold Eval.locate
  generalize x m = o at hagree
  generalize y n = o' at hagree
  cases hagree with
  | ok hstate => exact .ok hstate
  | @error e _ _ hstate =>
    cases e with
    | error e => exact .error hstate
    | outOfFuel => exact .error hstate
  | @ahead e _ _ hexcused =>
    cases e with
    | error e => exact .ahead (S.locate place hexcused)
    | outOfFuel => exact .ahead hexcused

theorem matches_build {x : Build α} (hx : x.Blind) : S.Matches (Eval.build x) (Eval.build x) := by
  intro m n h
  unfold Eval.build
  obtain ⟨k, ⟨a, hm, hn⟩ | ⟨e, hm, hn⟩⟩ := hx m.builder n.builder (S.location h)
  · rw [hm, hn]
    exact .ok (S.grow k h)
  · rw [hm, hn]
    exact .error (S.grow k h)

/-- One body less is being run on both machines. -/
private theorem state_pred {m n : Machine} (h : S.state m n) :
    S.state (m.withDepth (m.depth - 1)) (n.withDepth (n.depth - 1)) := by
  rw [S.depth h]
  exact S.withDepth _ h

theorem matches_nested {x y : Eval α} (hx : S.Matches x y) :
    S.Matches (Eval.nested x) (Eval.nested y) := by
  intro m n h
  rw [Eval.nested_apply, Eval.nested_apply]
  have hagree := hx _ _ (S.withDepth (m.depth + 1) h)
  rw [S.depth h] at hagree ⊢
  generalize x (m.withDepth (n.depth + 1)) = o at hagree
  generalize y (n.withDepth (n.depth + 1)) = o' at hagree
  cases hagree with
  | ok hstate => exact .ok (state_pred hstate)
  | error hstate => exact .error (state_pred hstate)
  | ahead hexcused => exact .ahead hexcused

theorem matches_inNewScope {parent parent' : Option ScopeId} {body body' : ScopeId → Eval α}
    (hparent : Option.Rel S.scope parent parent')
    (hbody : ∀ a b, S.scope a b → S.Matches (body a) (body' b)) :
    S.Matches (Eval.inNewScope parent body) (Eval.inNewScope parent' body') := by
  intro m n h
  rw [Eval.inNewScope_apply, Eval.inNewScope_apply]
  obtain ⟨hscope, henter⟩ := S.enter hparent h
  have hagree := hbody _ _ hscope _ _ henter
  generalize body m.store.next (m.enter parent) = o at hagree
  generalize body' n.store.next (n.enter parent') = o' at hagree
  cases hagree with
  | ok hstate => exact .ok (S.leave hscope hstate)
  | error hstate => exact .error (S.leave hscope hstate)
  | ahead hexcused => exact .ahead hexcused

theorem matches_define {a b : ScopeId} (h : S.scope a b) (name : String) (v : Value) :
    S.Matches (Eval.define a name v) (Eval.define b name v) :=
  fun _ _ hstate => .ok (S.define name v h hstate)

theorem matches_defineFunction {a b : ScopeId} (h : S.scope a b) (d : Definition) :
    S.Matches (Eval.defineFunction a (.ofDefinition d a)) (Eval.defineFunction b (.ofDefinition d b)) :=
  fun _ _ hstate => .ok (S.defineFunction d h hstate)

/-! ## Expressions and statements -/

section Program

variable {call call' : Caller} {a b : ScopeId}

mutual

theorem matches_eval (hcall : S.MatchesCalls call call') (hscope : S.scope a b) :
    (e : Expr) → S.Matches (e.eval call a) (e.eval call' b)
  | .literal v => matches_pure v
  | .variable name location => by
    intro m n h
    unfold Expr.eval
    rw [Eval.ofStore_bind_apply, Eval.ofStore_bind_apply, S.lookup hscope h]
    cases n.store.lookup? b name with
    | some v => exact .ok h
    | none => exact .error h
  | .list items separator =>
    matches_bind (matches_evalItems hcall hscope items) fun vs =>
      matches_build (Build.blind_make (.list vs separator))
  | .unary op operand location =>
    matches_bind (matches_eval hcall hscope operand) fun v =>
      matches_locate location (matches_build (op.blind_apply v))
  | .binary op left right location => by
    unfold Expr.eval
    apply matches_bind (matches_eval hcall hscope left)
    intro l
    split
    · exact matches_pure l
    · apply matches_bind (matches_eval hcall hscope right)
      intro r
      split
      · exact matches_pure r
      · exact matches_locate location (matches_build (op.blind_apply l r))
  | .call name args location =>
    matches_bind (matches_evalArgs hcall hscope args) fun vs => hcall name vs location a b hscope

theorem matches_evalItems (hcall : S.MatchesCalls call call') (hscope : S.scope a b) :
    (es : List Expr) → S.Matches (evalItems call a es) (evalItems call' b es)
  | [] => matches_pure []
  | e :: es =>
    matches_bind (matches_eval hcall hscope e) fun v =>
      matches_bind (matches_evalItems hcall hscope es) fun vs => matches_pure (v :: vs)

theorem matches_evalArgs (hcall : S.MatchesCalls call call') (hscope : S.scope a b) :
    (args : List Arg) → S.Matches (evalArgs call a args) (evalArgs call' b args)
  | [] => matches_pure _
  | .mk name e :: args =>
    matches_bind (matches_eval hcall hscope e) fun v =>
      matches_bind (matches_evalArgs hcall hscope args) fun rest => matches_pure (rest.cons name v)

end

theorem matches_run (hcall : S.MatchesCalls call call') (hscope : S.scope a b) :
    (body : List Stmt) → S.Matches (Stmt.run call a body) (Stmt.run call' b body)
  | [] => matches_pure none
  | .assign name e :: rest =>
    matches_bind (matches_eval hcall hscope e) fun v =>
      matches_bind (matches_define hscope name v) fun _ => matches_run hcall hscope rest
  | .result e :: _ => matches_bind (matches_eval hcall hscope e) fun v => matches_pure (some v)
  | .define name params body location :: rest =>
    matches_bind (matches_defineFunction hscope (⟨name, params, body, location⟩ : Definition)) fun _ =>
      matches_run hcall hscope rest

/-- Bodies match: one that is not run for the lower limit is excused. -/
theorem matches_body {o o' : Options} (ho : S.options o o') (hle : o.maxDepth ≤ o'.maxDepth)
    (hcall : S.MatchesCalls call call') (hscope : S.scope a b) (d : Definition) :
    S.Matches (d.run o.maxDepth call a) (d.run o'.maxDepth call' b) := by
  intro m n h
  have hdepth := S.depth h
  by_cases hlimit : m.depth < o.maxDepth
  · rw [d.run_below_limit hlimit, d.run_below_limit (hdepth ▸ Nat.lt_of_lt_of_le hlimit hle)]
    refine matches_bind (matches_nested (matches_run hcall hscope d.body)) (fun v => ?_) m n h
    cases v with
    | some v => exact matches_pure v
    | none => exact matches_fail _
  · have hover := Nat.le_of_not_lt hlimit
    rw [d.run_at_limit hover]
    -- under a higher limit the body may run on the right, and the error names the limit
    rcases Nat.lt_or_eq_of_le hle with hlt | hsame
    · exact .ahead (S.overflow ho hlt rfl)
    · rw [d.run_at_limit (hsame ▸ hdepth ▸ hover), hsame]
      exact .error h

/-! ## Calls -/

theorem matches_value? (hcall : S.MatchesCalls call call') (hscope : S.scope a b) (slot : Slot) :
    S.Matches (slot.value? (Session.evaluator call) a) (slot.value? (Session.evaluator call') b) := by
  unfold Slot.value?
  split
  · exact matches_pure _
  · exact matches_pure _
  · simp only [map_eq_pure_bind]
    exact matches_bind (matches_eval hcall hscope _) fun v => matches_pure (some v)
  · exact matches_pure _

theorem matches_fill (hcall : S.MatchesCalls call call') (hscope : S.scope a b) :
    (slots : List Slot) →
      S.Matches (Slot.fill (Session.evaluator call) a slots)
        (Slot.fill (Session.evaluator call') b slots)
  | [] => matches_pure []
  | slot :: slots => by
    rw [Slot.fill_cons, Slot.fill_cons]
    refine matches_bind (matches_value? hcall hscope slot) fun v => ?_
    cases v with
    | some v =>
      exact matches_bind (matches_define hscope slot.param.name v) fun _ =>
        matches_fill hcall hscope slots
    | none =>
      exact matches_bind (matches_fill hcall hscope slots) fun missing =>
        matches_pure (slot.param.name :: missing)

theorem matches_complete (hscope : S.scope a b) (p : Params) (function : String) (args : Args)
    (missing : List String) :
    S.Matches (p.complete function args a missing) (p.complete function args b missing) := by
  cases missing with
  | cons _ _ => exact matches_fail _
  | nil =>
    unfold Params.complete Params.bindRest
    cases p.rest with
    | none => exact matches_pure ()
    | some rest =>
      exact matches_bind (matches_build (Build.blind_make _)) fun list =>
        matches_define hscope rest list

theorem matches_bindParams (hcall : S.MatchesCalls call call') (hscope : S.scope a b) (p : Params)
    (function : String) (args : Args) :
    S.Matches (p.bind function args (Session.evaluator call) a)
      (p.bind function args (Session.evaluator call') b) := by
  intro m n h
  cases hplace : p.place args with
  | error fault =>
    rw [Params.bind_of_place_error hplace, Params.bind_of_place_error hplace]
    exact .error h
  | ok slots =>
    rw [Params.bind_of_place_ok hplace, Params.bind_of_place_ok hplace]
    exact matches_bind (matches_fill hcall hscope slots)
      (matches_complete hscope p function args) m n h

variable (S) in
/-- Two sessions with the same builtins, whose runs can stand for each other. The limit of
    the right one may be higher. -/
structure Sessions (s s' : Session) : Prop where
  registry : s'.registry = s.registry
  candidates : ∀ name count f, s.registry.resolve name count = .ok f → f.Alike S.scope S.code f
  options : S.options s.options s'.options
  limit : s.options.maxDepth ≤ s'.options.maxDepth

theorem matches_runNative {s s' : Session} (ho : S.options s.options s'.options)
    {run : NativeCode} (hrun : S.code run) (name : String) (location : Option Location)
    {a' b' : ScopeId} (hscope : S.scope a b) (hscope' : S.scope a' b') :
    S.Matches (s.runNative name run a a' location) (s'.runNative name run b b' location) := by
  intro m n h
  unfold Session.runNative
  rw [Eval.ofStore_bind_apply, Eval.ofStore_bind_apply]
  simp only [id_eq, S.locals hscope h, S.lookup hscope' h]
  exact S.native ⟨name, _, _, location, s.options⟩ location _ hrun ho h

theorem matches_invoke {s s' : Session} (hs : S.Sessions s s')
    (hcall : S.MatchesCalls call call') {f g : Function} (hfun : f.Alike S.scope S.code g)
    (args : Args) (location : Option Location) (hscope : S.scope a b) :
    S.Matches (s.invoke call f args a location) (s'.invoke call' g args b location) := by
  intro m n h
  cases hfun with
  | @native name params run overloaded hrun =>
    rw [Session.invoke_alive rfl, Session.invoke_alive rfl]
    refine matches_inNewScope .none (fun a' b' hscope' => ?_) m n h
    refine matches_bind ?_ fun _ => matches_runNative hs.options hrun name location hscope' hscope
    exact matches_locate location (matches_bindParams hcall hscope' params name args)
  | @written name params d c c' overloaded hclosure =>
    have hcontains := S.contains hclosure h
    let f : Function := ⟨name, params, .written d c, overloaded⟩
    let g : Function := ⟨name, params, .written d c', overloaded⟩
    have hsame : f.body.alive m.store = g.body.alive n.store := hcontains
    cases halive : f.body.alive m.store with
    | true =>
      rw [Session.invoke_alive halive, Session.invoke_alive (hsame ▸ halive)]
      refine matches_inNewScope (.some hclosure) (fun a' b' hscope' => ?_) m n h
      refine matches_bind ?_ fun _ => matches_locate location ?_
      · exact matches_locate location (matches_bindParams hcall hscope' params name args)
      · exact matches_body hs.options hs.limit hcall hscope' d
    | false =>
      rw [Session.invoke_dead halive, Session.invoke_dead (hsame ▸ halive)]
      exact .error h

end Program

/-- Targets of the two runs are found alike. -/
theorem target_alike {s s' : Session} (hs : S.Sessions s s') {a b : ScopeId} {m n : Machine}
    (name : String) (count : Nat) (hscope : S.scope a b) (h : S.state m n) :
    (∃ f g, s.target m.store name count a = .ok f ∧ s'.target n.store name count b = .ok g ∧
      f.Alike S.scope S.code g) ∨
    (∃ e, s.target m.store name count a = .error e ∧ s'.target n.store name count b = .error e) := by
  have hfun := S.function name hscope h
  unfold Session.target
  generalize m.store.lookupFunction? a name = found at hfun
  generalize n.store.lookupFunction? b name = found' at hfun
  cases hfun with
  | some halike => exact .inl ⟨_, _, rfl, rfl, halike⟩
  | none =>
    simp only [hs.registry]
    cases hresolve : s.registry.resolve name count with
    | ok f => exact .inl ⟨f, f, rfl, rfl, hs.candidates name count f hresolve⟩
    | error e => exact .inr ⟨e, rfl, rfl⟩

/-- Calls match, with the same fuel or, where running out of it is excused, with more of
    it on the right. -/
theorem matches_call {s s' : Session} (hs : S.Sessions s s') {fuel fuel' : Nat}
    (hfuel : fuel = fuel' ∨ S.excused .outOfFuel ∧ fuel ≤ fuel') :
    S.MatchesCalls (s.call fuel) (s'.call fuel') := by
  induction fuel generalizing fuel' with
  | zero =>
    intro name args location a b hscope m n h
    rcases hfuel with rfl | ⟨hexcused, _⟩
    · exact .error h
    · exact .ahead hexcused
  | succ fuel ih =>
    obtain ⟨fuel', rfl⟩ : ∃ k, fuel' = k + 1 := ⟨fuel' - 1, by omega⟩
    have hcall : S.MatchesCalls (s.call fuel) (s'.call fuel') := ih (by
      rcases hfuel with h | ⟨hexcused, h⟩
      · exact .inl (by omega)
      · exact .inr ⟨hexcused, by omega⟩)
    intro name args location a b hscope m n h
    rcases target_alike hs name args.count hscope h with ⟨f, g, hf, hg, halike⟩ | ⟨e, he, he'⟩
    · rw [Session.call_target hf, Session.call_target hg]
      exact matches_invoke hs hcall halike args location hscope m n h
    · rw [Session.call_no_target he, Session.call_no_target he']
      exact .error h

end Simulation

end StyleScript
