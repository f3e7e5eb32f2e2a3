-- SUMMARY: Evaluation comes to an end when no default contains a call.
import StyleScript.Proofs.Builtins
import StyleScript.Proofs.Placing
import StyleScript.Proofs.Recursion
import StyleScript.Proofs.Targets
import StyleScript.Proofs.Watches

/-!
# Defaults without calls

When no default of a function that an evaluation can come to contains a call, no
call is ever made while arguments are bound. All recursion goes through bodies then,
and the limit on nested bodies ends it.

Which functions an evaluation can come to is read off the store that it starts on:
those of the scopes that lead outward from its own, of the scopes that these
functions were defined in, and so on. Functions that are defined on the way are
written in the bodies of those, and find nothing else.
-/

namespace StyleScript

/-! ## Quiet functions -/

mutual

/-- Whether there is a call in an expression. -/
def Expr.hasCall : Expr → Bool
  | .literal _ => false
  | .variable .. => false
  | .list items _ => itemsHaveCall items
  | .unary _ operand _ => operand.hasCall
  | .binary _ left right _ => left.hasCall || right.hasCall
  | .call .. => true

def itemsHaveCall : List Expr → Bool
  | [] => false
  | e :: es => e.hasCall || itemsHaveCall es

end

/-- A parameter without a call in its default. -/
def Param.quiet (p : Param) : Bool := p.default.all (!·.hasCall)

/-- Parameters without calls in their defaults. -/
def Params.quiet (p : Params) : Bool := p.fixed.all (·.quiet)

mutual

/-- A statement that defines only functions without calls in their defaults, within
    their bodies as well. -/
def Stmt.quiet : Stmt → Bool
  | .assign .. => true
  | .result _ => true
  | .define _ params body _ => params.quiet && Stmt.allQuiet body

def Stmt.allQuiet : List Stmt → Bool
  | [] => true
  | stmt :: rest => stmt.quiet && Stmt.allQuiet rest

end

/-- A function without calls in its defaults and in those of all functions that are
    defined in its body. -/
def Function.quiet (f : Function) : Bool :=
  f.params.quiet &&
    match f.body with
    | .native _ => true
    | .written d _ => Stmt.allQuiet d.body

/-- A builtin of the standard registry has only literals for defaults. -/
theorem Function.IsBuiltin.quiet {f : Function} (h : f.IsBuiltin) : f.quiet = true := by
  obtain ⟨b, hbody⟩ := h.code
  have hparams : f.params.quiet = true := by
    apply List.all_eq_true.2
    intro p hp
    unfold Param.quiet
    cases hdefault : p.default with
    | none => rfl
    | some e =>
      obtain ⟨v, rfl⟩ := h.defaults p hp e hdefault
      rfl
  unfold Function.quiet
  rw [hparams, hbody]
  rfl

/-! ## Which functions an evaluation can come to -/

namespace Session

/-- The scopes whose functions an evaluation in a scope can come to. -/
inductive Visits (s : Session) (store : Store) (scope : ScopeId) : ScopeId → Prop where
  | start : Visits s store scope scope
  | outward {id sc outer} :
    Visits s store scope id → store.get? id = some sc → outer ∈ sc.ancestors →
    Visits s store scope outer
  | closure {id sc name f d outer} :
    Visits s store scope id → store.get? id = some sc → sc.functions.get? name = some f →
    f.body = .written d outer → Visits s store scope outer
  | candidate {name f d outer} :
    f ∈ s.registry.candidates name → f.body = .written d outer → Visits s store scope outer

/-- The functions that an evaluation in a scope can come to, apart from those that
    are defined on the way. -/
inductive Involves (s : Session) (store : Store) (scope : ScopeId) : Function → Prop where
  | found {id sc name f} :
    s.Visits store scope id → store.get? id = some sc → sc.functions.get? name = some f →
    Involves s store scope f
  | candidate {name f} : f ∈ s.registry.candidates name → Involves s store scope f

end Session

/-- A quiet function that was defined in one of the given scopes, unless it is a
    builtin. -/
structure Function.QuietIn (scopes : ScopeId → Prop) (f : Function) : Prop where
  quiet : f.quiet = true
  closure : ∀ d outer, f.body = .written d outer → scopes outer

/-- A call of a quiet function opens its scope inside a calm one. -/
theorem Function.QuietIn.around {scopes : ScopeId → Prop} {f : Function} (h : f.QuietIn scopes) :
    ∀ id ∈ f.body.around, scopes id := by
  intro id hid
  cases hbody : f.body with
  | native run =>
    rw [hbody] at hid
    cases hid
  | written d outer =>
    rw [hbody] at hid
    cases hid
    exact h.closure d id hbody

/-- Scopes that lead to each other only, and whose functions are quiet. -/
structure Session.Calm (s : Session) (store : Store) (scopes : ScopeId → Prop) : Prop where
  outward : ∀ id sc outer, scopes id → store.get? id = some sc → outer ∈ sc.ancestors → scopes outer
  found : ∀ id sc name f, scopes id → store.get? id = some sc → sc.functions.get? name = some f →
    f.QuietIn scopes
  candidate : ∀ name f, f ∈ s.registry.candidates name → f.QuietIn scopes

namespace Session

variable {s : Session} {store store' : Store} {scopes : ScopeId → Prop}

theorem calm_visits {scope : ScopeId} (h : ∀ f, s.Involves store scope f → f.quiet = true) :
    s.Calm store (s.Visits store scope) where
  outward _ _ _ := .outward
  found _ _ _ _ hid hget hf := ⟨h _ (.found hid hget hf), fun _ _ => .closure hid hget hf⟩
  candidate _ _ hf := ⟨h _ (.candidate hf), fun _ _ => .candidate hf⟩

/-! ## Scopes stay calm -/

/-- Scopes stay calm when no scope gets functions or stands elsewhere. -/
theorem Calm.of_scopes (h : s.Calm store scopes)
    (hsub : ∀ id sc', store'.get? id = some sc' → ∃ sc, store.get? id = some sc ∧
      sc'.ancestors = sc.ancestors ∧ sc'.functions.get? = sc.functions.get?) :
    s.Calm store' scopes where
  outward id sc' outer hid hget hmem := by
    obtain ⟨sc, hsc, hancestors, _⟩ := hsub id sc' hget
    exact h.outward id sc outer hid hsc (hancestors ▸ hmem)
  found id sc' name f hid hget hf := by
    obtain ⟨sc, hsc, _, hfunctions⟩ := hsub id sc' hget
    rw [hfunctions] at hf
    exact h.found id sc name f hid hsc hf
  candidate := h.candidate

variable {m n : Machine}

theorem Calm.of_kept (h : s.Calm m.store scopes) (hkept : m.Kept n) : s.Calm n.store scopes := by
  apply h.of_scopes
  intro id sc' hget
  rcases hkept.dropped id with hsame | hgone
  · exact ⟨sc', hsame ▸ hget, rfl, rfl⟩
  · rw [hgone] at hget
    cases hget

/-- Writing variables leaves scopes calm. -/
theorem Calm.of_edited {scope : ScopeId} {vars : String → Prop} (h : s.Calm m.store scopes)
    (hedited : m.Edited scope vars (fun _ => False) n) (hscope : scope < m.store.next) :
    s.Calm n.store scopes := by
  apply h.of_scopes
  intro id sc' hget
  by_cases hid : id = scope
  · subst hid
    obtain ⟨sc, hsc, hedit⟩ := hedited.own_after hscope hget
    exact ⟨sc, hsc, hedit.ancestors, funext fun name => hedit.functions name not_false⟩
  · rcases hedited.dropped id hid with hsame | hgone
    · exact ⟨sc', hsame ▸ hget, rfl, rfl⟩
    · rw [hgone] at hget
      cases hget

theorem Calm.define (h : s.Calm store scopes) (scope : ScopeId) (name : String) (v : Value) :
    s.Calm (store.define scope name v) scopes := by
  apply h.of_scopes
  intro id sc' hget
  rw [Store.define, Store.get?_update] at hget
  split at hget
  · obtain ⟨sc, hsc, rfl⟩ := Option.map_eq_some_iff.1 hget
    exact ⟨sc, hsc, rfl, rfl⟩
  · exact ⟨sc', hget, rfl, rfl⟩

/-- Scopes stay calm when one of them gets a quiet function that was defined in one
    of them. -/
theorem Calm.defineFunction (h : s.Calm store scopes) (scope : ScopeId) {f : Function}
    (hf : f.QuietIn scopes) : s.Calm (store.defineFunction scope f) scopes where
  outward id sc' outer hid hget hmem := by
    rw [Store.defineFunction, Store.get?_update] at hget
    split at hget
    · obtain ⟨sc, hsc, rfl⟩ := Option.map_eq_some_iff.1 hget
      exact h.outward id sc outer hid hsc hmem
    · exact h.outward id sc' outer hid hget hmem
  found id sc' name g hid hget hg := by
    rw [Store.defineFunction, Store.get?_update] at hget
    split at hget
    · obtain ⟨sc, hsc, rfl⟩ := Option.map_eq_some_iff.1 hget
      rw [NameTable.get?_insert] at hg
      split at hg
      · cases hg
        exact hf
      · exact h.found id sc name g hid hsc hg
    · exact h.found id sc' name g hid hget hg
  candidate := h.candidate

/-- A scope and those around it are among calm scopes together. -/
theorem Calm.chain (h : s.Calm store scopes) {scope id : ScopeId} (hscope : scopes scope)
    (hid : id ∈ store.chain scope) : scopes id := by
  unfold Store.chain at hid
  split at hid
  · rename_i sc hget
    rcases List.mem_cons.1 hid with rfl | hmem
    · exact hscope
    · exact h.outward scope sc id hscope hget hmem
  · cases hid

private theorem quietIn_mono {scopes' : ScopeId → Prop} {f : Function} (h : f.QuietIn scopes)
    (hsub : ∀ id, scopes id → scopes' id) : f.QuietIn scopes' :=
  ⟨h.quiet, fun d outer hbody => hsub outer (h.closure d outer hbody)⟩

/-- A new scope inside one of the calm scopes is calm with them. -/
theorem Calm.enter (h : s.Calm store scopes) (parent : Option ScopeId)
    (hparent : ∀ id ∈ parent, scopes id) :
    s.Calm (store.enter parent).2 fun id => id = store.next ∨ scopes id where
  outward id sc outer hid hget hmem := by
    rw [Store.get?_enter] at hget
    split at hget
    · cases hget
      cases parent with
      | none => cases hmem
      | some around => exact .inr (h.chain (hparent around rfl) hmem)
    · rename_i hne
      exact .inr (h.outward id sc outer (hid.resolve_left hne) hget hmem)
  found id sc name f hid hget hf := by
    rw [Store.get?_enter] at hget
    split at hget
    · cases hget
      cases hf
    · rename_i hne
      exact quietIn_mono (h.found id sc name f (hid.resolve_left hne) hget hf) fun _ => .inr
  candidate name f hf := quietIn_mono (h.candidate name f hf) fun _ => .inr

/-- A call from a calm scope reaches a quiet function. -/
theorem Calm.target (h : s.Calm store scopes) {scope : ScopeId} (hscope : scopes scope)
    {name : String} {count : Nat} {f : Function} (hf : s.target store name count scope = .ok f) :
    f.QuietIn scopes := by
  rcases target_eq_ok hf with hlookup | hcandidate
  · obtain ⟨id, hid, sc, hget, hfound⟩ := Store.lookupFunction?_eq_some hlookup
    exact h.found id sc name f (h.chain hscope hid) hget hfound
  · exact h.candidate name f hcandidate

/-! ## Evaluation stays among quiet functions -/

end Session

/-- A task without calls in the defaults that it is about to bind or to define. -/
def Task.quiet : Task → Bool
  | .fill slots _ => (Slot.params slots).all (·.quiet)
  | .stmts body _ => Stmt.allQuiet body
  | _ => true

/-- A task without calls. -/
def Task.silent : Task → Bool
  | .expr e _ => !e.hasCall
  | .items es _ => !itemsHaveCall es
  | .fill slots _ => (Slot.params slots).all (·.quiet)
  | _ => false

namespace Session

variable {s : Session} {scopes : ScopeId → Prop} {t t' : Task} {m m' : Machine}

/-- A quiet task that runs in one of calm scopes. -/
structure Peaceful (s : Session) (t : Task) (m : Machine) (scopes : ScopeId → Prop) : Prop where
  calm : s.Calm m.store scopes
  scope : scopes t.scope
  quiet : t.quiet = true

/-- What a quiet task starts is quiet, and runs in a calm scope again. -/
theorem Peaceful.of_starts {k : Nat} (h : s.Peaceful t m scopes) (hstart : s.Starts k t m t' m') :
    ∃ scopes', s.Peaceful t' m' scopes' := by
  have hcall (fuel : Nat) := s.keeps_call fuel
  obtain ⟨hcalm, hscope, hquiet⟩ := h
  cases hstart with
  | list | operand | left | args | item | arg | value | result =>
    exact ⟨scopes, hcalm, hscope, rfl⟩
  | right hl _ =>
    exact ⟨scopes, hcalm.of_kept ((Expr.keeps_eval (hcall _) _ _).of_ok hl), hscope, rfl⟩
  | call hargs =>
    exact ⟨scopes, hcalm.of_kept ((keeps_evalArgs (hcall _) _ _).of_ok hargs), hscope, rfl⟩
  | nextItem hv =>
    exact ⟨scopes, hcalm.of_kept ((Expr.keeps_eval (hcall _) _ _).of_ok hv), hscope, rfl⟩
  | nextArg hv =>
    exact ⟨scopes, hcalm.of_kept ((Expr.keeps_eval (hcall _) _ _).of_ok hv), hscope, rfl⟩
  | default => exact ⟨scopes, hcalm, hscope, rfl⟩
  | nextSlot hv =>
    have hkept := (Slot.keeps_value? (keeps_evaluator (hcall _)) _ _).of_ok hv
    exact ⟨scopes, (hcalm.of_kept hkept).define _ _ _, hscope, (Bool.and_eq_true_iff.1 hquiet).2⟩
  | skipSlot hv =>
    have hkept := (Slot.keeps_value? (keeps_evaluator (hcall _)) _ _).of_ok hv
    exact ⟨scopes, hcalm.of_kept hkept, hscope, (Bool.and_eq_true_iff.1 hquiet).2⟩
  | afterAssign hv =>
    have hkept := (Expr.keeps_eval (hcall _) _ _).of_ok hv
    exact ⟨scopes, (hcalm.of_kept hkept).define _ _ _, hscope, hquiet⟩
  | @afterDefine name params body location rest scope _ =>
    obtain ⟨hdefined, hrest⟩ := Bool.and_eq_true_iff.1 hquiet
    refine ⟨scopes, hcalm.defineFunction scope ⟨hdefined, ?_⟩, hscope, hrest⟩
    rintro d outer hbody
    cases hbody
    exact hscope
  | @bind _ _ _ _ _ f _ htarget _ hplace =>
    have hf := hcalm.target hscope htarget
    refine ⟨_, hcalm.enter f.body.around hf.around, .inl rfl, ?_⟩
    have hparams := (Bool.and_eq_true_iff.1 hf.quiet).1
    rw [Task.quiet, Params.params_of_place hplace]
    exact hparams
  | @body _ _ _ _ _ f d closure _ n htarget hbody _ hbind _ =>
    have hf := hcalm.target hscope htarget
    have henter : s.Calm (m.enter f.body.around).store fun id => id = m.store.next ∨ scopes id :=
      hcalm.enter f.body.around hf.around
    have hedited := (f.params.edits_bind _ _ (keeps_evaluator (hcall _)) _).of_ok hbind
    have hbound := henter.of_edited hedited (Nat.lt_succ_self _)
    refine ⟨_, hbound, .inl rfl, ?_⟩
    have hquiet := hf.quiet
    rw [Function.quiet, hbody] at hquiet
    exact (Bool.and_eq_true_iff.1 hquiet).2

/-- All moments of the evaluation of a quiet task are moments of quiet tasks. -/
theorem Peaceful.of_comes {n : Nat} (h : s.Peaceful t m scopes) (hcomes : s.Comes t m n t' m') :
    ∃ scopes', s.Peaceful t' m' scopes' := by
  induction hcomes with
  | refl => exact ⟨scopes, h⟩
  | step _ hstart ih =>
    obtain ⟨_, hbetween⟩ := ih
    exact hbetween.of_starts hstart

/-! ## No calls in defaults -/

/-- A task without calls starts only such tasks. -/
theorem Starts.silent {k : Nat} (hstart : s.Starts k t m t' m') (h : t.silent = true) :
    t'.silent = true := by
  cases hstart with
  | list | operand => exact h
  | left => simp_all [Task.silent, Expr.hasCall]
  | right => simp_all [Task.silent, Expr.hasCall]
  | item => simp_all [Task.silent, itemsHaveCall]
  | nextItem => simp_all [Task.silent, itemsHaveCall]
  | default _ hdefault _ => simp_all [Task.silent, Param.quiet]
  | nextSlot => exact (Bool.and_eq_true_iff.1 h).2
  | skipSlot => exact (Bool.and_eq_true_iff.1 h).2
  | _ => cases h

theorem Within.not_call_of_silent (hw : s.Within t m t' m') (h : t.silent = true) :
    t'.isCall = false := by
  induction hw with
  | @refl t m =>
    cases t with
    | call => cases h
    | _ => rfl
  | head _ hstart _ ih => exact ih (hstart.silent h)

/-- A quiet call makes no call in a default. -/
theorem Peaceful.not_callsInDefault {x y : Task × Machine} (h : s.Peaceful x.1 x.2 scopes) :
    ¬s.CallsInDefault x y := by
  rintro ⟨_, hy, slots, inner, n, hstart, hwithin⟩
  obtain ⟨_, hfill⟩ := h.of_starts hstart
  have hsilent : (Task.fill slots inner).silent = true := hfill.quiet
  have hcall := hwithin.not_call_of_silent hsilent
  rw [hcall] at hy
  cases hy

/-- Evaluation with quiet functions comes to an end. No watch ever stops it that lets pass
    the moments at which as many bodies are being run as the machine counts, and no more
    than the limit allows unless there were more before. -/
theorem eval_finishes_of_quiet (s : Session) (e : Expr) (scope : ScopeId) (m : Machine)
    (hquiet : ∀ f, s.Involves m.store scope f → f.quiet = true) :
    (∃ fuel, Outcome.Final (s.eval fuel e scope m)) ∧
      ∀ w : Watch, w.Passes m.depth s.options.maxDepth →
        ∀ fuel, s.watchedEval w fuel e scope m = s.eval fuel e scope m := by
  have hpeaceful : s.Peaceful (.expr e scope) m (s.Visits m.store scope) :=
    ⟨calm_visits hquiet, .start, rfl⟩
  constructor
  · have hfinishes : s.Finishes (.expr e scope) m := by
      apply finishes_of_not_endless
      intro n c m' hcomes
      rintro ⟨chain, hzero, hchain⟩
      obtain ⟨_, hc⟩ := hpeaceful.of_comes hcomes
      have hfirst := hchain 0
      rw [hzero] at hfirst
      exact hc.not_callsInDefault hfirst
    exact hfinishes
  · intro w hw fuel
    exact watchedEval_eq hw fuel e scope

/-- `@function f($a: true) { @function g($b) { @return f($b); } @return g($a); }` -/
def tireless : Definition :=
  ⟨"f", ⟨[⟨"a", some (.literal (.bool true none))⟩], none⟩,
    [.define "g" ⟨[⟨"b", none⟩], none⟩
        [.result (.call "f" [.mk none (.variable "b" none)] none)] none,
      .result (.call "g" [.mk none (.variable "a" none)] none)], none⟩

private theorem involves_tireless {options : Options} {f : Function}
    (h : Involves ⟨.standard, options⟩ (defining tireless).store 0 f) :
    f.IsBuiltin ∨ f = .ofDefinition tireless 0 := by
  have hfound {name : String} {sc : Scope} {g : Function}
      (hget : (defining tireless).store.get? 0 = some sc) (hg : sc.functions.get? name = some g) :
      g = .ofDefinition tireless 0 := by
    cases hget
    rw [NameTable.get?_insert] at hg
    split at hg
    · exact (Option.some.inj hg).symm
    · cases hg
  have hzero {id : ScopeId} (hid : Visits ⟨.standard, options⟩ (defining tireless).store 0 id) :
      id = 0 := by
    induction hid with
    | start => rfl
    | outward _ hget hmem ih =>
      subst ih
      cases hget
      cases hmem
    | closure _ hget hg hbody ih =>
      subst ih
      rw [hfound hget hg] at hbody
      cases hbody
      rfl
    | candidate hg hbody =>
      obtain ⟨b, hnative⟩ := (Registry.isBuiltin_standard _ _ hg).code
      rw [hnative] at hbody
      cases hbody
  cases h with
  | found hid hget hf => exact .inr (hfound (hzero hid ▸ hget) hf)
  | candidate hf => exact .inl (Registry.isBuiltin_standard _ _ hf)

/-- `tireless` calls itself through a function that each of its runs defines, without an
    end but for the limit. A watch for a wrong count does not stop it, but one that waits
    for the third body does. -/
theorem tireless_finishes :
    let s : Session := ⟨.standard, ⟨5, 3⟩⟩
    let e : Expr := .call "f" [] none
    let stop : Interruption := .error (.ofCause (.reported .typeMismatch "three"))
    (∃ fuel, Outcome.Final (s.eval fuel e 0 (defining tireless))) ∧
    (∀ fuel, s.watchedEval (.onMiscount 0 3 stop) fuel e 0 (defining tireless) =
      s.eval fuel e 0 (defining tireless)) ∧
    Outcome.result (s.watchedEval (fun n _ => if n < 3 then none else some stop) 5 e 0
      (defining tireless)) = .error stop := by
  intro s e stop
  have hquiet : ∀ f, s.Involves (defining tireless).store 0 f → f.quiet = true := by
    intro f hf
    rcases involves_tireless hf with hbuiltin | rfl
    · exact hbuiltin.quiet
    · rfl
  obtain ⟨hfinal, hwatch⟩ := eval_finishes_of_quiet s e 0 (defining tireless) hquiet
  exact ⟨hfinal, hwatch _ (Watch.passes_onMiscount 0 3 stop), rfl⟩

end Session

end StyleScript
