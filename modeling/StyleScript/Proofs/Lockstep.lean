-- SUMMARY: Programs that resemble each other run in lock-step.
import StyleScript.Proofs.Indifference

/-!
# Lock-step

Two programs that resemble each other, on machines that do, come to outcomes that resemble
each other: to values that do, or to errors of one kind, and the machines that are left
resemble each other again. Names are looked at through their canonical spelling only,
locations go into values and errors and are never read, and numbers of scopes are only
compared with each other.

Each part is related to its counterpart by what it is made of, from the tables up to whole
calls. A builtin does not see the scope of its call, and a function of a program does not
either: its own scope stands in the one that it was defined in. So two calls that reach
functions which resemble each other need not be made from scopes that do.
-/

namespace StyleScript

variable {R : Resemblance}

/-! ## Tables -/

namespace NameTable

variable {α β : Type} {P : α → β → Prop} {t : NameTable α} {t' : NameTable β}

theorem resembles_empty : (empty : NameTable α).Resembles P (empty : NameTable β) :=
  fun _ => .none

theorem resembles_refl {P : α → α → Prop} (h : ∀ a, P a a) (t : NameTable α) : t.Resembles P t := by
  intro name
  cases t.get? name with
  | none => exact .none
  | some a => exact .some (h a)

theorem get?_congr (t : NameTable α) {x y : String} (h : canonical x = canonical y) :
    t.get? x = t.get? y := by
  unfold get?
  rw [h]

theorem Resembles.get? (h : t.Resembles P t') {x y : String} (hname : R.name x y) :
    Option.Rel P (t.get? x) (t'.get? y) := by
  rw [t'.get?_congr (R.name_canonical hname).symm]
  exact h x

theorem Resembles.insert (h : t.Resembles P t') {x y : String} (hname : R.name x y) {a : α} {b : β}
    (hab : P a b) : (t.insert x a).Resembles P (t'.insert y b) := by
  intro name
  rw [get?_insert, get?_insert, R.name_canonical hname]
  split
  · exact .some hab
  · exact h name

end NameTable

/-! ## Stores -/

theorem Function.Resembles.name {f g : Function} (h : f.Resembles R g) : R.name f.name g.name := by
  cases h <;> assumption

theorem rel_findSome? {α β γ δ : Type} {P : α → β → Prop} {Q : γ → δ → Prop} {f : α → Option γ}
    {g : β → Option δ} (hfg : ∀ a b, P a b → Option.Rel Q (f a) (g b)) {as : List α} {bs : List β}
    (h : List.Forall₂ P as bs) : Option.Rel Q (as.findSome? f) (bs.findSome? g) := by
  induction h with
  | nil => exact .none
  | cons hab _ ih =>
    rw [List.findSome?_cons, List.findSome?_cons]
    have hhead := hfg _ _ hab
    generalize f _ = c at hhead
    generalize g _ = d at hhead
    cases hhead with
    | none => exact ih
    | some hcd => exact .some hcd

namespace Store.Resembles

variable {store store' : Store} (h : store.Resembles R store') {a b : ScopeId}

include h

/-- A scope is in both stores or in neither. -/
theorem get?_cases (hscope : R.scope a b) :
    (store.get? a = none ∧ store'.get? b = none) ∨
      ∃ sc sc', store.get? a = some sc ∧ store'.get? b = some sc' ∧ sc.Resembles R sc' := by
  have hfound := h.scopes a b hscope
  generalize store.get? a = found at hfound ⊢
  generalize store'.get? b = found' at hfound ⊢
  cases hfound with
  | none => exact .inl ⟨rfl, rfl⟩
  | some hsc => exact .inr ⟨_, _, rfl, rfl, hsc⟩

theorem contains (hscope : R.scope a b) : store.contains a = store'.contains b := by
  unfold Store.contains
  rcases h.get?_cases hscope with ⟨hget, hget'⟩ | ⟨_, _, hget, hget', _⟩
  · rw [hget, hget']
  · rw [hget, hget']
    rfl

theorem chain (hscope : R.scope a b) : List.Forall₂ R.scope (store.chain a) (store'.chain b) := by
  unfold Store.chain
  rcases h.get?_cases hscope with ⟨hget, hget'⟩ | ⟨_, _, hget, hget', hsc⟩
  · rw [hget, hget']
    exact .nil
  · rw [hget, hget']
    exact .cons hscope hsc.ancestors

theorem locals (hscope : R.scope a b) :
    (store.locals a).Resembles (Value.Resembles R) (store'.locals b) := by
  unfold Store.locals
  rcases h.get?_cases hscope with ⟨hget, hget'⟩ | ⟨_, _, hget, hget', hsc⟩
  · rw [hget, hget']
    exact NameTable.resembles_empty
  · rw [hget, hget']
    exact hsc.values

variable {x y : String} (hname : R.name x y)

include hname

theorem local? (hscope : R.scope a b) :
    Option.Rel (Value.Resembles R) (store.local? a x) (store'.local? b y) :=
  (h.locals hscope).get? hname

theorem lookup? (hscope : R.scope a b) :
    Option.Rel (Value.Resembles R) (store.lookup? a x) (store'.lookup? b y) :=
  rel_findSome? (fun _ _ houter => h.local? hname houter) (h.chain hscope)

theorem lookupFunction? (hscope : R.scope a b) :
    Option.Rel (Function.Resembles R) (store.lookupFunction? a x) (store'.lookupFunction? b y) := by
  refine rel_findSome? (fun outer outer' houter => ?_) (h.chain hscope)
  rcases h.get?_cases houter with ⟨hget, hget'⟩ | ⟨_, _, hget, hget', hsc⟩
  · rw [hget, hget']
    exact .none
  · rw [hget, hget']
    exact hsc.functions.get? hname

omit hname

-- What is done to both stores, at scopes and names that stand for each other, keeps them
-- together.

theorem update (hscope : R.scope a b) {f g : Scope → Scope}
    (hfg : ∀ sc sc' : Scope, sc.Resembles R sc' → (f sc).Resembles R (g sc')) :
    (store.update a f).Resembles R (store'.update b g) where
  next := h.next
  scopes other other' hother := by
    rw [get?_update, get?_update]
    by_cases hid : other = a
    · rw [if_pos hid, if_pos ((R.scope_iff hother hscope).1 hid)]
      rcases h.get?_cases hother with ⟨hget, hget'⟩ | ⟨_, _, hget, hget', hsc⟩
      · rw [hget, hget']
        exact .none
      · rw [hget, hget']
        exact .some (hfg _ _ hsc)
    · rw [if_neg hid, if_neg (mt (R.scope_iff hother hscope).2 hid)]
      exact h.scopes other other' hother

theorem define (hscope : R.scope a b) (hname : R.name x y) {v w : Value} (hv : v.Resembles R w) :
    (store.define a x v).Resembles R (store'.define b y w) :=
  h.update hscope fun _ _ hsc => ⟨hsc.values.insert hname hv, hsc.functions, hsc.ancestors⟩

theorem defineFunction (hscope : R.scope a b) {f g : Function} (hf : f.Resembles R g) :
    (store.defineFunction a f).Resembles R (store'.defineFunction b g) :=
  h.update hscope fun _ _ hsc => ⟨hsc.values, hsc.functions.insert hf.name hf, hsc.ancestors⟩

theorem scope_next : R.scope store.next store'.next := R.scope_of_next h.next

theorem enter {parent parent' : Option ScopeId} (hparent : Option.Rel R.scope parent parent') :
    (store.enter parent).2.Resembles R (store'.enter parent').2 where
  next := R.next_succ h.next
  scopes other other' hother := by
    rw [get?_enter, get?_enter]
    by_cases hid : other = store.next
    · rw [if_pos hid, if_pos ((R.scope_iff hother h.scope_next).1 hid)]
      refine .some ⟨NameTable.resembles_empty, NameTable.resembles_empty, ?_⟩
      cases hparent with
      | none => exact .nil
      | some hscope => exact h.chain hscope
    · rw [if_neg hid, if_neg (mt (R.scope_iff hother h.scope_next).2 hid)]
      exact h.scopes other other' hother

theorem leave (hscope : R.scope a b) : (store.leave a).Resembles R (store'.leave b) where
  next := h.next
  scopes other other' hother := by
    rw [get?_leave, get?_leave]
    by_cases hid : other = a
    · rw [if_pos hid, if_pos ((R.scope_iff hother hscope).1 hid)]
      exact .none
    · rw [if_neg hid, if_neg (mt (R.scope_iff hother hscope).2 hid)]
      exact h.scopes other other' hother

end Store.Resembles

/-! ## Errors -/

namespace Error

variable {e e' : Error}

theorem Resembles.message (h : e.Resembles R e') (hverbatim : R.Verbatim) : e.message = e'.message := by
  obtain ⟨hcause, hcontexts⟩ := h.wording hverbatim
  simp only [Error.message, hcause, hcontexts]

/-- Errors with the same location and wording that resemble each other are the same. -/
theorem Resembles.eq (h : e.Resembles R e') (hverbatim : R.Verbatim) (hplace : R.Located) : e = e' := by
  obtain ⟨hcause, hcontexts⟩ := h.wording hverbatim
  have hlocation := hplace _ _ h.location
  cases e
  cases e'
  simp_all

theorem resembles_refl (e : Error) : e.Resembles R e := ⟨rfl, R.place_refl _, fun _ => ⟨rfl, rfl⟩⟩

theorem Resembles.locate (h : e.Resembles R e') {l l' : Option Location} (hplace : R.place l l') :
    (e.locate l).Resembles R (e'.locate l') :=
  ⟨h.kind, R.place_orElse h.location hplace, h.wording⟩

theorem Resembles.inContext (h : e.Resembles R e') {x y : String} (hname : R.name x y) :
    (e.inContext x).Resembles R (e'.inContext y) where
  kind := h.kind
  location := h.location
  wording hverbatim := by
    obtain ⟨hcause, hcontexts⟩ := h.wording hverbatim
    exact ⟨hcause, by simp only [Error.inContext, hverbatim x y hname, hcontexts]⟩

/-- Errors that name one thing, in spellings that stand for each other. -/
theorem resembles_naming (cause : String → Cause) {x y : String} (hname : R.name x y)
    (hkind : (cause x).kind = (cause y).kind) :
    (ofCause (cause x)).Resembles R (ofCause (cause y)) :=
  ⟨hkind, R.place_refl _, fun hverbatim => by rw [hverbatim x y hname]; exact ⟨rfl, rfl⟩⟩

end Error

/-! ## Computations -/

namespace Outcome

variable {α β : Type} {P : α → β → Prop}

/-- The machines that are left resemble each other, whatever the outcomes are. -/
theorem Resembles.machine {o : Outcome α} {o' : Outcome β} (h : Outcome.Resembles R P o o') :
    (machine o).Resembles R (machine o') := by
  cases h <;> assumption

/-- Outcomes that differ in neither spellings nor locations have the same result. -/
theorem Resembles.result_eq (hverbatim : R.Verbatim) (hplace : R.Located) {o o' : Outcome Value}
    (h : Outcome.Resembles R (Value.Resembles R) o o') : result o = result o' := by
  cases h with
  | ok hv _ => exact congrArg Except.ok (Value.Resembles.eq hplace _ _ hv)
  | error he _ => exact congrArg (Except.error ∘ Interruption.error) (he.eq hverbatim hplace)
  | outOfFuel _ => rfl

theorem Resembles.onMachine {o : Outcome α} {o' : Outcome β} (h : Outcome.Resembles R P o o')
    {f g : Machine → Machine} (hfg : ∀ m n : Machine, m.Resembles R n → (f m).Resembles R (g n)) :
    Outcome.Resembles R P (o.onMachine f) (o'.onMachine g) := by
  cases h with
  | ok hab hm => exact .ok hab (hfg _ _ hm)
  | error he hm => exact .error he (hfg _ _ hm)
  | outOfFuel hm => exact .outOfFuel (hfg _ _ hm)

end Outcome

namespace Eval

variable {α β γ δ : Type} {P : α → β → Prop} {Q : γ → δ → Prop}

theorem resembles_pure {a : α} {b : β} (h : P a b) : Eval.Resembles R P (pure a) (pure b) :=
  fun _ _ hm => .ok h hm

theorem resembles_fail {e e' : Error} (h : e.Resembles R e') :
    Eval.Resembles R P (fail e) (fail e') :=
  fun _ _ hm => .error h hm

theorem resembles_bind {x : Eval α} {y : Eval β} {f : α → Eval γ} {g : β → Eval δ}
    (hx : Eval.Resembles R P x y) (hf : ∀ a b, P a b → Eval.Resembles R Q (f a) (g b)) :
    Eval.Resembles R Q (x >>= f) (y >>= g) := by
  intro m n hm
  have hxy := hx m n hm
  generalize hxm : x m = o at hxy
  generalize hyn : y n = o' at hxy
  cases hxy with
  | ok hab hm' =>
    rw [bind_ok hxm, bind_ok hyn]
    exact hf _ _ hab _ _ hm'
  | error he hm' =>
    rw [bind_error hxm, bind_error hyn]
    exact .error he hm'
  | outOfFuel hm' =>
    rw [bind_error hxm, bind_error hyn]
    exact .outOfFuel hm'

theorem resembles_locate {x : Eval α} {y : Eval β} {l l' : Option Location} (hplace : R.place l l')
    (hx : Eval.Resembles R P x y) : Eval.Resembles R P (locate l x) (locate l' y) := by
  intro m n hm
  have hxy := hx m n hm
  unfold locate
  generalize x m = o at hxy
  generalize y n = o' at hxy
  cases hxy with
  | ok hab hm' => exact .ok hab hm'
  | error he hm' => exact .error (he.locate hplace) hm'
  | outOfFuel hm' => exact .outOfFuel hm'

/-- What is made of two builds that end alike, on machines with their builders. -/
theorem resembles_build {x y : Build Value} (hx : Build.Resembles R x y) :
    Eval.Resembles R (Value.Resembles R) (build x) (build y) := by
  intro m n hm
  have hxy := hx _ _ hm.builder
  unfold build
  generalize x m.builder = r at hxy
  generalize y n.builder = r' at hxy
  cases hxy with
  | ok hvalue hbuilder => exact .ok hvalue ⟨hm.store, hbuilder, hm.depth⟩
  | error hbuilder => exact .error (Error.resembles_refl _) ⟨hm.store, hbuilder, hm.depth⟩

theorem resembles_nested {x : Eval α} {y : Eval β} (hx : Eval.Resembles R P x y) :
    Eval.Resembles R P (nested x) (nested y) := by
  intro m n hm
  rw [nested_apply, nested_apply]
  have hdeeper : (m.withDepth (m.depth + 1)).Resembles R (n.withDepth (n.depth + 1)) :=
    ⟨hm.store, hm.builder, congrArg (· + 1) hm.depth⟩
  refine (hx _ _ hdeeper).onMachine fun m' n' hm' => ?_
  exact ⟨hm'.store, hm'.builder, congrArg (· - 1) hm'.depth⟩

theorem resembles_inNewScope {parent parent' : Option ScopeId} {x : ScopeId → Eval α}
    {y : ScopeId → Eval β} (hparent : Option.Rel R.scope parent parent')
    (hx : ∀ a b, R.scope a b → Eval.Resembles R P (x a) (y b)) :
    Eval.Resembles R P (inNewScope parent x) (inNewScope parent' y) := by
  intro m n hm
  rw [inNewScope_apply, inNewScope_apply]
  have hscope := hm.store.scope_next
  have henter : (m.enter parent).Resembles R (n.enter parent') :=
    ⟨hm.store.enter hparent, hm.builder, hm.depth⟩
  refine (hx _ _ hscope _ _ henter).onMachine fun m' n' hm' => ?_
  exact ⟨hm'.store.leave hscope, hm'.builder, hm'.depth⟩

theorem resembles_define {a b : ScopeId} (hscope : R.scope a b) {x y : String} (hname : R.name x y)
    {v w : Value} (hv : v.Resembles R w) :
    Eval.Resembles R Eq (define a x v) (define b y w) :=
  fun _ _ hm => .ok rfl ⟨hm.store.define hscope hname hv, hm.builder, hm.depth⟩

theorem resembles_defineFunction {a b : ScopeId} (hscope : R.scope a b) {f g : Function}
    (hf : f.Resembles R g) : Eval.Resembles R Eq (defineFunction a f) (defineFunction b g) :=
  fun _ _ hm => .ok rfl ⟨hm.store.defineFunction hscope hf, hm.builder, hm.depth⟩

end Eval

/-! ## Expressions -/

section Program

variable {call call' : Caller} {a b : ScopeId}

theorem Args.Resembles.cons {args args' : Args} (h : args.Resembles R args') {x y : Option String}
    (hname : Option.Rel R.name x y) {v w : Value} (hv : v.Resembles R w) :
    (args.cons x v).Resembles R (args'.cons y w) := by
  cases hname with
  | none => exact ⟨.cons hv h.positional, h.named⟩
  | some hname => exact ⟨h.positional, .cons ⟨hname, hv⟩ h.named⟩

mutual

theorem Expr.resembles_eval (hcall : Caller.Resembles R call call') (hscope : R.scope a b) :
    (e e' : Expr) → e.Resembles R e' →
      Eval.Resembles R (Value.Resembles R) (e.eval call a) (e'.eval call' b)
  | .literal _, _, .literal hv => Eval.resembles_pure hv
  | .variable _ _, _, .variable hname hplace => by
    intro m n hm
    simp only [Expr.eval, Eval.ofStore_bind_apply]
    have hfound := hm.store.lookup? hname hscope
    generalize m.store.lookup? a _ = found at hfound
    generalize n.store.lookup? b _ = found' at hfound
    cases hfound with
    | some hv => exact .ok hv hm
    | none => exact .error ((Error.resembles_naming .undefinedVariable hname rfl).locate hplace) hm
  | .list es separator, _, .list hes =>
    Eval.resembles_bind (resemble_evalItems hcall hscope es _ hes) fun _ _ hvs =>
      Eval.resembles_build (Build.resembles_list hvs separator)
  | .unary op e _, _, .unary he hplace =>
    Eval.resembles_bind (Expr.resembles_eval hcall hscope e _ he) fun _ _ hv =>
      Eval.resembles_locate hplace (Eval.resembles_build (op.resembles_apply hv))
  | .binary op e d _, _, .binary he hd hplace => by
    unfold Expr.eval
    refine Eval.resembles_bind (Expr.resembles_eval hcall hscope e _ he) fun v w hv => ?_
    rw [hv.isTruthy]
    split
    · exact Eval.resembles_pure hv
    · refine Eval.resembles_bind (Expr.resembles_eval hcall hscope d _ hd) fun v' w' hv' => ?_
      split
      · exact Eval.resembles_pure hv'
      · exact Eval.resembles_locate hplace (Eval.resembles_build (op.resembles_apply hv hv'))
  | .call _ args _, _, .call hname hargs hplace =>
    Eval.resembles_bind (resemble_evalArgs hcall hscope args _ hargs) fun _ _ hvs =>
      hcall _ _ _ _ _ _ _ _ hname hvs hscope hplace

theorem resemble_evalItems (hcall : Caller.Resembles R call call') (hscope : R.scope a b) :
    (es es' : List Expr) → List.Forall₂ (Expr.Resembles R) es es' →
      Eval.Resembles R (Values.Resemble R) (evalItems call a es) (evalItems call' b es')
  | [], _, .nil => Eval.resembles_pure .nil
  | e :: es, _, .cons he hes =>
    Eval.resembles_bind (Expr.resembles_eval hcall hscope e _ he) fun _ _ hv =>
      Eval.resembles_bind (resemble_evalItems hcall hscope es _ hes) fun _ _ hvs =>
        Eval.resembles_pure (.cons hv hvs)

theorem resemble_evalArgs (hcall : Caller.Resembles R call call') (hscope : R.scope a b) :
    (args args' : List Arg) → List.Forall₂ (Arg.Resembles R) args args' →
      Eval.Resembles R (Args.Resembles R) (evalArgs call a args) (evalArgs call' b args')
  | [], _, .nil => Eval.resembles_pure ⟨.nil, .nil⟩
  | .mk _ e :: args, _, .cons (.mk hname he) hargs =>
    Eval.resembles_bind (Expr.resembles_eval hcall hscope e _ he) fun _ _ hv =>
      Eval.resembles_bind (resemble_evalArgs hcall hscope args _ hargs) fun _ _ hrest =>
        Eval.resembles_pure (hrest.cons hname hv)

end

/-! ## Statements -/

theorem Stmt.resembles_run (hcall : Caller.Resembles R call call') (hscope : R.scope a b) :
    (body body' : List Stmt) → List.Forall₂ (Stmt.Resembles R) body body' →
      Eval.Resembles R (Option.Rel (Value.Resembles R)) (Stmt.run call a body)
        (Stmt.run call' b body')
  | [], _, .nil => Eval.resembles_pure .none
  | .assign _ e :: rest, _, .cons (.assign hname he) hrest =>
    Eval.resembles_bind (Expr.resembles_eval hcall hscope e _ he) fun _ _ hv =>
      Eval.resembles_bind (Eval.resembles_define hscope hname hv) fun _ _ _ =>
        Stmt.resembles_run hcall hscope rest _ hrest
  | .result e :: _, _, .cons (.result he) _ =>
    Eval.resembles_bind (Expr.resembles_eval hcall hscope e _ he) fun _ _ hv =>
      Eval.resembles_pure (.some hv)
  | .define _ _ _ _ :: rest, _, .cons (.define hname hparams hbody hplace) hrest =>
    Eval.resembles_bind (Eval.resembles_defineFunction hscope
      (.written hname hparams ⟨hname, hparams, hbody, hplace⟩ hscope)) fun _ _ _ =>
        Stmt.resembles_run hcall hscope rest _ hrest

theorem Definition.resembles_run {d d' : Definition} (h : d.Resembles R d') (limit : Nat)
    (hcall : Caller.Resembles R call call') (hscope : R.scope a b) :
    Eval.Resembles R (Value.Resembles R) (d.run limit call a) (d'.run limit call' b) := by
  intro m n hm
  by_cases hlimit : m.depth < limit
  · rw [d.run_below_limit hlimit, d'.run_below_limit (hm.depth ▸ hlimit)]
    refine Eval.resembles_bind (Eval.resembles_nested
      (Stmt.resembles_run hcall hscope _ _ h.body)) (fun v w hv => ?_) m n hm
    cases hv with
    | some hv => exact Eval.resembles_pure hv
    | none =>
      have herror := Error.resembles_naming .missingReturn h.name rfl
      exact Eval.resembles_fail (herror.locate h.location)
  · have hover := Nat.le_of_not_lt hlimit
    rw [d.run_at_limit hover, d'.run_at_limit (hm.depth ▸ hover)]
    have herror := Error.resembles_naming (.stackOverflow · limit) h.name rfl
    exact .error (herror.locate h.location) hm

/-! ## Parameters -/

theorem Param.Resembles.isNone {param param' : Param} (h : param.Resembles R param') :
    param.default.isNone = param'.default.isNone := by
  have hdefault := h.default
  generalize param.default = default at hdefault
  generalize param'.default = default' at hdefault
  cases hdefault <;> rfl

namespace Params.Resembles

variable {p q : Params} (h : p.Resembles R q)

include h

theorem required : p.required = q.required := by
  simp only [Params.required, List.countP_eq_length_filter]
  exact (List.rel_filter (fun _ _ hparam => by simp only [hparam.isNone]) h.fixed).length_eq

theorem rest_eq_none_iff : p.rest = none ↔ q.rest = none := by
  have hrest := h.rest
  generalize p.rest = rest at hrest
  generalize q.rest = rest' at hrest
  cases hrest <;> simp

theorem most : p.most = q.most := by
  have hrest := h.rest
  unfold Params.most
  rw [h.fixed.length_eq]
  generalize p.rest = rest at hrest
  generalize q.rest = rest' at hrest
  cases hrest <;> rfl

theorem countText : p.countText = q.countText := by
  unfold Params.countText
  rw [h.required, h.most]

end Params.Resembles

theorem Args.Resembles.count {args args' : Args} (h : args.Resembles R args') :
    args.count = args'.count := by
  unfold Args.count
  rw [h.positional.length_eq, h.named.length_eq]

structure Slot.Resembles (R : Resemblance) (slot slot' : Slot) : Prop where
  param : slot.param.Resembles R slot'.param
  given : Option.Rel (Value.Resembles R) slot.given slot'.given

namespace Slot

theorem resemble_positional {ps qs : List Param} (hps : List.Forall₂ (Param.Resembles R) ps qs) :
    ∀ {vs ws : List Value}, Values.Resemble R vs ws →
      List.Forall₂ (Slot.Resembles R) (positional ps vs) (positional qs ws) := by
  induction hps with
  | nil => exact fun _ => .nil
  | cons hp _ ih =>
    intro vs ws hvs
    cases hvs with
    | nil => exact .cons ⟨hp, .none⟩ (ih .nil)
    | cons hv hvs => exact .cons ⟨hp, .some hv⟩ (ih hvs)

theorem resemble_place (key : String) {v w : Value} (hv : v.Resembles R w) {slots slots' : List Slot}
    (h : List.Forall₂ (Slot.Resembles R) slots slots') :
    EndAlike (List.Forall₂ (Slot.Resembles R)) (place key v slots) (place key w slots') := by
  induction h with
  | nil => exact .error
  | @cons slot slot' slots slots' hslot hslots ih =>
    unfold place
    rw [R.name_canonical hslot.param.name]
    split
    · obtain ⟨hparam, hgiven⟩ := hslot
      generalize slot.given = given at hgiven
      generalize slot'.given = given' at hgiven
      cases hgiven with
      | some _ => exact .error
      | none => exact .ok (.cons ⟨hparam, .some hv⟩ hslots)
    · generalize place key v slots = placed at ih
      generalize place key w slots' = placed' at ih
      cases ih with
      | ok hplaced => exact .ok (.cons hslot hplaced)
      | error => exact .error

theorem resemble_placeNamed {named named' : List (String × Value)}
    (hnamed : List.Forall₂ (fun a b => R.name a.1 b.1 ∧ a.2.Resembles R b.2) named named') :
    ∀ {slots slots' : List Slot}, List.Forall₂ (Slot.Resembles R) slots slots' →
      EndAlike (List.Forall₂ (Slot.Resembles R)) (placeNamed named slots)
        (placeNamed named' slots') := by
  induction hnamed with
  | nil => exact fun h => .ok h
  | cons harg _ ih =>
    intro slots slots' h
    unfold placeNamed
    rw [R.name_canonical harg.1]
    exact (resemble_place _ harg.2 h).bind fun _ _ hplaced => ih hplaced

end Slot

theorem Params.resemble_place {p q : Params} (hp : p.Resembles R q) {args args' : Args}
    (hargs : args.Resembles R args') :
    EndAlike (List.Forall₂ (Slot.Resembles R)) (p.place args) (q.place args') := by
  unfold Params.place
  simp only [hp.fixed.length_eq, hargs.positional.length_eq, hp.rest_eq_none_iff]
  split
  · exact .error
  · exact Slot.resemble_placeNamed hargs.named (Slot.resemble_positional hp.fixed hargs.positional)

/-! ## Binding -/

theorem Slot.resembles_value? (hcall : Caller.Resembles R call call') (hscope : R.scope a b)
    {slot slot' : Slot} (h : slot.Resembles R slot') :
    Eval.Resembles R (Option.Rel (Value.Resembles R)) (slot.value? (Session.evaluator call) a)
      (slot'.value? (Session.evaluator call') b) := by
  obtain ⟨⟨x, default⟩, given⟩ := slot
  obtain ⟨⟨y, default'⟩, given'⟩ := slot'
  obtain ⟨⟨_, hdefault⟩, hgiven⟩ := h
  cases hgiven with
  | some hv => exact Eval.resembles_pure (.some hv)
  | none =>
    cases hdefault with
    | none => exact Eval.resembles_pure .none
    | some he =>
      have heval := Eval.resembles_bind (Expr.resembles_eval hcall hscope _ _ he) fun _ _ hv =>
        Eval.resembles_pure (R := R) (Option.Rel.some hv)
      cases he with
      | literal hv => exact Eval.resembles_pure (.some hv)
      | _ => exact heval

theorem Slot.resembles_fill (hcall : Caller.Resembles R call call') (hscope : R.scope a b)
    {slots slots' : List Slot} (h : List.Forall₂ (Slot.Resembles R) slots slots') :
    Eval.Resembles R (List.Forall₂ R.name) (Slot.fill (Session.evaluator call) a slots)
      (Slot.fill (Session.evaluator call') b slots') := by
  induction h with
  | nil => exact Eval.resembles_pure .nil
  | cons hslot _ ih =>
    rw [Slot.fill_cons, Slot.fill_cons]
    refine Eval.resembles_bind (Slot.resembles_value? hcall hscope hslot) fun v w hv => ?_
    cases hv with
    | some hv =>
      exact Eval.resembles_bind (Eval.resembles_define hscope hslot.param.name hv) fun _ _ _ => ih
    | none =>
      exact Eval.resembles_bind ih fun _ _ hmissing =>
        Eval.resembles_pure (.cons hslot.param.name hmissing)

theorem Resemblance.Verbatim.names_eq (hverbatim : R.Verbatim) {names names' : List String}
    (h : List.Forall₂ R.name names names') : names = names' := by
  rw [← List.forall₂_eq_eq_eq]
  exact h.imp hverbatim

namespace Params

variable {p q : Params} (hp : p.Resembles R q) {x y : String} (hname : R.name x y)
  {args args' : Args} (hargs : args.Resembles R args')

include hp

theorem resembles_bindRest (hargs : args.Resembles R args') (hscope : R.scope a b) :
    Eval.Resembles R Eq (p.bindRest args a) (q.bindRest args' b) := by
  have hrest := hp.rest
  have hvalues := List.forall₂_drop p.fixed.length hargs.positional
  unfold bindRest
  rw [← hp.fixed.length_eq]
  generalize p.rest = rest at hrest
  generalize q.rest = rest' at hrest
  cases hrest with
  | none => exact Eval.resembles_pure rfl
  | some hname =>
    exact Eval.resembles_bind (Eval.resembles_build (Build.resembles_list hvalues .comma))
      fun _ _ hv => Eval.resembles_define hscope hname hv

include hname hargs

theorem resembles_misfit {fault fault' : ArityFault} (hfault : R.Verbatim → fault = fault') :
    (p.misfit x args fault).Resembles R (q.misfit y args' fault') where
  kind := rfl
  location := R.place_refl _
  wording hverbatim := by
    unfold misfit
    rw [hverbatim x y hname, hp.countText, hargs.count, hfault hverbatim]
    exact ⟨rfl, rfl⟩

theorem resembles_complete (hscope : R.scope a b) {missing missing' : List String}
    (hmissing : List.Forall₂ R.name missing missing') :
    Eval.Resembles R Eq (p.complete x args a missing) (q.complete y args' b missing') := by
  cases hmissing with
  | nil => exact resembles_bindRest hp hargs hscope
  | cons hhead htail =>
    refine Eval.resembles_fail (resembles_misfit hp hname hargs fun hverbatim => ?_)
    rw [hverbatim.names_eq (.cons hhead htail)]

theorem resembles_bind (hcall : Caller.Resembles R call call') (hscope : R.scope a b) :
    Eval.Resembles R Eq (p.bind x args (Session.evaluator call) a)
      (q.bind y args' (Session.evaluator call') b) := by
  intro m n hm
  have hplace := resemble_place hp hargs
  cases hplaced : p.place args with
  | error fault =>
    rw [hplaced] at hplace
    generalize hplaced' : q.place args' = placed' at hplace
    cases hplace with
    | error =>
      rw [bind_of_place_error hplaced, bind_of_place_error hplaced']
      exact .error (resembles_misfit hp hname hargs fun _ => rfl) hm
  | ok slots =>
    rw [hplaced] at hplace
    generalize hplaced' : q.place args' = placed' at hplace
    cases hplace with
    | ok hslots =>
      rw [bind_of_place_ok hplaced, bind_of_place_ok hplaced']
      exact Eval.resembles_bind (Slot.resembles_fill hcall hscope hslots)
        (fun _ _ hmissing => resembles_complete hp hname hargs hscope hmissing) m n hm

end Params

/-! ## Calls -/

namespace Session

/-- A builtin is shown the scope of its call, and does not look at it. -/
theorem resembles_runNative (s : Session) {run : NativeCode} (hrun : run.Indifferent) {x y : String}
    (hname : R.name x y) (hscope : R.scope a b) (a' b' : ScopeId) {l l' : Option Location}
    (hplace : R.place l l') :
    Eval.Resembles R (Value.Resembles R) (s.runNative x run a a' l) (s.runNative y run b b' l') := by
  intro m n hm
  simp only [runNative, Eval.ofStore_bind_apply]
  have hends := hrun R ⟨x, m.store.locals a, m.store.lookup? a', l, s.options⟩
    ⟨y, n.store.locals b, n.store.lookup? b', l', s.options⟩ ⟨hm.store.locals hscope, rfl⟩
    { m.builder with location := l } { n.builder with location := l' } ⟨hplace, hm.builder.built⟩
  simp only [Eval.build, Build.stamped, Build.mapError, id_eq]
  generalize run _ { m.builder with location := l } = r at hends
  generalize run _ { n.builder with location := l' } = r' at hends
  have hmachine {c c' : Builder} (hc : c.Resembles R c') :
      Machine.Resembles R { m with builder := { c with location := m.builder.location } }
        { n with builder := { c' with location := n.builder.location } } :=
    ⟨hm.store, ⟨hm.builder.location, hc.built⟩, hm.depth⟩
  cases hends with
  | ok hv hc => exact .ok hv (hmachine hc)
  | error hc =>
    exact .error (((Error.resembles_refl _).inContext hname).locate hplace) (hmachine hc)

/-- Functions that resemble each other are invoked alike, from whichever scopes. -/
theorem resembles_invoke (s : Session) (hcall : Caller.Resembles R call call') {f g : Function}
    (hf : f.Resembles R g) {args args' : Args} (hargs : args.Resembles R args') (a' b' : ScopeId)
    {l l' : Option Location} (hplace : R.place l l') :
    Eval.Resembles R (Value.Resembles R) (s.invoke call f args a' l)
      (s.invoke call' g args' b' l') := by
  intro m n hm
  cases hf with
  | native hname hparams hrun =>
    rw [invoke_alive rfl, invoke_alive rfl]
    refine Eval.resembles_inNewScope .none (fun a b hscope => ?_) m n hm
    have hbind := Params.resembles_bind hparams hname hargs hcall hscope
    exact Eval.resembles_bind (Eval.resembles_locate hplace hbind) fun _ _ _ =>
      s.resembles_runNative hrun hname hscope a' b' hplace
  | @written x y p q d d' c c' overloaded hname hparams hd hclosure =>
    have hcontains := hm.store.contains hclosure
    let f : Function := ⟨x, p, .written d c, overloaded⟩
    let g : Function := ⟨y, q, .written d' c', overloaded⟩
    have hsame : f.body.alive m.store = g.body.alive n.store := hcontains
    cases halive : f.body.alive m.store with
    | true =>
      rw [invoke_alive halive, invoke_alive (hsame ▸ halive)]
      refine Eval.resembles_inNewScope (.some hclosure) (fun a b hscope => ?_) m n hm
      have hbind := Params.resembles_bind hparams hname hargs hcall hscope
      have hbody := Definition.resembles_run hd s.options.maxDepth hcall hscope
      exact Eval.resembles_bind (Eval.resembles_locate hplace hbind) fun _ _ _ =>
        Eval.resembles_locate hplace hbody
    | false =>
      rw [invoke_dead halive, invoke_dead (hsame ▸ halive)]
      exact .error ((Error.resembles_naming .undefinedFunction hname rfl).locate hplace) hm

end Session

end Program

/-! ## Sessions -/

/-- A name is resolved alike in all its spellings. -/
theorem Registry.resemble_resolve (r : Registry) {x y : String} (hname : R.name x y) (count : Nat) :
    (∃ f, r.resolve x count = .ok f ∧ r.resolve y count = .ok f) ∨
      ∃ e e', r.resolve x count = .error e ∧ r.resolve y count = .error e' ∧ e.Resembles R e' := by
  unfold resolve
  rw [r.candidatesOf.get?_congr (R.name_canonical hname)]
  cases r.candidatesOf.get? y with
  | none => exact .inr ⟨_, _, rfl, rfl, Error.resembles_naming .undefinedFunction hname rfl⟩
  | some several =>
    rcases several with _ | ⟨only, _ | ⟨second, others⟩⟩
    · exact .inr ⟨_, _, rfl, rfl, Error.resembles_naming (.noMatchingOverload · count) hname rfl⟩
    · exact .inl ⟨only, rfl, rfl⟩
    · dsimp only
      cases (only :: second :: others).find? (·.params.accepts count) with
      | some f => exact .inl ⟨f, rfl, rfl⟩
      | none =>
        exact .inr ⟨_, _, rfl, rfl, Error.resembles_naming (.noMatchingOverload · count) hname rfl⟩

/-- The candidates of the standard registry see nothing that programs may differ in. -/
theorem Registry.resembles_standard : standard.Holds fun f => f.Resembles R f := by
  intro name f hf
  obtain ⟨b, hbody⟩ := (isBuiltin_standard name f hf).code
  have hrun := indifferent_standard name f hf _ hbody
  obtain ⟨x, params, body, overloaded⟩ := f
  cases hbody
  exact .native (R.name_refl x) params.resembles_refl hrun

namespace Session

variable {s : Session}

/-- Calls of functions that are found alike reach functions that resemble each other, or
    fail alike. -/
theorem resemble_target (hs : s.registry.Holds fun f => f.Resembles R f) {store store' : Store}
    {x y : String} (hname : R.name x y) (count : Nat) {a b : ScopeId}
    (hfound : Option.Rel (Function.Resembles R) (store.lookupFunction? a x)
      (store'.lookupFunction? b y)) :
    (∃ f g, s.target store x count a = .ok f ∧ s.target store' y count b = .ok g ∧
      f.Resembles R g) ∨
    ∃ e e', s.target store x count a = .error e ∧ s.target store' y count b = .error e' ∧
      e.Resembles R e' := by
  unfold target
  generalize store.lookupFunction? a x = found at hfound
  generalize store'.lookupFunction? b y = found' at hfound
  cases hfound with
  | some hf => exact .inl ⟨_, _, rfl, rfl, hf⟩
  | none =>
    rcases s.registry.resemble_resolve hname count with ⟨f, hx, hy⟩ | hfails
    · exact .inl ⟨f, f, hx, hy, hs x f (Registry.mem_candidates_of_resolve hx)⟩
    · exact .inr hfails

/-- Calls of functions that are found alike come to outcomes that resemble each other, from
    whichever scopes, when the calls within them do. -/
theorem resembles_call_of_found (hs : s.registry.Holds fun f => f.Resembles R f) {fuel : Nat}
    (hcall : Caller.Resembles R (s.call fuel) (s.call fuel)) {x y : String} (hname : R.name x y)
    {args args' : Args} (hargs : args.Resembles R args') {a b : ScopeId} {l l' : Option Location}
    (hplace : R.place l l') {m n : Machine} (hm : m.Resembles R n)
    (hfound : Option.Rel (Function.Resembles R) (m.store.lookupFunction? a x)
      (n.store.lookupFunction? b y)) :
    Outcome.Resembles R (Value.Resembles R) (s.call (fuel + 1) x args a l m)
      (s.call (fuel + 1) y args' b l' n) := by
  have htarget := resemble_target hs hname args.count hfound
  rcases htarget with ⟨f, g, hf, hg, hfg⟩ | ⟨e, e', he, he', hee⟩
  · rw [hargs.count] at hg
    rw [call_target hf, call_target hg]
    exact s.resembles_invoke hcall hfg hargs a b hplace m n hm
  · rw [hargs.count] at he'
    rw [call_no_target he, call_no_target he']
    exact .error (hee.locate hplace) hm

/-- Calls come to outcomes that resemble each other, however deep they are followed. -/
theorem resembles_call (hs : s.registry.Holds fun f => f.Resembles R f) (fuel : Nat) :
    Caller.Resembles R (s.call fuel) (s.call fuel) := by
  induction fuel with
  | zero => exact fun _ _ _ _ _ _ _ _ _ _ _ _ _ _ hm => .outOfFuel hm
  | succ fuel ih =>
    intro x y args args' a b l l' hname hargs hscope hplace m n hm
    exact resembles_call_of_found hs ih hname hargs hplace hm
      (hm.store.lookupFunction? hname hscope)

end Session

end StyleScript
