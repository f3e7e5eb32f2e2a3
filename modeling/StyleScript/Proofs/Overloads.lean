-- SUMMARY: The candidate that is chosen for positional arguments binds them, unless it skips a required parameter.
import StyleScript.Proofs.Arity

/-!
# Overloads

A candidate is chosen by the number of arguments, and positional arguments go to the
parameters in order. Counting and order agree as long as the parameters without
defaults stand first. A parameter without a default that stands behind one with a
default can be left without an argument although there are enough of them: the one
with the default takes it. Only then can the chosen candidate fail to bind arguments
that it accepts, and another one would have bound.
-/

namespace StyleScript

namespace Params

/-- The arguments are bound for every function, however defaults are evaluated and in
    whatever scope. -/
def Binds (p : Params) (args : Args) : Prop :=
  ∀ function evaluate scope m, ∃ m', p.bind function args evaluate scope m = .ok () m'

/-- Of `count` positional arguments one goes to a parameter with a default, and a later
    parameter without a default gets none. -/
def SkipsRequired (p : Params) (count : Nat) : Prop :=
  ∃ (i j : Nat) (early late : Param), i < count ∧ count ≤ j ∧
    p.fixed[i]? = some early ∧ early.default ≠ none ∧
    p.fixed[j]? = some late ∧ late.default = none

variable {p : Params} {args : Args} {slots : List Slot} {vs : List Value}

/-! ## Literal defaults -/

theorem exists_complete (p : Params) (function : String) (args : Args) (scope : ScopeId)
    (n : Machine) : ∃ m', p.complete function args scope [] n = .ok () m' := by
  unfold complete bindRest
  cases p.rest with
  | none => exact ⟨n, rfl⟩
  | some rest => exact ⟨_, rfl⟩

/-- With literal defaults, arguments are bound when they can be placed and no parameter
    is lacking. -/
theorem LiteralDefaults.binds (hp : p.LiteralDefaults) (hplace : p.place args = .ok slots)
    (hlacking : Slot.lacking slots = []) : p.Binds args := by
  intro function evaluate scope m
  have hliteral : ∀ slot ∈ slots, ∀ e, slot.param.default = some e → ∃ v, e = .literal v := by
    intro slot hslot
    refine hp slot.param ?_
    rw [← params_of_place hplace]
    exact List.mem_map_of_mem hslot
  have hdefaults (i : Interruption) (n : Machine) :
      ¬Slot.DefaultFails evaluate scope slots m i n := Slot.not_defaultFails_of_literal hliteral
  obtain ⟨n, hbind⟩ := bind_of_defaults function hplace hdefaults
  rw [hbind, hlacking]
  exact exists_complete p function args scope n

theorem CanBind.lacking (h : p.CanBind args) :
    ∃ slots, p.place args = .ok slots ∧ Slot.lacking slots = [] := by
  obtain ⟨function, evaluate, scope, m, m', hbind⟩ := h
  obtain ⟨slots, n, hplace, hfill, _⟩ := bind_eq_ok hbind
  exact ⟨slots, hplace, (Slot.fill_ok hfill).symm⟩

theorem Binds.canBind (h : p.Binds args) : p.CanBind args := by
  obtain ⟨m', hbind⟩ := h "" (fun _ _ => pure (.null none)) 0 .fresh
  exact ⟨_, _, _, _, _, hbind⟩

/-! ## Positional arguments -/

/-- As many positional arguments as are accepted can be placed. -/
theorem place_positional (h : p.accepts vs.length = true) :
    p.place ⟨vs, []⟩ = .ok (Slot.positional p.fixed vs) := by
  unfold place
  simp only [Slot.placeNamed]
  rw [if_neg]
  rintro ⟨hlt, hrest⟩
  simp only [accepts, most, hrest, Option.all_some, Bool.and_eq_true, decide_eq_true_eq] at h
  omega

/-- If none of the first `count` parameters has a default, and a later one has none
    either, then more than `count` are required. -/
theorem lt_required {count j : Nat} {late : Param}
    (hearly : ∀ early ∈ p.fixed.take count, early.default = none) (hlate : p.fixed[j]? = some late)
    (hj : count ≤ j) (hdefault : late.default = none) : count < p.required := by
  have hsplit : p.required = (p.fixed.take count).countP (·.default.isNone) +
      (p.fixed.drop count).countP (·.default.isNone) := by
    rw [required, ← List.countP_append, List.take_append_drop]
  have hfirst : (p.fixed.take count).countP (·.default.isNone) = (p.fixed.take count).length :=
    List.countP_eq_length.2 fun early hmem => by simp [hearly early hmem]
  have hlater : 0 < (p.fixed.drop count).countP (·.default.isNone) := by
    refine List.countP_pos_iff.2 ⟨late, ?_, by simp [hdefault]⟩
    refine List.mem_of_getElem? (i := j - count) ?_
    rw [List.getElem?_drop, Nat.add_sub_cancel' hj, hlate]
  have hlength : j < p.fixed.length := (List.getElem?_eq_some_iff.1 hlate).1
  rw [List.length_take] at hfirst
  omega

/-- Of an accepted number of positional arguments a parameter is lacking exactly when a
    required one is skipped. -/
theorem lacking_positional (h : p.accepts vs.length = true) :
    Slot.lacking (Slot.positional p.fixed vs) = [] ↔ ¬p.SkipsRequired vs.length := by
  rw [Slot.lacking_eq_nil]
  constructor
  · rintro hbare ⟨_, j, _, late, _, hj, _, _, hlate, hdefault⟩
    have hslot : (Slot.positional p.fixed vs)[j]? = some ⟨late, none⟩ := by
      rw [Slot.getElem?_positional, hlate, List.getElem?_eq_none hj, Option.map_some]
    have hfalse := hbare _ (List.mem_of_getElem? hslot)
    simp [Slot.bare, hdefault] at hfalse
  · intro hskips slot hslot
    by_contra hbare
    obtain ⟨j, hj⟩ := List.getElem?_of_mem hslot
    rw [Slot.getElem?_positional] at hj
    obtain ⟨late, hlate, rfl⟩ := Option.map_eq_some_iff.1 hj
    simp only [Slot.bare, Bool.not_eq_false, Bool.and_eq_true, Option.isNone_iff_eq_none,
      List.getElem?_eq_none_iff] at hbare
    have hearly : ∀ early ∈ p.fixed.take vs.length, early.default = none := by
      intro early hmem
      by_contra hdefault
      obtain ⟨i, hi⟩ := List.getElem?_of_mem hmem
      have hlt : i < vs.length :=
        (List.getElem?_eq_some_iff.1 hi).1.trans_le (List.length_take_le ..)
      rw [List.getElem?_take_of_lt hlt] at hi
      exact hskips ⟨i, j, early, late, hlt, hbare.1, hi, hdefault, hlate, hbare.2⟩
    have hrequired := lt_required hearly hlate hbare.1 hbare.2
    simp only [accepts, Bool.and_eq_true, decide_eq_true_eq] at h
    omega

/-- With literal defaults, an accepted number of positional arguments is bound unless a
    required parameter is skipped. -/
theorem LiteralDefaults.binds_positional_iff (hp : p.LiteralDefaults)
    (h : p.accepts vs.length = true) : p.Binds ⟨vs, []⟩ ↔ ¬p.SkipsRequired vs.length := by
  rw [← lacking_positional h]
  constructor
  · intro hbinds
    obtain ⟨slots, hplace, hlacking⟩ := hbinds.canBind.lacking
    rw [place_positional h] at hplace
    cases hplace
    exact hlacking
  · exact hp.binds (place_positional h)

end Params

/-! ## Registration -/

namespace Registry

/-- The registries that come about when builtins are registered one after the other. -/
inductive Registered : Registry → Prop where
  | empty : Registered .empty
  | register {r r' name signature run} :
    Registered r → r.register name signature run = .ok r' → Registered r'

variable {r : Registry} {name : String}

/-- Registering adds a builtin with literal defaults. -/
theorem register_eq_ok {r' : Registry} {signature : String} {run : NativeCode}
    (h : r.register name signature run = .ok r') :
    ∃ params : Params, params.LiteralDefaults ∧ r' = r.add (.native name params run) := by
  unfold register at h
  split at h
  · rename_i params _ hread
    cases h
    exact ⟨params, Signature.literalDefaults_read _ _ _ _ hread, rfl⟩
  · cases h

theorem Registered.literalDefaults (h : r.Registered) :
    r.Holds fun f => f.params.LiteralDefaults := by
  induction h with
  | empty => nofun
  | register _ hregister ih =>
    obtain ⟨params, hparams, rfl⟩ := register_eq_ok hregister
    exact holds_add (fun f hf => hf) ih hparams

theorem length_mark (fs : List Function) : (mark fs).length = fs.length := by
  unfold mark
  split
  · exact List.length_map ..
  · rfl

/-- The only candidate of a name is not marked as overloaded. -/
theorem Registered.not_overloaded (h : r.Registered) {f : Function}
    (honly : r.candidates name = [f]) : f.overloaded = false := by
  induction h with
  | empty => cases honly
  | @register r r' added signature run _ hregister ih =>
    obtain ⟨params, _, rfl⟩ := register_eq_ok hregister
    rw [candidates_add] at honly
    split at honly
    · have hlength := congrArg List.length honly
      rw [length_mark, List.length_append] at hlength
      have hnone : r.candidates (Function.native added params run).name = [] :=
        List.eq_nil_of_length_eq_zero (by simpa using hlength)
      rw [hnone] at honly
      cases honly
      rfl
    · exact ih honly

/-! ## The chosen candidate -/

/-- A candidate that is one of several, or can bind the arguments as another one can,
    accepts their number when it is chosen. -/
theorem Registered.accepts_of_resolve (hr : r.Registered) (args : Args) {f : Function}
    (hf : r.resolve name args.count = .ok f)
    (h : f.overloaded = true ∨ ∃ g ∈ r.candidates name, g.params.CanBind args) :
    f.params.accepts args.count = true := by
  rcases resolve_eq_ok hf with honly | ⟨haccepts, _⟩
  · rcases h with hoverloaded | ⟨g, hg, hbind⟩
    · rw [hr.not_overloaded honly] at hoverloaded
      cases hoverloaded
    · rw [honly] at hg
      cases List.mem_singleton.1 hg
      exact hbind.accepts
  · exact haccepts

/-- When some candidate could bind positional arguments, one is chosen, and it binds them
    exactly if it does not skip a required parameter. The same holds of every chosen
    candidate that is one of several. -/
theorem selected_binds_unless_skips (hr : r.Registered) (name : String) (vs : List Value) :
    ((∃ g ∈ r.candidates name, g.params.CanBind ⟨vs, []⟩) →
      ∃ f, r.resolve name vs.length = .ok f ∧
        (f.params.Binds ⟨vs, []⟩ ↔ ¬f.params.SkipsRequired vs.length)) ∧
    ∀ f, r.resolve name vs.length = .ok f → f.overloaded = true →
      (f.params.Binds ⟨vs, []⟩ ↔ ¬f.params.SkipsRequired vs.length) := by
  have hbinds (f : Function) (hf : r.resolve name vs.length = .ok f)
      (h : f.overloaded = true ∨ ∃ g ∈ r.candidates name, g.params.CanBind ⟨vs, []⟩) :
      f.params.Binds ⟨vs, []⟩ ↔ ¬f.params.SkipsRequired vs.length := by
    have hliteral := hr.literalDefaults name f (mem_candidates_of_resolve hf)
    exact hliteral.binds_positional_iff (hr.accepts_of_resolve ⟨vs, []⟩ hf h)
  refine ⟨fun hsome => ?_, fun f hf hoverloaded => hbinds f hf (.inl hoverloaded)⟩
  cases hresolve : r.resolve name vs.length with
  | ok f => exact ⟨f, rfl, hbinds f hresolve (.inr hsome)⟩
  | error e =>
    obtain ⟨g, hg, hbind⟩ := hsome
    exact absurd hbind (Params.not_canBind (not_accepts_of_resolve hresolve g hg))

/-! ## A required parameter that is skipped -/

/-- `pick($x: null, $a)` -/
private def late : Function :=
  ⟨"pick", ⟨[⟨"x", some (.literal (.null none))⟩, ⟨"a", none⟩], none⟩, .native fun _ => Build.null, true⟩

/-- `pick($a)` -/
private def plain : Function := ⟨"pick", ⟨[⟨"a", none⟩], none⟩, .native fun _ => Build.null, true⟩

private theorem register_late : empty.register "pick" "$x: null, $a" (fun _ => Build.null) =
    .ok (empty.add { late with overloaded := false }) := by
  have htokens : Signature.tokens "$x: null, $a" =
      .ok [⟨.variable "x", 1⟩, ⟨.colon, 3⟩, ⟨.ident "null", 5⟩, ⟨.comma, 9⟩, ⟨.variable "a", 11⟩,
        ⟨.done, 13⟩] := by decide +kernel
  rw [register, Signature.read, htokens]
  rfl

private theorem register_plain (r : Registry) :
    r.register "pick" "$a" (fun _ => Build.null) = .ok (r.add { plain with overloaded := false }) := by
  have htokens : Signature.tokens "$a" = .ok [⟨.variable "a", 1⟩, ⟨.done, 3⟩] := by decide +kernel
  rw [register, Signature.read, htokens]
  rfl

/-- The two candidates in this order. -/
private def lateFirst : Registry :=
  (empty.add { late with overloaded := false }).add { plain with overloaded := false }

private theorem registered_lateFirst : lateFirst.Registered :=
  .register (.register .empty register_late) (register_plain _)

/-- Two arguments are bound by the candidate that is chosen for them. -/
theorem late_binds_two :
    ∃ r f, Registered r ∧ r.resolve "pick" 2 = .ok f ∧ f.overloaded = true ∧
      f.params.Binds ⟨[.null none, .bool true none], []⟩ := by
  have hresolve : lateFirst.resolve "pick" 2 = .ok late := rfl
  have hskips : ¬late.params.SkipsRequired 2 := by
    rintro ⟨_, j, _, _, _, hj, _, _, hlate, _⟩
    have hlt : j < 2 := (List.getElem?_eq_some_iff.1 hlate).1
    omega
  have hbinds := (selected_binds_unless_skips registered_lateFirst "pick"
    [.null none, .bool true none]).2 late hresolve rfl
  exact ⟨lateFirst, late, registered_lateFirst, hresolve, rfl, hbinds.2 hskips⟩

/-- One argument is bound by `pick($a)`, but `pick($x: null, $a)` accepts one as well, is
    chosen because it comes first, and fails. -/
theorem late_hides_plain :
    ∃ r₁ r f g, empty.register "pick" "$x: null, $a" (fun _ => Build.null) = .ok r₁ ∧
      r₁.register "pick" "$a" (fun _ => Build.null) = .ok r ∧
      g ∈ r.candidates "pick" ∧ g.params.Binds ⟨[.null none], []⟩ ∧
      r.resolve "pick" 1 = .ok f ∧ f.overloaded = true ∧
      ∀ function evaluate scope m, ∃ e n,
        f.params.bind function ⟨[.null none], []⟩ evaluate scope m = .error (.error e) n ∧
          e.kind = .argumentCount := by
  have hcandidates : lateFirst.candidates "pick" = [late, plain] := rfl
  refine ⟨_, lateFirst, late, plain, register_late, register_plain _, ?_, ?_, rfl, rfl, ?_⟩
  · rw [hcandidates]
    exact List.mem_cons_of_mem _ List.mem_cons_self
  · exact fun _ _ _ _ => ⟨_, rfl⟩
  · exact fun _ _ _ _ => ⟨_, _, rfl, rfl⟩

end Registry

end StyleScript
