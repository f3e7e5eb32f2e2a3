-- SUMMARY: Binding gives each parameter its argument or its default, and each argument one place.
import StyleScript.Proofs.Placing
import StyleScript.Proofs.Writes

/-!
# Binding

Binding places the arguments, goes through the parameters in order, and ends with
the rest parameter. The machines that it goes through are stages: between one stage
and the next one parameter gets its value. What a scope holds at a stage is what it
held before, with the parameters up to there on top.
-/

namespace StyleScript

/-! ## Arguments and places -/

/-- An argument, by its position among the positional or among the named ones. -/
inductive Args.Ref where
  | positional (k : Nat)
  | named (k : Nat)

/-- The value of an argument, if there is such an argument. -/
def Args.value? (args : Args) : Args.Ref → Option Value
  | .positional k => args.positional[k]?
  | .named k => args.named[k]?.map (·.2)

namespace Params

/-- A place for an argument: a parameter, or a position in the list of the rest
    parameter. -/
inductive Place where
  | fixed (i : Nat)
  | rest (k : Nat)

/-- Which place takes which argument. Positional arguments go to parameters in order
    and then to the rest parameter; named ones go to the parameters of their names that
    have no positional argument. -/
inductive Takes (p : Params) (args : Args) : Place → Args.Ref → Prop where
  | positional {i : Nat} :
    i < p.fixed.length → i < args.positional.length → Takes p args (.fixed i) (.positional i)
  | named {i k : Nat} {param : Param} {a : String × Value} :
    p.fixed[i]? = some param → args.positional.length ≤ i → args.named[k]? = some a →
    SameName a.1 param.name → Takes p args (.fixed i) (.named k)
  | rest {k : Nat} :
    p.rest.isSome = true → p.fixed.length + k < args.positional.length →
    Takes p args (.rest k) (.positional (p.fixed.length + k))

variable {p : Params} {args : Args} {slots : List Slot}

private theorem nodup_fixed (hnames : (p.names.map canonical).Nodup) :
    (p.fixed.map fun param => canonical param.name).Nodup := by
  rw [names, List.map_append, List.map_map] at hnames
  exact (List.nodup_append.1 hnames).1

/-- With distinct names, a name is that of one parameter only. -/
theorem fixed_unique (hnames : (p.names.map canonical).Nodup) {i j : Nat} {a b : Param}
    (ha : p.fixed[i]? = some a) (hb : p.fixed[j]? = some b) (hsame : SameName a.name b.name) :
    i = j := by
  have hi : (p.fixed.map fun param => canonical param.name)[i]? = some (canonical a.name) := by
    rw [List.getElem?_map, ha, Option.map_some]
  have hj : (p.fixed.map fun param => canonical param.name)[j]? = some (canonical b.name) := by
    rw [List.getElem?_map, hb, Option.map_some]
  have hlt := (List.getElem?_eq_some_iff.1 hi).1
  exact (List.getElem?_inj hlt (nodup_fixed hnames)).1 (by rw [hi, hj, hsame])

/-- What placing does to the slots of positional arguments. -/
theorem placed_of_place (hnames : (p.names.map canonical).Nodup) (h : p.place args = .ok slots) :
    Slot.Placed args.named (Slot.positional p.fixed args.positional) slots := by
  refine Slot.placed_placeNamed ?_ (place_eq_ok h).2
  rw [Slot.keys, Slot.params_positional]
  exact nodup_fixed hnames

theorem fixed_of_slot (h : p.place args = .ok slots) {i : Nat} {slot : Slot}
    (hslot : slots[i]? = some slot) : p.fixed[i]? = some slot.param := by
  rw [← params_of_place h, Slot.params, List.getElem?_map, hslot, Option.map_some]

theorem slot_of_fixed (h : p.place args = .ok slots) {i : Nat} {param : Param}
    (hparam : p.fixed[i]? = some param) : ∃ slot, slots[i]? = some slot ∧ slot.param = param := by
  rw [← params_of_place h, Slot.params, List.getElem?_map] at hparam
  exact Option.map_eq_some_iff.1 hparam

/-- A parameter is given the argument that its place takes, and none when it takes
    none. -/
theorem takes_of_slot (hnames : (p.names.map canonical).Nodup) (h : p.place args = .ok slots)
    {i : Nat} {slot : Slot} (hslot : slots[i]? = some slot) :
    (∀ v, slot.given = some v → ∃ ref, p.Takes args (.fixed i) ref ∧ args.value? ref = some v) ∧
      (slot.given = none → ∀ ref, ¬p.Takes args (.fixed i) ref) := by
  have hplaced := placed_of_place hnames h
  have hparam := fixed_of_slot h hslot
  have hlt : i < p.fixed.length := (List.getElem?_eq_some_iff.1 hparam).1
  have hbefore : (Slot.positional p.fixed args.positional)[i]? =
      some ⟨slot.param, args.positional[i]?⟩ := by
    rw [Slot.getElem?_positional, hparam, Option.map_some]
  cases hpositional : args.positional[i]? with
  | some u =>
    rw [hpositional] at hbefore
    have hkept := hplaced.kept i _ u hbefore rfl
    rw [hslot] at hkept
    have hgiven : slot.given = some u := congrArg Slot.given (Option.some.inj hkept)
    rw [hgiven]
    refine ⟨fun v hv => ⟨.positional i, .positional hlt ?_, ?_⟩, nofun⟩
    · exact (List.getElem?_eq_some_iff.1 hpositional).1
    · rw [← hv]
      exact hpositional
  | none =>
    rw [hpositional] at hbefore
    have hle : args.positional.length ≤ i := List.getElem?_eq_none_iff.1 hpositional
    by_cases hnamed : ∃ a ∈ args.named, canonical a.1 = canonical slot.param.name
    · obtain ⟨a, ha, hsame⟩ := hnamed
      have hfilled := hplaced.filled i _ a hbefore rfl ha hsame
      rw [hslot] at hfilled
      have hgiven : slot.given = some a.2 := congrArg Slot.given (Option.some.inj hfilled)
      obtain ⟨k, hk⟩ := List.getElem?_of_mem ha
      rw [hgiven]
      refine ⟨fun v hv => ⟨.named k, .named hparam hle hk hsame, ?_⟩, nofun⟩
      rw [Args.value?, hk, ← hv, Option.map_some]
    · have hfree := hplaced.free i _ hbefore rfl fun a ha hsame => hnamed ⟨a, ha, hsame⟩
      rw [hslot] at hfree
      have hgiven : slot.given = none := congrArg Slot.given (Option.some.inj hfree)
      rw [hgiven]
      refine ⟨nofun, fun _ ref htakes => ?_⟩
      cases htakes with
      | positional _ hi => omega
      | named hfixed _ hk hsame =>
        rw [hparam] at hfixed
        cases hfixed
        exact hnamed ⟨_, List.mem_of_getElem? hk, hsame⟩

/-- Every argument has exactly one place to go to. -/
theorem existsUnique_takes (hnames : (p.names.map canonical).Nodup) (h : p.place args = .ok slots)
    {ref : Args.Ref} {v : Value} (hv : args.value? ref = some v) :
    ∃! place, p.Takes args place ref := by
  have hplaced := placed_of_place hnames h
  cases ref with
  | positional k =>
    have hk : k < args.positional.length := (List.getElem?_eq_some_iff.1 hv).1
    by_cases hfixed : k < p.fixed.length
    · refine ⟨.fixed k, .positional hfixed hk, fun place htakes => ?_⟩
      cases htakes with
      | positional => rfl
      | rest => omega
    · have hrest : p.rest.isSome = true := by
        cases hnone : p.rest with
        | some _ => rfl
        | none => exact absurd ⟨by omega, hnone⟩ (place_eq_ok h).1
      obtain ⟨j, rfl⟩ : ∃ j, k = p.fixed.length + j := ⟨k - p.fixed.length, by omega⟩
      refine ⟨.rest j, .rest hrest hk, fun place htakes => ?_⟩
      generalize href : Args.Ref.positional (p.fixed.length + j) = ref at htakes
      cases htakes with
      | positional hlt _ =>
        cases href
        omega
      | rest =>
        injection href with hindex
        rw [Nat.add_left_cancel hindex]
      | named => cases href
  | named k =>
    obtain ⟨a, ha, _⟩ := Option.map_eq_some_iff.1 hv
    obtain ⟨i, slot, hslot, hnone, hsame⟩ := hplaced.known a (List.mem_of_getElem? ha)
    rw [Slot.getElem?_positional] at hslot
    obtain ⟨param, hparam, rfl⟩ := Option.map_eq_some_iff.1 hslot
    have hle : args.positional.length ≤ i := List.getElem?_eq_none_iff.1 hnone
    refine ⟨.fixed i, .named hparam hle ha hsame, fun place htakes => ?_⟩
    cases htakes with
    | named hparam' _ ha' hsame' =>
      rw [ha] at ha'
      cases ha'
      rw [fixed_unique hnames hparam hparam' (hsame.symm.trans hsame')]

/-- No place takes two arguments. -/
theorem takes_unique (hnames : (p.names.map canonical).Nodup) (h : p.place args = .ok slots)
    {place : Place} {ref ref' : Args.Ref} (hr : p.Takes args place ref)
    (hr' : p.Takes args place ref') : ref = ref' := by
  have hdistinct := (placed_of_place hnames h).distinct
  cases hr with
  | positional _ hi =>
    cases hr' with
    | positional => rfl
    | named _ hle _ _ => omega
  | @named i k param a hparam hle ha hsame =>
    cases hr' with
    | positional _ hi => omega
    | @named _ k' param' a' hparam' _ ha' hsame' =>
      rw [hparam] at hparam'
      cases hparam'
      have hk : (args.named.map fun a => canonical a.1)[k]? = some (canonical a.1) := by
        rw [List.getElem?_map, ha, Option.map_some]
      have hk' : (args.named.map fun a => canonical a.1)[k']? = some (canonical a'.1) := by
        rw [List.getElem?_map, ha', Option.map_some]
      have hlt := (List.getElem?_eq_some_iff.1 hk).1
      have heq := (List.getElem?_inj hlt hdistinct).1 (hk.trans (by rw [hk', hsame, hsame']))
      rw [heq]
  | rest =>
    cases hr' with
    | rest => rfl

end Params

/-! ## Stages -/

/-- An evaluator that leaves a scope as it was, and takes back no numbers. -/
def Evaluator.Leaves (evaluate : Evaluator) (scope : ScopeId) : Prop :=
  ∀ e n v n', scope < n.store.next → evaluate e scope n = .ok v n' →
    n'.store.get? scope = n.store.get? scope ∧ scope < n'.store.next

/-- Evaluation as a session has it leaves every scope as it was. -/
theorem Session.leaves_evaluator (s : Session) (fuel : Nat) (scope : ScopeId) :
    Evaluator.Leaves (evaluator (s.call fuel)) scope := by
  intro e n v n' hlt hev
  have hkept := (e.keeps_eval (s.keeps_call fuel) scope).of_ok hev
  exact ⟨hkept.scopes scope hlt, hlt.trans_le hkept.next⟩

theorem Store.local?_define {store : Store} {scope : ScopeId} (h : store.contains scope = true)
    (name other : String) (v : Value) :
    (store.define scope name v).local? scope other =
      if canonical other = canonical name then some v else store.local? scope other := by
  obtain ⟨sc, hget⟩ := Option.isSome_iff_exists.1 h
  unfold Store.local? Store.locals Store.define
  rw [Store.get?_update, if_pos rfl, hget]
  exact NameTable.get?_insert ..

theorem Store.contains_define {store : Store} {scope : ScopeId} (name : String) (v : Value) :
    (store.define scope name v).contains scope = store.contains scope := by
  unfold Store.contains Store.define
  rw [Store.get?_update, if_pos rfl, Option.isSome_map]

theorem Store.local?_congr {store store' : Store} {scope : ScopeId}
    (h : store'.get? scope = store.get? scope) (name : String) :
    store'.local? scope name = store.local? scope name := by
  unfold Store.local? Store.locals
  rw [h]

namespace Slot

variable {evaluate : Evaluator} {scope : ScopeId} {slots : List Slot}

/-- Machines that follow each other while slots are filled: between two of them one
    parameter gets its value. -/
def Stages (evaluate : Evaluator) (scope : ScopeId) (slots : List Slot) (stage : Nat → Machine) :
    Prop :=
  ∀ (i : Nat) (slot : Slot), slots[i]? = some slot →
    ∃ v n, slot.value? evaluate scope (stage i) = .ok (some v) n ∧
      stage (i + 1) = n.define scope slot.param.name v

/-- Stages with one more before them. -/
def startingAt (m : Machine) (stage : Nat → Machine) : Nat → Machine
  | 0 => m
  | i + 1 => stage i

/-- Filling that leaves no parameter without a value goes through stages. -/
theorem stages_of_fill {m m' : Machine} (h : fill evaluate scope slots m = .ok [] m') :
    ∃ stage, Stages evaluate scope slots stage ∧ stage 0 = m ∧ stage slots.length = m' := by
  induction slots generalizing m with
  | nil =>
    cases h
    exact ⟨fun _ => m', nofun, rfl, rfl⟩
  | cons slot slots ih =>
    rw [fill_cons] at h
    obtain ⟨value, n, hvalue, hsettle⟩ := Eval.bind_eq_ok.1 h
    cases value with
    | none =>
      obtain ⟨missing, _, _, hpure⟩ := Eval.bind_eq_ok.1 hsettle
      cases hpure
    | some v =>
      obtain ⟨_, _, hdefine, hfill⟩ := Eval.bind_eq_ok.1 hsettle
      cases hdefine
      obtain ⟨stage, hstages, hzero, hlast⟩ := ih hfill
      refine ⟨startingAt m stage, ?_, rfl, hlast⟩
      intro i other hother
      cases i with
      | zero =>
        cases hother
        exact ⟨v, n, hvalue, hzero⟩
      | succ i => exact hstages i other hother

/-- What a parameter gets: its argument, its literal default, or what its default
    evaluates to. -/
theorem value?_eq_ok {slot : Slot} {m n : Machine} {v : Value}
    (h : slot.value? evaluate scope m = .ok (some v) n) :
    (slot.given = some v ∧ n = m) ∨
      (slot.given = none ∧ slot.param.default = some (.literal v) ∧ n = m) ∨
      ∃ e, slot.given = none ∧ slot.param.default = some e ∧ (∀ u, e ≠ .literal u) ∧
        evaluate e scope m = .ok v n := by
  cases hgiven : slot.given with
  | some u =>
    rw [value?_given hgiven] at h
    cases h
    exact .inl ⟨rfl, rfl⟩
  | none =>
    rcases default_cases slot.param with hnone | ⟨u, hdefault⟩ | ⟨e, hdefault, hliteral⟩
    · rw [value?_none hgiven hnone] at h
      cases h
    · rw [value?_literal hgiven hdefault] at h
      cases h
      exact .inr (.inl ⟨rfl, hdefault, rfl⟩)
    · rw [value?_default hgiven hdefault hliteral, map_eq_pure_bind] at h
      obtain ⟨u, n', hev, hpure⟩ := Eval.bind_eq_ok.1 h
      cases hpure
      exact .inr (.inr ⟨e, rfl, hdefault, hliteral, hev⟩)

variable {stage : Nat → Machine}

/-- Between two stages the scope gets the value of one parameter, and no other. -/
theorem Stages.step (hstages : Stages evaluate scope slots stage)
    (hleaves : evaluate.Leaves scope) {i : Nat} {slot : Slot} (hslot : slots[i]? = some slot)
    (hnext : scope < (stage i).store.next) (hscope : (stage i).store.contains scope = true) :
    scope < (stage (i + 1)).store.next ∧ (stage (i + 1)).store.contains scope = true ∧
      ∃ v n, slot.value? evaluate scope (stage i) = .ok (some v) n ∧
        stage (i + 1) = n.define scope slot.param.name v ∧
        ∀ name, (stage (i + 1)).store.local? scope name =
          if canonical name = canonical slot.param.name then some v
          else (stage i).store.local? scope name := by
  obtain ⟨v, n, hvalue, hdefine⟩ := hstages i slot hslot
  have hsame : n.store.get? scope = (stage i).store.get? scope ∧ scope < n.store.next := by
    rcases value?_eq_ok hvalue with ⟨_, rfl⟩ | ⟨_, _, rfl⟩ | ⟨e, _, _, _, hev⟩
    · exact ⟨rfl, hnext⟩
    · exact ⟨rfl, hnext⟩
    · exact hleaves e _ v n hnext hev
  have hcontains : n.store.contains scope = true := by
    rw [Store.contains, hsame.1]
    exact hscope
  rw [hdefine]
  refine ⟨hsame.2, ?_, v, n, hvalue, rfl, fun name => ?_⟩
  · exact (Store.contains_define slot.param.name v).trans hcontains
  · rw [← Store.local?_congr hsame.1 name]
    exact Store.local?_define hcontains slot.param.name name v

variable (hstages : Stages evaluate scope slots stage) (hleaves : evaluate.Leaves scope)
  (hnext : scope < (stage 0).store.next) (hscope : (stage 0).store.contains scope = true)

include hstages hleaves hnext hscope

/-- The scope is there at all stages. -/
theorem Stages.alive {i : Nat} (hi : i ≤ slots.length) :
    scope < (stage i).store.next ∧ (stage i).store.contains scope = true := by
  induction i with
  | zero => exact ⟨hnext, hscope⟩
  | succ i ih =>
    obtain ⟨hnext', hscope'⟩ := ih (by omega)
    have hslot := List.getElem?_eq_getElem (show i < slots.length by omega)
    obtain ⟨hnext'', hscope'', _⟩ := hstages.step hleaves hslot hnext' hscope'
    exact ⟨hnext'', hscope''⟩

/-- A name keeps its value while only other parameters get theirs. -/
theorem Stages.unwritten {i j : Nat} (hij : i ≤ j) (hj : j ≤ slots.length) {name : String}
    (hother : ∀ k slot, i ≤ k → k < j → slots[k]? = some slot →
      ¬SameName slot.param.name name) :
    (stage j).store.local? scope name = (stage i).store.local? scope name := by
  induction j with
  | zero =>
    obtain rfl : i = 0 := by omega
    rfl
  | succ j ih =>
    by_cases heq : i = j + 1
    · rw [heq]
    · have hslot := List.getElem?_eq_getElem (show j < slots.length by omega)
      obtain ⟨hnext', hscope'⟩ := hstages.alive hleaves hnext hscope (show j ≤ slots.length by omega)
      obtain ⟨_, _, v, n, _, _, hlocal⟩ := hstages.step hleaves hslot hnext' hscope'
      have hne : ¬canonical name = canonical slots[j].param.name := fun hsame =>
        hother j _ (by omega) (by omega) hslot hsame.symm
      rw [hlocal name, if_neg hne]
      exact ih (by omega) (by omega) fun k slot hik hkj => hother k slot hik (by omega)

end Slot

/-! ## The result of binding -/

namespace Params

/-- What a parameter gets on a machine, and the machine after that: the argument that
    its place takes, else its literal default, else what its default evaluates to. -/
inductive Gives (p : Params) (args : Args) (evaluate : Evaluator) (scope : ScopeId) (i : Nat)
    (param : Param) (m : Machine) : Value → Machine → Prop where
  | argument {ref : Args.Ref} {v : Value} :
    p.Takes args (.fixed i) ref → args.value? ref = some v →
    Gives p args evaluate scope i param m v m
  | literal {v : Value} :
    (∀ ref, ¬p.Takes args (.fixed i) ref) → param.default = some (.literal v) →
    Gives p args evaluate scope i param m v m
  | evaluated {e : Expr} {v : Value} {n : Machine} :
    (∀ ref, ¬p.Takes args (.fixed i) ref) → param.default = some e → (∀ u, e ≠ .literal u) →
    evaluate e scope m = .ok v n → Gives p args evaluate scope i param m v n

/-- A scope after parameters were bound in it. -/
structure Bound (p : Params) (args : Args) (evaluate : Evaluator) (scope : ScopeId)
    (m m' : Machine) : Prop where
  /-- The parameters get their values one after the other. When it is the turn of one,
      the scope holds the values of those before it, and else what it held. -/
  fixed : ∃ stage : Nat → Machine, stage 0 = m ∧ ∀ (i : Nat) (param : Param),
    p.fixed[i]? = some param →
      (∃ v n, p.Gives args evaluate scope i param (stage i) v n ∧
        stage (i + 1) = n.define scope param.name v ∧
        m'.store.local? scope param.name = some v) ∧
      (∀ earlier ∈ p.fixed.take i,
        (stage i).store.local? scope earlier.name = m'.store.local? scope earlier.name) ∧
      ∀ name, (∀ earlier ∈ p.fixed.take i, ¬SameName earlier.name name) →
        (stage i).store.local? scope name = m.store.local? scope name
  /-- The rest parameter gets the positional arguments that are left, in order. -/
  rest : ∀ rest, p.rest = some rest → m'.store.local? scope rest =
    some (.list (args.positional.drop p.fixed.length) .comma m'.builder.location)
  /-- Every argument goes to exactly one place. -/
  placed : ∀ ref v, args.value? ref = some v → ∃! place, p.Takes args place ref
  /-- No place takes two arguments. -/
  single : ∀ place ref ref', p.Takes args place ref → p.Takes args place ref' → ref = ref'
  /-- All other names of the scope have what they had. -/
  others : ∀ name, (∀ known ∈ p.names, ¬SameName known name) →
    m'.store.local? scope name = m.store.local? scope name

variable {p : Params} {function : String} {args : Args} {evaluate : Evaluator} {scope : ScopeId}
  {slots : List Slot} {m n m' : Machine}

/-- A binding ends with the rest parameter, if there is one. -/
theorem complete_eq_ok {missing : List String}
    (h : p.complete function args scope missing n = .ok () m') :
    missing = [] ∧ ((p.rest = none ∧ m' = n) ∨ ∃ rest, p.rest = some rest ∧
      m' = (n.withBuilder (n.builder.grow 1)).define scope rest
        (.list (args.positional.drop p.fixed.length) .comma n.builder.location)) := by
  cases missing with
  | cons _ _ => cases h
  | nil =>
    unfold complete bindRest at h
    cases hrest : p.rest with
    | none =>
      simp only [hrest] at h
      cases h
      exact ⟨rfl, .inl ⟨rfl, rfl⟩⟩
    | some rest =>
      simp only [hrest] at h
      obtain ⟨list, n', hbuild, hdefine⟩ := Eval.bind_eq_ok.1 h
      cases hbuild
      cases hdefine
      exact ⟨rfl, .inr ⟨rest, rfl, rfl⟩⟩

/-- A successful binding is a placing, a filling that leaves no parameter without a
    value, and the rest. -/
theorem bind_eq_ok (h : p.bind function args evaluate scope m = .ok () m') :
    ∃ slots n, p.place args = .ok slots ∧ Slot.fill evaluate scope slots m = .ok [] n ∧
      p.complete function args scope [] n = .ok () m' := by
  cases hplace : p.place args with
  | error fault =>
    rw [bind_of_place_error hplace] at h
    cases h
  | ok slots =>
    rw [bind_of_place_ok hplace] at h
    obtain ⟨missing, n, hfill, hcomplete⟩ := Eval.bind_eq_ok.1 h
    obtain ⟨rfl, _⟩ := complete_eq_ok hcomplete
    exact ⟨slots, n, rfl, hfill, hcomplete⟩

/-- A name that is not that of the rest parameter has at the end of a binding what it
    had when the other parameters were bound. -/
theorem local?_complete (h : p.complete function args scope [] n = .ok () m')
    (hscope : n.store.contains scope = true) {name : String}
    (hname : ∀ rest, p.rest = some rest → ¬SameName rest name) :
    m'.store.local? scope name = n.store.local? scope name := by
  rcases (complete_eq_ok h).2 with ⟨_, rfl⟩ | ⟨rest, hrest, rfl⟩
  · rfl
  · have hdefine := Store.local?_define hscope rest name
      (.list (args.positional.drop p.fixed.length) .comma n.builder.location)
    rw [if_neg fun hsame => hname rest hrest hsame.symm] at hdefine
    exact hdefine

/-- With distinct names, the rest parameter has another name than the others. -/
theorem rest_ne_fixed (hnames : (p.names.map canonical).Nodup) {i : Nat} {param : Param}
    (hparam : p.fixed[i]? = some param) (rest : String) (hrest : p.rest = some rest) :
    ¬SameName rest param.name := by
  rw [names, List.map_append, hrest] at hnames
  have hmem : canonical param.name ∈ (p.fixed.map (·.name)).map canonical :=
    List.mem_map_of_mem (List.mem_map_of_mem (List.mem_of_getElem? hparam))
  intro hsame
  exact (List.nodup_append.1 hnames).2.2 _ hmem _ List.mem_cons_self hsame.symm

/-- What a slot gets is what its parameter gets. -/
theorem gives_of_value? (hnames : (p.names.map canonical).Nodup) (hplace : p.place args = .ok slots)
    {i : Nat} {slot : Slot} (hslot : slots[i]? = some slot) {v : Value}
    (hvalue : slot.value? evaluate scope m = .ok (some v) n) :
    p.Gives args evaluate scope i slot.param m v n := by
  obtain ⟨htakes, hfree⟩ := takes_of_slot hnames hplace hslot
  rcases Slot.value?_eq_ok hvalue with ⟨hgiven, rfl⟩ | ⟨hgiven, hdefault, rfl⟩ |
    ⟨e, hgiven, hdefault, hliteral, hev⟩
  · obtain ⟨ref, href, hv⟩ := htakes v hgiven
    exact .argument href hv
  · exact .literal (hfree hgiven) hdefault
  · exact .evaluated (hfree hgiven) hdefault hliteral hev

/-- The values of the parameters, stage by stage. -/
private theorem fixed_of_stages (hnames : (p.names.map canonical).Nodup)
    (hplace : p.place args = .ok slots) {stage : Nat → Machine}
    (hstages : Slot.Stages evaluate scope slots stage) (hleaves : evaluate.Leaves scope)
    (hnext : scope < (stage 0).store.next) (hscope : (stage 0).store.contains scope = true)
    (hcomplete : p.complete function args scope [] (stage slots.length) = .ok () m')
    {i : Nat} {param : Param} (hparam : p.fixed[i]? = some param) :
    (∃ v n, p.Gives args evaluate scope i param (stage i) v n ∧
      stage (i + 1) = n.define scope param.name v ∧
      m'.store.local? scope param.name = some v) ∧
    (∀ earlier ∈ p.fixed.take i,
      (stage i).store.local? scope earlier.name = m'.store.local? scope earlier.name) ∧
    ∀ name, (∀ earlier ∈ p.fixed.take i, ¬SameName earlier.name name) →
      (stage i).store.local? scope name = (stage 0).store.local? scope name := by
  obtain ⟨slot, hslot, rfl⟩ := slot_of_fixed hplace hparam
  have hi : i < slots.length := (List.getElem?_eq_some_iff.1 hslot).1
  have hend := (hstages.alive hleaves hnext hscope le_rfl).2
  -- From the stage after its own on, a parameter keeps its value to the end.
  have hkeeps {j k : Nat} {known : Param} (hknown : p.fixed[j]? = some known) (hjk : j < k)
      (hk : k ≤ slots.length) :
      (stage k).store.local? scope known.name = m'.store.local? scope known.name := by
    have hunwritten := hstages.unwritten hleaves hnext hscope hk le_rfl
      fun l other hkl _ hother hsame => by
        have heq := fixed_unique hnames (fixed_of_slot hplace hother) hknown hsame
        omega
    rw [local?_complete hcomplete hend (rest_ne_fixed hnames hknown), hunwritten]
  refine ⟨?_, fun earlier hearlier => ?_, fun name hname => ?_⟩
  · obtain ⟨hnext', hscope'⟩ := hstages.alive hleaves hnext hscope hi.le
    obtain ⟨_, _, v, n, hvalue, hdefine, hlocal⟩ := hstages.step hleaves hslot hnext' hscope'
    refine ⟨v, n, gives_of_value? hnames hplace hslot hvalue, hdefine, ?_⟩
    rw [← hkeeps hparam (Nat.lt_succ_self i) hi, hlocal, if_pos rfl]
  · obtain ⟨j, hj⟩ := List.getElem?_of_mem hearlier
    have hlt : j < (p.fixed.take i).length := (List.getElem?_eq_some_iff.1 hj).1
    have hji : j < i := hlt.trans_le (List.length_take_le i p.fixed)
    rw [List.getElem?_take_of_lt hji] at hj
    exact hkeeps hj hji hi.le
  · refine hstages.unwritten hleaves hnext hscope (Nat.zero_le i) hi.le
      fun k other _ hki hother => hname other.param ?_
    have hget : (p.fixed.take i)[k]? = some other.param := by
      rw [List.getElem?_take_of_lt hki]
      exact fixed_of_slot hplace hother
    exact List.mem_of_getElem? hget

/-- Binding loses no argument and puts none in two places: each parameter has its
    positional argument, else the named one of its name, else its default, and no other
    name of the scope changes. -/
theorem bind_bound (hnames : (p.names.map canonical).Nodup) (hleaves : evaluate.Leaves scope)
    (hnext : scope < m.store.next) (hscope : m.store.contains scope = true)
    (hbind : p.bind function args evaluate scope m = .ok () m') :
    p.Bound args evaluate scope m m' := by
  obtain ⟨slots, n, hplace, hfill, hcomplete⟩ := bind_eq_ok hbind
  obtain ⟨stage, hstages, rfl, rfl⟩ := Slot.stages_of_fill hfill
  have hend := (hstages.alive hleaves hnext hscope le_rfl).2
  refine ⟨⟨stage, rfl, fun i param hparam => ?_⟩, fun rest hrest => ?_, fun ref v hv => ?_,
    fun place ref ref' hr hr' => ?_, fun name hname => ?_⟩
  · exact fixed_of_stages hnames hplace hstages hleaves hnext hscope hcomplete hparam
  · rcases (complete_eq_ok hcomplete).2 with ⟨hnone, _⟩ | ⟨rest', hrest', rfl⟩
    · rw [hnone] at hrest
      cases hrest
    · rw [hrest] at hrest'
      cases hrest'
      exact (Store.local?_define hend rest rest _).trans (if_pos rfl)
  · exact existsUnique_takes hnames hplace hv
  · exact takes_unique hnames hplace hr hr'
  · have hfixed : ∀ k slot, 0 ≤ k → k < slots.length → slots[k]? = some slot →
        ¬SameName slot.param.name name := fun k slot _ _ hslot => by
      refine hname slot.param.name (List.mem_append_left _ (List.mem_map_of_mem ?_))
      exact List.mem_of_getElem? (fixed_of_slot hplace hslot)
    rw [local?_complete hcomplete hend fun rest hrest => hname rest ?_]
    · exact hstages.unwritten hleaves hnext hscope (Nat.zero_le _) le_rfl hfixed
    · rw [names, hrest]
      exact List.mem_append_right _ List.mem_cons_self

/-- `$a, $b-c, $d: $a, $e: null, $more...` -/
def mixed : Params :=
  ⟨[⟨"a", none⟩, ⟨"b-c", none⟩, ⟨"d", some (.variable "a" none)⟩, ⟨"e", some (.literal (.null none))⟩],
    some "more"⟩

/-- `true, $b_c: false` -/
def mixedArgs : Args := ⟨[.bool true none], [("$b_c", .bool false none)]⟩

/-- A positional argument, a named one, and both kinds of defaults. -/
theorem bind_mixed :
    let s : Session := ⟨.empty, .standard⟩
    let m := Machine.fresh.enter none
    let x := mixed.bind "f" mixedArgs (Session.evaluator (s.call 0)) 0
    mixed.Bound mixedArgs (Session.evaluator (s.call 0)) 0 m (Outcome.machine (x m)) := by
  intro s m x
  have hnames : (mixed.names.map canonical).Nodup := by decide
  have hbind : x m = .ok () (Outcome.machine (x m)) := by rfl
  exact bind_bound hnames (s.leaves_evaluator 0 0) Nat.one_pos rfl hbind

end Params

end StyleScript
