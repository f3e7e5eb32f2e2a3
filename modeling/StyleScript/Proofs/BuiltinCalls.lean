-- SUMMARY: What a call of a builtin binds, and how it ends.
import StyleScript.Proofs.Registration

/-!
# Calls of builtins

The defaults of a builtin are literals, so binding its arguments runs nothing: what is bound
can be computed from the parameters and the arguments alone. After that the builtin answers.
A call thus ends in one of three ways, and what it does to the builder is known in each of
them: arguments that do not fit leave it as it was, a rest parameter takes one list, and the
answer takes at most one more value.
-/

namespace StyleScript

namespace NameTable

variable {α : Type}

/-- Let names have things, one after the other. -/
def insertAll (t : NameTable α) (entries : List (String × α)) : NameTable α :=
  entries.foldl (fun t entry => t.insert entry.1 entry.2) t

@[simp] theorem insertAll_nil (t : NameTable α) : t.insertAll [] = t := rfl

@[simp] theorem insertAll_cons (t : NameTable α) (entry : String × α) (entries : List (String × α)) :
    t.insertAll (entry :: entries) = (t.insert entry.1 entry.2).insertAll entries := rfl

theorem insertAll_append (t : NameTable α) (entries more : List (String × α)) :
    t.insertAll (entries ++ more) = (t.insertAll entries).insertAll more :=
  List.foldl_append

/-- A name has something when it had before or is among the entries. -/
theorem isSome_get?_insertAll {t : NameTable α} {entries : List (String × α)} {name : String} :
    ((t.insertAll entries).get? name).isSome ↔
      (t.get? name).isSome ∨ ∃ entry ∈ entries, SameName entry.1 name := by
  induction entries generalizing t with
  | nil => simp
  | cons entry entries ih =>
    rw [insertAll_cons, ih, get?_insert]
    by_cases hname : canonical name = canonical entry.1
    · simp [hname, SameName]
    · have hother : ¬SameName entry.1 name := fun hsame => hname hsame.symm
      simp [hname, hother]

theorem get?_insertAll_of_forall {t : NameTable α} {entries : List (String × α)} {name : String}
    (h : ∀ entry ∈ entries, canonical entry.1 ≠ canonical name) :
    (t.insertAll entries).get? name = t.get? name := by
  induction entries generalizing t with
  | nil => rfl
  | cons entry entries ih =>
    obtain ⟨hfirst, hrest⟩ := List.forall_mem_cons.1 h
    rw [insertAll_cons, ih hrest, get?_insert, if_neg (Ne.symm hfirst)]

/-- When no name comes twice, each name has the thing of its entry. -/
theorem get?_insertAll_of_mem {t : NameTable α} {entries : List (String × α)} {name : String}
    {a : α} (hkeys : (entries.map fun entry => canonical entry.1).Nodup)
    (hmem : (name, a) ∈ entries) : (t.insertAll entries).get? name = some a := by
  induction entries generalizing t with
  | nil => cases hmem
  | cons entry entries ih =>
    obtain ⟨hfresh, hrest⟩ := List.nodup_cons.1 hkeys
    rw [insertAll_cons]
    rcases List.mem_cons.1 hmem with rfl | hmem
    · have hothers : ∀ other ∈ entries, canonical other.1 ≠ canonical name :=
        fun other hother hsame => hfresh (List.mem_map.2 ⟨other, hother, hsame⟩)
      rw [get?_insertAll_of_forall hothers, get?_insert, if_pos rfl]
    · exact ih hrest hmem

end NameTable

/-- An argument that is bound can be read. -/
theorem Invocation.arg_of_insertAll {call : Invocation} {entries : List (String × Value)}
    {parameter : String} {v : Value} (hbound : call.bound = NameTable.empty.insertAll entries)
    (hkeys : (entries.map fun entry => canonical entry.1).Nodup)
    (hmem : (parameter, v) ∈ entries) : call.arg parameter = .ok v := by
  rw [Invocation.arg, hbound, NameTable.get?_insertAll_of_mem hkeys hmem]

theorem Store.locals_define {store : Store} {scope : ScopeId} (h : store.contains scope = true)
    (name : String) (v : Value) :
    (store.define scope name v).locals scope = (store.locals scope).insert name v := by
  obtain ⟨sc, hget⟩ := Option.isSome_iff_exists.1 h
  simp [Store.locals, Store.define, get?_update, hget]

/-! ## Binding with literal defaults -/

namespace Slot

/-- What is bound for a parameter: its argument, or else its default if that is a literal. -/
def entry? (slot : Slot) : Option (String × Value) :=
  match slot.given, slot.param.default with
  | some v, _ => some (slot.param.name, v)
  | none, some (.literal v) => some (slot.param.name, v)
  | none, _ => none

/-- What is bound for parameters, in order. -/
def entries (slots : List Slot) : List (String × Value) := slots.filterMap entry?

/-- All defaults of slots are literals. -/
def Literal (slots : List Slot) : Prop :=
  ∀ slot ∈ slots, ∀ e, slot.param.default = some e → ∃ v, e = .literal v

variable {evaluate : Evaluator} {scope : ScopeId} {slots : List Slot} {slot : Slot} {m : Machine}

/-- With a literal default the value of a slot is at hand. -/
theorem value?_of_literal (h : ∀ e, slot.param.default = some e → ∃ v, e = .literal v) :
    slot.value? evaluate scope = pure (slot.entry?.map (·.2)) := by
  cases hgiven : slot.given with
  | some v => simp [value?_given hgiven, entry?, hgiven]
  | none =>
    cases hdefault : slot.param.default with
    | none => simp [value?_none hgiven hdefault, entry?, hgiven, hdefault]
    | some e =>
      obtain ⟨v, rfl⟩ := h e hdefault
      simp [value?_literal hgiven hdefault, entry?, hgiven, hdefault]

/-- With a literal default, nothing is bound exactly for a bare slot. -/
theorem bare_iff_of_literal (h : ∀ e, slot.param.default = some e → ∃ v, e = .literal v) :
    slot.bare = true ↔ slot.entry? = none := by
  cases hgiven : slot.given with
  | some v => simp [bare, entry?, hgiven]
  | none =>
    cases hdefault : slot.param.default with
    | none => simp [bare, entry?, hgiven, hdefault]
    | some e =>
      obtain ⟨v, rfl⟩ := h e hdefault
      simp [bare, entry?, hgiven, hdefault]

/-- A parameter is bound under its name. -/
theorem entry?_name {entry : String × Value} (h : slot.entry? = some entry) :
    entry.1 = slot.param.name := by
  unfold entry? at h
  split at h <;> cases h <;> rfl

/-- Filling slots with literal defaults defines what is bound for them, and tells which are
    lacking. -/
theorem fill_of_literal (evaluate : Evaluator) (h : Literal slots)
    (hscope : m.store.contains scope = true) :
    ∃ n, fill evaluate scope slots m = .ok (lacking slots) n ∧ n.builder = m.builder ∧
      n.store.contains scope = true ∧
      n.store.locals scope = (m.store.locals scope).insertAll (entries slots) := by
  induction slots generalizing m with
  | nil => exact ⟨m, rfl, rfl, hscope, rfl⟩
  | cons slot slots ih =>
    obtain ⟨hslot, hslots⟩ := List.forall_mem_cons.1 h
    rw [fill_cons, value?_of_literal hslot, lacking_cons, entries, List.filterMap_cons]
    have hbare := bare_iff_of_literal hslot
    cases hentry : slot.entry? with
    | some entry =>
      obtain ⟨name, v⟩ := entry
      obtain rfl : name = slot.param.name := entry?_name hentry
      have hcontains := (Store.contains_define slot.param.name v).trans hscope
      obtain ⟨n, hfill, hbuilder, hn, hlocals⟩ :=
        ih (m := m.define scope slot.param.name v) hslots hcontains
      have hfull : ¬slot.bare = true := by rw [hbare, hentry]; simp
      refine ⟨n, ?_, hbuilder, hn, ?_⟩
      · rw [if_neg hfull]
        exact hfill
      · rw [hlocals, entries]
        exact congrArg (fun t => NameTable.insertAll t _) (Store.locals_define hscope _ v)
    | none =>
      obtain ⟨n, hfill, hbuilder, hn, hlocals⟩ := ih hslots hscope
      refine ⟨n, ?_, hbuilder, hn, hlocals⟩
      rw [if_pos (hbare.2 hentry)]
      exact Eval.bind_ok hfill

end Slot

namespace Params

/-- What is bound for parameters with literal defaults, or why the arguments do not fit. The
    list of a rest parameter has the given location. -/
def bound (p : Params) (args : Args) (location : Option Location) :
    Except ArityFault (NameTable Value) :=
  (p.place args).bind fun slots =>
    if Slot.lacking slots = [] then
      .ok (NameTable.empty.insertAll (Slot.entries slots ++ p.rest.toList.map fun rest =>
        (rest, .list (args.positional.drop p.fixed.length) .comma location)))
    else .error (.missing (Slot.lacking slots))

variable {p : Params} {args : Args} {location : Option Location} {slots : List Slot}
  {table : NameTable Value}

theorem bound_eq_ok (h : p.bound args location = .ok table) :
    ∃ slots, p.place args = .ok slots ∧ Slot.lacking slots = [] ∧
      table = NameTable.empty.insertAll (Slot.entries slots ++ p.rest.toList.map fun rest =>
        (rest, .list (args.positional.drop p.fixed.length) .comma location)) := by
  unfold bound at h
  cases hplace : p.place args with
  | error fault =>
    rw [hplace] at h
    cases h
  | ok slots =>
    rw [hplace] at h
    simp only [Except.bind] at h
    split at h
    · rename_i hlacking
      cases h
      exact ⟨slots, rfl, hlacking, rfl⟩
    · cases h

theorem LiteralDefaults.literal (hp : p.LiteralDefaults) (hplace : p.place args = .ok slots) :
    Slot.Literal slots := by
  intro slot hslot
  refine hp slot.param ?_
  rw [← params_of_place hplace]
  exact List.mem_map_of_mem hslot

/-- Arguments of parameters with literal defaults can be bound exactly when something is bound
    for them. -/
theorem LiteralDefaults.canBind_iff (hp : p.LiteralDefaults) (location : Option Location) :
    p.CanBind args ↔ ∃ table, p.bound args location = .ok table := by
  constructor
  · intro hbind
    obtain ⟨slots, hplace, hlacking⟩ := hbind.lacking
    exact ⟨_, by rw [bound, hplace, Except.bind, if_pos hlacking]⟩
  · rintro ⟨table, hbound⟩
    obtain ⟨slots, hplace, hlacking, _⟩ := bound_eq_ok hbound
    exact (hp.binds hplace hlacking).canBind

/-- Binding with literal defaults, in a scope without variables. -/
theorem LiteralDefaults.bind_eq (hp : p.LiteralDefaults) (function : String) (evaluate : Evaluator)
    {scope : ScopeId} {m : Machine} (hscope : m.store.contains scope = true)
    (hempty : m.store.locals scope = .empty) :
    (∃ fault n, p.bound args m.builder.location = .error fault ∧
        p.bind function args evaluate scope m = .error (.error (p.misfit function args fault)) n ∧
        n.builder = m.builder) ∨
      ∃ table n, p.bound args m.builder.location = .ok table ∧
        p.bind function args evaluate scope m = .ok () n ∧ n.store.locals scope = table ∧
        n.builder = m.builder.grow p.rest.toList.length := by
  cases hplace : p.place args with
  | error fault =>
    refine .inl ⟨fault, m, ?_, bind_of_place_error hplace, rfl⟩
    rw [bound, hplace]
    rfl
  | ok slots =>
    obtain ⟨n, hfill, hbuilder, hn, hlocals⟩ :=
      Slot.fill_of_literal evaluate (hp.literal hplace) hscope
    rw [hempty] at hlocals
    rw [bind_of_place_ok hplace, Eval.bind_ok hfill, bound, hplace, Except.bind]
    cases hlacking : Slot.lacking slots with
    | cons name names => exact .inl ⟨_, n, rfl, rfl, hbuilder⟩
    | nil =>
      refine .inr ?_
      rw [if_pos rfl, complete, bindRest]
      cases hrest : p.rest with
      | none =>
        refine ⟨_, n, rfl, rfl, ?_, hbuilder⟩
        rw [hlocals]
        simp
      | some rest =>
        refine ⟨_, _, rfl, rfl, ?_, congrArg (·.grow 1) hbuilder⟩
        rw [NameTable.insertAll_append, ← hlocals, ← hbuilder]
        exact Store.locals_define hn rest _

/-- All parameters have a value when the arguments are bound. -/
theorem LiteralDefaults.isSome_get? (hp : p.LiteralDefaults) (h : p.bound args location = .ok table) :
    ∀ name ∈ p.names, (table.get? name).isSome := by
  obtain ⟨slots, hplace, hlacking, rfl⟩ := bound_eq_ok h
  intro name hname
  rw [NameTable.isSome_get?_insertAll]
  refine .inr ?_
  rcases List.mem_append.1 hname with hfixed | hrest
  · obtain ⟨param, hparam, rfl⟩ := List.mem_map.1 hfixed
    rw [← params_of_place hplace] at hparam
    obtain ⟨slot, hslot, rfl⟩ := List.mem_map.1 hparam
    cases hentry : slot.entry? with
    | none =>
      have hbare := (Slot.bare_iff_of_literal (hp.literal hplace slot hslot)).2 hentry
      rw [Slot.lacking_eq_nil.1 hlacking slot hslot] at hbare
      cases hbare
    | some entry =>
      have hmem : entry ∈ Slot.entries slots := List.mem_filterMap.2 ⟨slot, hslot, hentry⟩
      exact ⟨entry, List.mem_append_left _ hmem, congrArg canonical (Slot.entry?_name hentry)⟩
  · exact ⟨_, List.mem_append_right _ (List.mem_map_of_mem hrest), rfl⟩

end Params

/-! ## Answers -/

/-- How many values the answer takes. -/
def Answer.built : Answer → Nat
  | fresh _ => 1
  | given _ => 0

/-- The value of an answer that is given at a place. -/
def Answer.value (place : Option Location) : Answer → Value
  | fresh value => value place
  | given v => v

theorem Answer.build_apply (answer : Answer) (b : Builder) :
    answer.build b = .ok (answer.value b.location) (b.grow answer.built) := by
  cases answer <;> rfl

/-- How a call of a builtin ends, on a machine with the builder `before`: the arguments do not
    fit, the builtin fails on what is bound, or it answers. -/
inductive Builtin.Ends (b : Builtin) (options : Options) (args : Args) (place : Option Location)
    (before : Builder) : Outcome Value → Prop where
  | misfit {fault : ArityFault} {n : Machine} :
    b.params.bound args before.location = .error fault →
    n.builder = before →
    Ends b options args place before
      (.error (.error ((b.params.misfit b.name args fault).locate place)) n)
  | failed {table : NameTable Value} {outside : String → Option Value} {e : Error} {n : Machine} :
    b.params.bound args before.location = .ok table →
    b.answer ⟨b.name, table, outside, place, options⟩ = .error e →
    n.builder = before.grow b.params.rest.toList.length →
    Ends b options args place before (.error (.error ((e.inContext b.name).locate place)) n)
  | answered {table : NameTable Value} {outside : String → Option Value} {answer : Answer}
      {n : Machine} :
    b.params.bound args before.location = .ok table →
    b.answer ⟨b.name, table, outside, place, options⟩ = .ok answer →
    n.builder = (before.grow b.params.rest.toList.length).grow answer.built →
    Ends b options args place before (.ok (answer.value place) n)

namespace Builtin

variable {b : Builtin} {options : Options} {args : Args} {place : Option Location}
  {before : Builder} {o : Outcome Value}

theorem Ends.onMachine (h : b.Ends options args place before o) {f : Machine → Machine}
    (hf : ∀ n, (f n).builder = n.builder) : b.Ends options args place before (o.onMachine f) := by
  cases h with
  | misfit hbound hn => exact .misfit hbound ((hf _).trans hn)
  | failed hbound hanswer hn => exact .failed hbound hanswer ((hf _).trans hn)
  | answered hbound hanswer hn => exact .answered hbound hanswer ((hf _).trans hn)

/-- When the arguments are bound, the end of the call is that of the builtin. -/
theorem Ends.of_bound (h : b.Ends options args place before o) {table : NameTable Value}
    (hbound : b.params.bound args before.location = .ok table) :
    ∃ outside n, o = match b.answer ⟨b.name, table, outside, place, options⟩ with
      | .ok answer => .ok (answer.value place) n
      | .error e => .error (.error ((e.inContext b.name).locate place)) n := by
  cases h with
  | misfit hmisfit hn =>
    rw [hbound] at hmisfit
    cases hmisfit
  | @failed own outside e n hown hanswer hn =>
    obtain rfl : own = table := Except.ok.inj (hown.symm.trans hbound)
    exact ⟨outside, n, by rw [hanswer]⟩
  | @answered own outside answer n hown hanswer hn =>
    obtain rfl : own = table := Except.ok.inj (hown.symm.trans hbound)
    exact ⟨outside, n, by rw [hanswer]⟩

end Builtin

/-- Binding the arguments of a builtin in a scope of their own. -/
theorem Builtin.bind_enter {b : Builtin} (hb : b ∈ all) (args : Args) (evaluate : Evaluator)
    (m : Machine) :
    (∃ fault n, b.params.bound args m.builder.location = .error fault ∧
        b.params.bind b.name args evaluate m.store.next (m.enter none) =
          .error (.error (b.params.misfit b.name args fault)) n ∧
        n.builder = m.builder) ∨
      ∃ table n, b.params.bound args m.builder.location = .ok table ∧
        b.params.bind b.name args evaluate m.store.next (m.enter none) = .ok () n ∧
        n.store.locals m.store.next = table ∧
        n.builder = m.builder.grow b.params.rest.toList.length := by
  have hscope : (m.enter none).store.contains m.store.next = true := by
    simp [Machine.enter, Store.contains, Store.get?_enter]
  have hempty : (m.enter none).store.locals m.store.next = .empty := by
    simp [Machine.enter, Store.locals, Store.get?_enter]
  exact (literalDefaults hb).bind_eq b.name evaluate hscope hempty

namespace Session

variable {options : Options} {fuel : Nat} {name : String} {f : Function} {b : Builtin} {args : Args}
  {scope : ScopeId} {place : Option Location} {m : Machine}

/-- What is bound is computed on. -/
theorem ends_runNative {bound : ScopeId} {registry : Registry} {before : Builder}
    {table : NameTable Value} (htable : b.params.bound args before.location = .ok table)
    (hlocals : m.store.locals bound = table)
    (hm : m.builder = before.grow b.params.rest.toList.length) :
    b.Ends options args place before
      (runNative ⟨registry, options⟩ b.name b.run bound scope place m) := by
  subst hlocals
  simp only [runNative, Eval.ofStore_bind_apply, id_eq, Eval.build, Build.stamped, Build.mapError]
  cases hanswer : b.answer ⟨b.name, m.store.locals bound, m.store.lookup? scope, place, options⟩ with
  | error e =>
    have hrun : b.run ⟨b.name, m.store.locals bound, m.store.lookup? scope, place, options⟩
        { m.builder with location := place } = .error e { m.builder with location := place } := by
      rw [Builtin.run, hanswer]
      rfl
    rw [hrun]
    exact .failed htable hanswer hm
  | ok answer =>
    have hrun : b.run ⟨b.name, m.store.locals bound, m.store.lookup? scope, place, options⟩
        { m.builder with location := place } =
          .ok (answer.value place) ({ m.builder with location := place }.grow answer.built) := by
      rw [Builtin.run, hanswer]
      exact answer.build_apply _
    rw [hrun]
    exact .answered htable hanswer (congrArg (·.grow answer.built) hm)

/-- Arguments are bound in a new scope, and then the builtin answers. -/
theorem ends_invoke {registry : Registry} {call : Caller} (hb : b ∈ Builtin.all) (hf : f.Is b) :
    b.Ends options args place m.builder (invoke ⟨registry, options⟩ call f args scope place m) := by
  have halive : f.body.alive m.store = true := by rw [hf.body]; rfl
  have haround : f.body.around = none := by rw [hf.body]; rfl
  rw [invoke_alive halive, Eval.inNewScope_apply, haround]
  refine Builtin.Ends.onMachine ?_ fun n => rfl
  rw [perform, finish, hf.body, hf.name, hf.params]
  rcases Builtin.bind_enter hb args (evaluator call) m with
    ⟨fault, n, hbound, hbind, hn⟩ | ⟨table, n, hbound, hbind, hlocals, hn⟩
  · have hlocate : Eval.locate place (b.params.bind b.name args (evaluator call) m.store.next)
        (m.enter none) = .error (.error ((b.params.misfit b.name args fault).locate place)) n := by
      rw [Eval.locate, hbind]
    rw [Eval.bind_error hlocate]
    exact .misfit hbound hn
  · rw [Eval.bind_ok (Eval.locate_eq_ok.2 hbind)]
    exact ends_runNative hbound hlocals hn

/-- A call of a name that no function of the program has, and that is resolved to a builtin. -/
theorem ends_call (hb : b ∈ Builtin.all) (hf : f.Is b)
    (hfree : m.store.lookupFunction? scope name = none)
    (hresolve : Registry.standard.resolve name args.count = .ok f) :
    b.Ends options args place m.builder
      (call ⟨.standard, options⟩ (fuel + 1) name args scope place m) := by
  have htarget : target ⟨.standard, options⟩ m.store name args.count scope = .ok f := by
    rw [target, hfree]
    exact hresolve
  rw [call_target htarget]
  exact ends_invoke hb hf

/-- No function of a program is seen from a scope that was just opened on its own. -/
theorem lookupFunction?_enter (m : Machine) (name : String) :
    (m.enter none).store.lookupFunction? m.store.next name = none := by
  simp [Machine.enter, Store.lookupFunction?, Store.chain, Store.get?_enter]

/-- A call from a scope of its own. -/
theorem ends_callAlone (hb : b ∈ Builtin.all) (hf : f.Is b)
    (hresolve : Registry.standard.resolve name args.count = .ok f) :
    b.Ends options args place m.builder
      (callAlone ⟨.standard, options⟩ (fuel + 1) name args place m) := by
  rw [callAlone, Eval.inNewScope_apply]
  exact (ends_call hb hf (lookupFunction?_enter m name) hresolve).onMachine fun n => rfl

/-- A call from a scope of its own of a name that is not resolved. -/
theorem callAlone_unresolved {e : Error} (h : Registry.standard.resolve name args.count = .error e) :
    ∃ n, callAlone ⟨.standard, options⟩ (fuel + 1) name args place m =
      .error (.error (e.locate place)) n := by
  have htarget : target ⟨.standard, options⟩ (m.enter none).store name args.count m.store.next =
      .error e := by
    rw [target, lookupFunction?_enter]
    exact h
  rw [callAlone, Eval.inNewScope_apply, call_no_target htarget]
  exact ⟨_, rfl⟩

end Session

end StyleScript
