-- SUMMARY: Where the values that builtins give come from.
import StyleScript.Proofs.Bounded
import StyleScript.Proofs.BuiltinCalls

/-!
# Provenance

What a builtin gives is either a single value that it built, which has the place of the call,
or a value that it was given, with the place that this one had. Four builtins do the latter.
The items of a list that is built are values that were given, too, so they keep their places.

Main statement: what a call does to the builder and where its result comes from. Besides the
result only the list of a rest parameter is built.
-/

namespace StyleScript

/-! ## Bound values -/

namespace NameTable

/-- A value that a name has. -/
def Binds (t : NameTable Value) (v : Value) : Prop := ∃ name, t.get? name = some v

/-- A value that is bound, or an item of one that is. -/
def Reaches (t : NameTable Value) (v : Value) : Prop :=
  t.Binds v ∨ ∃ list, t.Binds list ∧ v ∈ list.items

/-- A value that a list can keep: one that is bound, an item of one, or an item of an item. -/
def Keeps (t : NameTable Value) (v : Value) : Prop :=
  t.Reaches v ∨ ∃ list, t.Reaches list ∧ v ∈ list.items

variable {t : NameTable Value} {v w : Value}

theorem Binds.keeps (h : t.Binds v) : t.Keeps v := .inl (.inl h)

theorem Binds.reaches_items (h : t.Binds v) (hw : w ∈ v.items) : t.Reaches w := .inr ⟨v, h, hw⟩

theorem Binds.keeps_items (h : t.Binds v) (hw : w ∈ v.items) : t.Keeps w :=
  .inl (h.reaches_items hw)

/-- `compact` looks one level deeper when it gets a single list. -/
theorem Binds.keeps_compactSource (h : t.Binds v) (hw : w ∈ Value.compactSource v.items) :
    t.Keeps w := by
  unfold Value.compactSource at hw
  split at hw
  · rename_i items separator l hitems
    have hlist : t.Reaches (.list items separator l) := by
      refine h.reaches_items ?_
      rw [hitems]
      exact List.mem_singleton_self _
    exact .inr ⟨_, hlist, hw⟩
  · exact h.keeps_items hw

end NameTable

theorem Invocation.binds_arg (call : Invocation) (parameter : String) :
    GivesOnly call.bound.Binds (call.arg parameter) := by
  intro v hv
  unfold Invocation.arg at hv
  cases hget : call.bound.get? parameter with
  | some w =>
    rw [hget] at hv
    cases hv
    exact ⟨parameter, hget⟩
  | none =>
    rw [hget] at hv
    cases hv

/-! ## Answers -/

/-- An answer with a new value, all of whose items were given, or, if it may, with a value that
    was given. -/
inductive Answer.ComesFrom (bound : NameTable Value) (mayPass : Prop) : Answer → Prop where
  | fresh {value : Option Location → Value} :
    (∀ l, (value l).location = l) →
    (∀ l items separator, (value l).asList = .ok (items, separator) →
      ∀ item ∈ items, bound.Keeps item) →
    ComesFrom bound mayPass (.fresh value)
  | given {v : Value} : mayPass → bound.Reaches v → ComesFrom bound mayPass (.given v)

namespace Answer

variable {bound : NameTable Value} {mayPass : Prop}

theorem comesFrom_color (c : Color Float) : (color c).ComesFrom bound mayPass :=
  .fresh (fun _ => rfl) nofun

theorem comesFrom_number (n : Number) : (number n).ComesFrom bound mayPass :=
  .fresh (fun _ => rfl) nofun

theorem comesFrom_bool (b : Bool) : (bool b).ComesFrom bound mayPass :=
  .fresh (fun _ => rfl) nofun

theorem comesFrom_string (content : String) (quoted : Bool) :
    ComesFrom bound mayPass (.fresh (.string content quoted)) :=
  .fresh (fun _ => rfl) nofun

theorem comesFrom_list {items : List Value} (h : ∀ item ∈ items, bound.Keeps item)
    (separator : Separator) : (list items separator).ComesFrom bound mayPass := by
  refine .fresh (fun _ => rfl) ?_
  rintro l _ _ ⟨⟩
  exact h

end Answer

namespace Builtin

/-- The names of the builtins that can give back what they were given. -/
def passing : List String := ["nth", "if", "quote", "unquote"]

/-- A builtin whose answers are new, unless it is one that can give back what it was given. -/
def Traced (b : Builtin) : Prop :=
  ∀ call : Invocation,
    GivesOnly (Answer.ComesFrom call.bound (b.name ∈ passing)) (b.answer call)

variable {name signature : String}

theorem traced_ofColor (color : Invocation → Except Error (Color Float)) :
    (ofColor name signature color).Traced :=
  fun _ => givesOnly_map (P := fun _ => True) (fun _ _ => trivial) fun c _ =>
    Answer.comesFrom_color c

theorem traced_ofNumber (number : Invocation → Except Error Number) :
    (ofNumber name signature number).Traced :=
  fun _ => givesOnly_map (P := fun _ => True) (fun _ _ => trivial) fun n _ =>
    Answer.comesFrom_number n

theorem traced_ofBool (bool : Invocation → Except Error Bool) :
    (ofBool name signature bool).Traced :=
  fun _ => givesOnly_map (P := fun _ => True) (fun _ _ => trivial) fun b _ =>
    Answer.comesFrom_bool b

theorem traced_onChannels : ∀ b ∈ onChannels, b.Traced := by
  simp only [onChannels, List.forall_mem_cons, List.not_mem_nil, IsEmpty.forall_iff, implies_true,
    and_true]
  exact ⟨traced_ofColor _, traced_ofColor _, traced_ofColor _, traced_ofNumber _,
    traced_ofNumber _, traced_ofNumber _, traced_ofColor _, traced_ofColor _, traced_ofNumber _,
    traced_ofNumber _, traced_ofColor _, traced_ofColor _, traced_ofColor _, traced_ofColor _⟩

theorem traced_onHsl : ∀ b ∈ onHsl, b.Traced := by
  simp only [onHsl, List.forall_mem_cons, List.not_mem_nil, IsEmpty.forall_iff, implies_true,
    and_true]
  exact ⟨traced_ofColor _, traced_ofColor _, traced_ofNumber _, traced_ofNumber _,
    traced_ofNumber _, traced_ofColor _, traced_ofColor _, traced_ofColor _, traced_ofColor _,
    traced_ofColor _, traced_ofColor _, traced_ofColor _⟩

theorem traced_onComponents : ∀ b ∈ onComponents, b.Traced := by
  simp only [onComponents, List.forall_mem_cons, List.not_mem_nil, IsEmpty.forall_iff,
    implies_true, and_true]
  exact ⟨traced_ofColor _, traced_ofColor _⟩

theorem traced_onQuantities : ∀ b ∈ onQuantities, b.Traced := by
  have hunit : unit.Traced := fun call =>
    givesOnly_of_forall fun n => givesOnly_pure (Answer.comesFrom_string n.units.text true)
  simp only [onQuantities, List.forall_mem_cons, List.not_mem_nil, IsEmpty.forall_iff,
    implies_true, and_true]
  exact ⟨traced_ofNumber _, traced_ofNumber _, traced_ofNumber _, traced_ofNumber _,
    traced_ofNumber _, hunit, traced_ofBool _, traced_ofBool _⟩

theorem traced_nth : nth.Traced := by
  intro call
  refine givesOnly_bind (call.binds_arg "list") fun list hlist => ?_
  refine givesOnly_of_forall fun n => ?_
  dsimp only
  generalize (if n.isInteger then (Binary64.nearestInt? n.value).getD 0 else 0) = position
  split
  · exact givesOnly_error _
  · split
    · rename_i v hitem
      exact givesOnly_pure (.given (by decide) (hlist.reaches_items (mem_of_itemAt? hitem)))
    · exact givesOnly_error _

theorem traced_onLists : ∀ b ∈ onLists, b.Traced := by
  have hjoin : join.Traced := fun call =>
    givesOnly_bind (call.binds_arg "list-1") fun first hfirst =>
      givesOnly_bind (call.binds_arg "list-2") fun second hsecond =>
        givesOnly_of_forall fun _ => givesOnly_pure <| by
          rw [Value.jointItems_eq]
          exact Answer.comesFrom_list (List.forall_mem_append.2
            ⟨fun _ => hfirst.keeps_items, fun _ => hsecond.keeps_items⟩) _
  have happend : append.Traced := fun call =>
    givesOnly_bind (call.binds_arg "list") fun list hlist =>
      givesOnly_bind (call.binds_arg "val") fun v hv =>
        givesOnly_of_forall fun _ => givesOnly_pure (Answer.comesFrom_list
          (List.forall_mem_append.2
            ⟨fun _ => hlist.keeps_items, List.forall_mem_singleton.2 hv.keeps⟩) _)
  have hcompact : compact.Traced := fun call =>
    givesOnly_bind (call.binds_arg "values") fun values hvalues =>
      givesOnly_pure (Answer.comesFrom_list
        (fun _ hitem => hvalues.keeps_compactSource (List.mem_of_mem_filter hitem)) _)
  simp only [onLists, List.forall_mem_cons, List.not_mem_nil, IsEmpty.forall_iff, implies_true,
    and_true]
  exact ⟨traced_ofNumber _, traced_nth, hjoin, happend, hcompact⟩

theorem traced_onValues : ∀ b ∈ onValues, b.Traced := by
  have hunquote : unquote.Traced := fun call =>
    givesOnly_bind (call.binds_arg "string") fun v hv => by
      split
      · exact givesOnly_pure (Answer.comesFrom_string _ false)
      · exact givesOnly_pure (.given (by decide) (.inl hv))
  have hquote : quote.Traced := fun call =>
    givesOnly_bind (call.binds_arg "string") fun v hv => by
      split
      · exact givesOnly_pure (.given (by decide) (.inl hv))
      · exact givesOnly_pure (Answer.comesFrom_string _ true)
      · exact givesOnly_pure (Answer.comesFrom_string _ true)
  have htypeOf : typeOf.Traced := fun call =>
    givesOnly_of_forall fun v => givesOnly_pure (Answer.comesFrom_string v.typeName.text false)
  have hchoose : choose.Traced := fun call =>
    givesOnly_of_forall fun _ =>
      givesOnly_bind (call.binds_arg _) fun v hv =>
        givesOnly_pure (.given (by decide) (.inl hv))
  simp only [onValues, List.forall_mem_cons, List.not_mem_nil, IsEmpty.forall_iff, implies_true,
    and_true]
  exact ⟨hunquote, hquote, htypeOf, traced_ofBool _, hchoose⟩

/-- The answers of all builtins are traced. -/
theorem traced : ∀ b ∈ all, b.Traced := by
  simp only [all, List.forall_mem_append]
  exact ⟨⟨⟨⟨⟨traced_onChannels, traced_onHsl⟩, traced_onComponents⟩, traced_onQuantities⟩,
    traced_onLists⟩, traced_onValues⟩

end Builtin

/-! ## Calls -/

namespace Session

/-- A call of a builtin that comes to a value. The arguments are bound, for which a rest
    parameter takes a list. Then the builtin either builds a single value, which is the result,
    has the place of the call and, if it is a list, keeps items as they were given; or it builds
    nothing and the result is bound, or an item of what is bound, as it was given. -/
theorem call_stamps_or_passes (options : Options) (fuel : Nat) (name : String) (args : Args)
    (scope : ScopeId) (place : Option Location) (m : Machine) {f : Function} {v : Value} {n : Machine}
    (hfree : m.store.lookupFunction? scope name = none)
    (hresolve : Registry.standard.resolve name args.count = .ok f)
    (hcall : call ⟨.standard, options⟩ (fuel + 1) name args scope place m = .ok v n) :
    ∃ b ∈ Builtin.all, canonical b.name = canonical name ∧ f.Is b ∧ ∃ after outside,
      f.params.bind f.name args (evaluator (call ⟨.standard, options⟩ fuel)) m.store.next
        (m.enter none) = .ok () after ∧
      after.builder = m.builder.grow f.params.rest.toList.length ∧
      let bound := after.store.locals m.store.next
      let run := b.run ⟨b.name, bound, outside, place, options⟩
      ((∃ value, run = Build.make value ∧ v = value place) ∧ n.builder = after.builder.grow 1 ∧
          v.location = place ∧
          (∀ items separator, v.asList = .ok (items, separator) → ∀ item ∈ items, bound.Keeps item) ∨
        run = pure v ∧ n.builder = after.builder ∧
          b.name ∈ ["nth", "if", "quote", "unquote"] ∧ bound.Reaches v) := by
  obtain ⟨b, hb, hname, hf⟩ := Registry.exists_of_resolve hresolve
  refine ⟨b, hb, hname, hf, ?_⟩
  have hends : b.Ends options args place m.builder
      (call ⟨.standard, options⟩ (fuel + 1) name args scope place m) :=
    ends_call hb hf hfree hresolve
  rw [hcall] at hends
  cases hends with
  | @answered table outside answer _ hbound hanswer hn =>
    rcases Builtin.bind_enter hb args (evaluator (call ⟨.standard, options⟩ fuel)) m with
      ⟨fault, after, hmisfit, _, _⟩ | ⟨own, after, hown, hbind, hlocals, hafter⟩
    · rw [hbound] at hmisfit
      cases hmisfit
    · obtain rfl : own = table := Except.ok.inj (hown.symm.trans hbound)
      subst hlocals
      rw [hf.params, hf.name]
      refine ⟨after, outside, hbind, hafter, ?_⟩
      rw [← hafter] at hn
      have hrun : b.run ⟨b.name, after.store.locals m.store.next, outside, place, options⟩ =
          answer.build := by
        rw [Builtin.run, hanswer]
        rfl
      cases Builtin.traced b hb _ answer hanswer with
      | fresh hlocation hitems =>
        exact .inl ⟨⟨_, hrun, rfl⟩, hn, hlocation place, hitems place⟩
      | given hpasses hreaches => exact .inr ⟨hrun, hn, hpasses, hreaches⟩

/-- A list is built for the arguments of `compact` and one for its result. The number in it is
    where it was written. -/
theorem compact_stamps_list :
    let s : Session := ⟨.standard, .standard⟩
    let m := Machine.fresh.enter none
    let here : Option Location := some ⟨"main.scss", 3⟩
    let one : Value := .number (.unitless 1) (some ⟨"main.scss", 1⟩)
    let args : Args := ⟨[.list [one, .null none] .space none], []⟩
    ∃ f n, ∃ after : Machine, m.store.lookupFunction? 0 "compact" = none ∧
      Registry.standard.resolve "compact" args.count = .ok f ∧
      s.call 1 "compact" args 0 here m = .ok (.list [one] .space here) n ∧
      after.builder = m.builder.grow 1 ∧ n.builder = after.builder.grow 1 ∧
      (after.store.locals m.store.next).Keeps one := by
  intro s m here one args
  have hparams : Builtin.compact.params = ⟨[], some "values"⟩ := by
    have hread : Builtin.compact.params.fixed.length = 0 ∧
        Builtin.compact.params.rest = some "values" := by
      decide +kernel
    obtain ⟨hfixed, hrest⟩ := hread
    rw [← hrest, ← List.eq_nil_of_length_eq_zero hfixed]
  obtain ⟨f, hresolve, hf⟩ := Registry.exists_resolve (b := Builtin.compact)
    (by simp [Builtin.all, Builtin.onLists]) (by decide) args.count
  have hfree : m.store.lookupFunction? 0 "compact" = none := rfl
  have hbound : Builtin.compact.params.bound args m.builder.location =
      .ok (NameTable.empty.insertAll [("values", .list args.positional .comma none)]) := by
    rw [hparams]
    rfl
  have hanswer (call : Invocation) (hcall : call.bound =
      NameTable.empty.insertAll [("values", .list args.positional .comma none)]) :
      Builtin.compact.answer call = .ok (.list [one] .space) := by
    have harg : call.arg "values" = .ok (.list args.positional .comma none) :=
      Invocation.arg_of_insertAll hcall (List.nodup_singleton _) List.mem_cons_self
    change (call.arg "values" >>= _) = _
    rw [harg]
    rfl
  have hends : Builtin.compact.Ends s.options args here m.builder
      (s.call 1 "compact" args 0 here m) :=
    ends_call (by simp [Builtin.all, Builtin.onLists]) hf hfree hresolve
  obtain ⟨outside, n, hcall⟩ := hends.of_bound hbound
  rw [hanswer _ rfl] at hcall
  obtain ⟨b, _, hname, _, after, _, _, hafter, hresult⟩ :=
    call_stamps_or_passes .standard 0 "compact" args 0 here m hfree hresolve hcall
  rw [hf.params, hparams] at hafter
  refine ⟨f, n, after, hfree, hresolve, hcall, hafter, ?_⟩
  rcases hresult with ⟨_, hn, _, hitems⟩ | ⟨_, _, hpasses, _⟩
  · exact ⟨hn, hitems [one] .space rfl one List.mem_cons_self⟩
  · -- `compact` is none of those that pass values on
    have hother : ∀ name ∈ ["nth", "if", "quote", "unquote"],
        canonical name ≠ canonical "compact" := by
      decide
    exact absurd hname (hother b.name hpasses)

end Session

end StyleScript
