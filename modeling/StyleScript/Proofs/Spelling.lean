-- SUMMARY: The parameters of a signature differ as they are written, but two can be one name.
import StyleScript.Proofs.Grammar
import StyleScript.Proofs.Overloads

/-!
# Spellings of parameters

A signature is refused when a parameter is written twice. Names are compared as they are
written there, while a scope knows them by their canonical spelling, so `$a-b` and `$a_b`
may both be parameters of one signature although they are one variable. Binding goes
through the parameters in order, and of those that are one variable the last one leaves
its value.

So the parameters of a signature keep their own values through every binding exactly
when their canonical spellings are distinct, which reading does not see to.
-/

namespace StyleScript

namespace Params

/-- What the parameter at a position gets from positional arguments: its argument, else its
    literal default. The rest parameter stands behind the others and gets the list of the
    arguments that are left. -/
def own? (p : Params) (vs : List Value) (location : Option Location) (i : Nat) : Option Value :=
  match p.fixed[i]?, vs[i]? with
  | some _, some v => some v
  | some ⟨_, some (.literal v)⟩, none => some v
  | some _, none => none
  | none, _ => some (.list (vs.drop p.fixed.length) .comma location)

/-- A machine on which positional arguments were bound to parameters in a scope. -/
def BoundPositional (p : Params) (vs : List Value) (scope : ScopeId) (m' : Machine) : Prop :=
  ∃ (s : Session) (fuel : Nat) (function : String) (m : Machine),
    scope < m.store.next ∧ m.store.contains scope = true ∧
      p.bind function ⟨vs, []⟩ (s.eval fuel) scope m = .ok () m'

variable {p : Params} {vs : List Value} {scope : ScopeId} {m m' : Machine} {i : Nat}

/-- The names of the parameters are at their positions, and that of the rest parameter is
    behind them. -/
theorem getElem?_names {name : String} (h : p.names[i]? = some name) :
    (∃ param, p.fixed[i]? = some param ∧ param.name = name) ∨
      i = p.fixed.length ∧ p.rest = some name := by
  unfold names at h
  rcases Nat.lt_or_ge i p.fixed.length with hlt | hge
  · rw [List.getElem?_append_left (by simpa using hlt), List.getElem?_map] at h
    exact .inl (Option.map_eq_some_iff.1 h)
  · rw [List.getElem?_append_right (by simpa using hge), List.length_map] at h
    cases hrest : p.rest with
    | none => simp [hrest] at h
    | some rest =>
      simp only [hrest, Option.toList_some, List.getElem?_singleton] at h
      split at h
      · cases h
        exact .inr ⟨by omega, rfl⟩
      · cases h

theorem names_of_fixed {param : Param} (h : p.fixed[i]? = some param) :
    p.names[i]? = some param.name := by
  have hlt := (List.getElem?_eq_some_iff.1 h).1
  rw [names, List.getElem?_append_left (by simpa using hlt), List.getElem?_map, h, Option.map_some]

theorem names_of_rest {rest : String} (h : p.rest = some rest) :
    p.names[p.fixed.length]? = some rest := by
  simp [names, h]

/-- What a slot of positional arguments gets is what its parameter gets. -/
theorem own?_of_value? (hp : p.LiteralDefaults) {evaluate : Evaluator} {slot : Slot}
    (hslot : (Slot.positional p.fixed vs)[i]? = some slot) {v : Value} {n : Machine}
    (hvalue : slot.value? evaluate scope m = .ok (some v) n) (location : Option Location) :
    p.own? vs location i = some v := by
  rw [Slot.getElem?_positional] at hslot
  obtain ⟨param, hparam, rfl⟩ := Option.map_eq_some_iff.1 hslot
  obtain ⟨name, default⟩ := param
  unfold own?
  rcases Slot.value?_eq_ok hvalue with ⟨hgiven, _⟩ | ⟨hgiven, hdefault, _⟩ |
    ⟨e, _, hdefault, hliteral, _⟩
  · simp_all
  · simp_all
  · obtain ⟨u, rfl⟩ := hp _ (List.mem_of_getElem? hparam) e hdefault
    exact absurd rfl (hliteral u)

/-- The last one of the parameters that are one variable leaves its value. -/
theorem BoundPositional.last (hp : p.LiteralDefaults) (h : p.BoundPositional vs scope m')
    {name : String} (hname : p.names[i]? = some name)
    (hlast : ∀ j other, i < j → p.names[j]? = some other → ¬SameName other name) :
    m'.store.local? scope name = p.own? vs m'.builder.location i := by
  obtain ⟨s, fuel, function, m, hnext, hscope, hbind⟩ := h
  obtain ⟨slots, n, hplace, hfill, hcomplete⟩ := bind_eq_ok hbind
  obtain rfl : Slot.positional p.fixed vs = slots := Except.ok.inj (place_eq_ok hplace).2
  obtain ⟨stage, hstages, rfl, rfl⟩ := Slot.stages_of_fill hfill
  have hleaves : Evaluator.Leaves (s.eval fuel) scope := s.leaves_evaluator fuel scope
  have hend := (hstages.alive hleaves hnext hscope le_rfl).2
  rcases getElem?_names hname with ⟨param, hparam, rfl⟩ | ⟨rfl, hrest⟩
  · obtain ⟨slot, hslot, rfl⟩ := slot_of_fixed hplace hparam
    have hi : i < (Slot.positional p.fixed vs).length := (List.getElem?_eq_some_iff.1 hslot).1
    obtain ⟨hnext', hscope'⟩ := hstages.alive hleaves hnext hscope hi.le
    obtain ⟨_, _, v, n, hvalue, _, hlocal⟩ := hstages.step hleaves hslot hnext' hscope'
    have hunwritten := hstages.unwritten hleaves hnext hscope (Nat.succ_le_of_lt hi) le_rfl
      fun j other hij _ hother =>
        hlast j _ hij (names_of_fixed (fixed_of_slot hplace hother))
    have hrest (rest : String) (hrest : p.rest = some rest) : ¬SameName rest slot.param.name := by
      have hbehind := (List.getElem?_eq_some_iff.1 hparam).1
      exact hlast _ rest hbehind (names_of_rest hrest)
    rw [own?_of_value? hp hslot hvalue, local?_complete hcomplete hend hrest, hunwritten, hlocal,
      if_pos rfl]
  · rcases (complete_eq_ok hcomplete).2 with ⟨hnone, _⟩ | ⟨rest, hrest', rfl⟩
    · rw [hnone] at hrest
      cases hrest
    · rw [hrest] at hrest'
      cases hrest'
      have hlocal := Store.local?_define hend name name
        (.list (vs.drop p.fixed.length) .comma (stage (Slot.positional p.fixed vs).length).builder.location)
      rw [if_pos rfl] at hlocal
      refine hlocal.trans ?_
      unfold own?
      rw [List.getElem?_eq_none le_rfl]
      rfl

/-- An argument for every parameter but the rest parameter can always be bound. -/
theorem binds_of_length_eq (hp : p.LiteralDefaults) (h : vs.length = p.fixed.length) :
    p.Binds ⟨vs, []⟩ := by
  have haccepts : p.accepts vs.length = true := by
    have hrequired : p.required ≤ p.fixed.length := List.countP_le_length
    unfold accepts most
    cases p.rest <;> simp [h, hrequired]
  rw [hp.binds_positional_iff haccepts]
  rintro ⟨_, j, _, late, _, hj, _, _, hlate, _⟩
  have hlt := (List.getElem?_eq_some_iff.1 hlate).1
  omega

/-- Arguments of which only the one at a position is true. -/
def only (p : Params) (j : Nat) : List Value :=
  (List.range p.fixed.length).map fun k => .bool (k == j) none

theorem getElem?_only {j k : Nat} (hk : k < p.fixed.length) :
    (p.only j)[k]? = some (.bool (k == j) none) := by
  simp [only, hk]

/-- With these arguments the parameter at the position gets something else than those
    before it. -/
theorem own?_only_ne {j : Nat} (hij : i < j) {name : String} (hj : p.names[j]? = some name)
    (location : Option Location) :
    p.own? (p.only j) location i ≠ p.own? (p.only j) location j := by
  have hown {k : Nat} {param : Param} (hparam : p.fixed[k]? = some param) :
      p.own? (p.only j) location k = some (.bool (k == j) none) := by
    have hlt := (List.getElem?_eq_some_iff.1 hparam).1
    simp only [own?, hparam, getElem?_only hlt]
  have hbefore (hlt : i < p.fixed.length) :
      p.own? (p.only j) location i = some (.bool false none) := by
    rw [hown (List.getElem?_eq_getElem hlt), beq_false_of_ne hij.ne]
  rcases getElem?_names hj with ⟨param, hparam, _⟩ | ⟨rfl, _⟩
  · rw [hbefore (hij.trans (List.getElem?_eq_some_iff.1 hparam).1), hown hparam]
    simp
  · rw [hbefore hij]
    simp [own?]

/-- Parameters with literal defaults keep their own values through every binding of
    positional arguments exactly when no two of them are one variable. -/
theorem canonical_nodup_iff (hp : p.LiteralDefaults) :
    (p.names.map canonical).Nodup ↔
      ∀ vs scope m', p.BoundPositional vs scope m' → ∀ i name, p.names[i]? = some name →
        m'.store.local? scope name = p.own? vs m'.builder.location i := by
  constructor
  · intro hnodup vs scope m' hbound i name hname
    refine hbound.last hp hname fun j other hij hother hsame => ?_
    have hlt : j < (p.names.map canonical).length := by
      simpa using (List.getElem?_eq_some_iff.1 hother).1
    refine List.nodup_iff_getElem?_ne_getElem?.1 hnodup i j hij hlt ?_
    rw [List.getElem?_map, List.getElem?_map, hname, hother]
    exact congrArg some hsame.symm
  · intro hkeeps
    rw [List.nodup_iff_getElem?_ne_getElem?]
    intro i j hij hlt hsame
    rw [List.length_map] at hlt
    have hi := List.getElem?_eq_getElem (hij.trans hlt)
    have hj := List.getElem?_eq_getElem hlt
    rw [List.getElem?_map, List.getElem?_map, hi, hj] at hsame
    have hbinds : p.Binds ⟨p.only j, []⟩ := binds_of_length_eq hp (by simp [only])
    obtain ⟨m', hbind⟩ := hbinds "" (Session.eval ⟨.empty, .standard⟩ 0) 0 (Machine.fresh.enter none)
    have hbound : p.BoundPositional (p.only j) 0 m' :=
      ⟨⟨.empty, .standard⟩, 0, "", _, Nat.one_pos, rfl, hbind⟩
    refine own?_only_ne hij hj m'.builder.location ?_
    rw [← hkeeps _ _ _ hbound i _ hi, ← hkeeps _ _ _ hbound j _ hj]
    -- a scope looks at the canonical spelling only
    unfold Store.local? NameTable.get?
    rw [Option.some.inj hsame]

end Params

namespace Signature

/-- No parameter of a signature is written twice. -/
theorem names_nodup_of_read {text : String} {b b' : Builder} {p : Params}
    (h : read text b = .ok p b') : p.names.Nodup := by
  obtain ⟨_, _, _, _, hsignature⟩ := read_eq_ok_iff.1 ⟨b', h⟩
  cases hsignature with
  | empty => exact List.nodup_nil
  | params _ hnodup => exact hnodup

/-- The parameters of a signature are distinct as they are written. After positional
    arguments were bound, of those that are one variable the last one has its value, and
    so all of them keep their own values through every binding exactly when their
    canonical spellings are distinct. -/
theorem read_distinguishes_spellings {text : String} {b b' : Builder} {p : Params}
    (h : read text b = .ok p b') :
    p.names.Nodup ∧
    (∀ vs scope m', p.BoundPositional vs scope m' → ∀ i name, p.names[i]? = some name →
      (∀ j other, i < j → p.names[j]? = some other → ¬SameName other name) →
        m'.store.local? scope name = p.own? vs m'.builder.location i) ∧
    ((p.names.map canonical).Nodup ↔
      ∀ vs scope m', p.BoundPositional vs scope m' → ∀ i name, p.names[i]? = some name →
        m'.store.local? scope name = p.own? vs m'.builder.location i) := by
  have hp : p.LiteralDefaults := literalDefaults_read text b b' p h
  refine ⟨names_nodup_of_read h, ?_, Params.canonical_nodup_iff hp⟩
  intro vs scope m' hbound i name hname hlast
  exact hbound.last hp hname hlast

/-- `$a-b, $a_b` -/
def twoSpellings : Params := ⟨[⟨"a-b", none⟩, ⟨"a_b", none⟩], none⟩

/-- `$a-b, $a_b` is a signature of two parameters that are one variable. -/
theorem read_twoSpellings : read "$a-b, $a_b" .fresh = .ok twoSpellings .fresh := by
  have htokens : Signature.tokens "$a-b, $a_b" =
      .ok [⟨.variable "a-b", 1⟩, ⟨.comma, 5⟩, ⟨.variable "a_b", 7⟩, ⟨.done, 11⟩] := by decide +kernel
  rw [read, htokens]
  rfl

/-- Its parameters are written differently, and do not keep their own values. -/
theorem twoSpellings_not_kept :
    read "$a-b, $a_b" .fresh = .ok twoSpellings .fresh ∧ twoSpellings.names.Nodup ∧
      ¬∀ vs scope m', twoSpellings.BoundPositional vs scope m' →
        ∀ i name, twoSpellings.names[i]? = some name →
          m'.store.local? scope name = twoSpellings.own? vs m'.builder.location i := by
  obtain ⟨hnames, _, hkept⟩ := read_distinguishes_spellings read_twoSpellings
  have hsame : ¬(twoSpellings.names.map canonical).Nodup := by decide
  exact ⟨read_twoSpellings, hnames, fun h => hsame (hkept.2 h)⟩

/-- Bound to `true, false`, the first one is false as well. -/
theorem twoSpellings_overwritten :
    ∃ p b' m', read "$a-b, $a_b" .fresh = .ok p b' ∧ ¬(p.names.map canonical).Nodup ∧
      p.BoundPositional [.bool true none, .bool false none] 0 m' ∧
      p.own? [.bool true none, .bool false none] m'.builder.location 0 = some (.bool true none) ∧
      m'.store.local? 0 "a-b" = some (.bool false none) := by
  let s : Session := ⟨.standard, .standard⟩
  let m := Machine.fresh.enter none
  let x := twoSpellings.bind "f" ⟨[.bool true none, .bool false none], []⟩ (s.eval 0) 0
  have hbind : x m = .ok () (Outcome.machine (x m)) := by rfl
  refine ⟨twoSpellings, .fresh, Outcome.machine (x m), read_twoSpellings, by decide, ?_, rfl, rfl⟩
  exact ⟨s, 0, "f", m, Nat.one_pos, rfl, hbind⟩

end Signature

end StyleScript
