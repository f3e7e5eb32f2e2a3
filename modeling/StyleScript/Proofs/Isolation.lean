-- SUMMARY: Evaluation has no effect on scopes, so no evaluation depends on those before it.
import StyleScript.Proofs.Simulation
import StyleScript.Proofs.WellFormed

/-!
# Isolation

An evaluation leaves all scopes as they were, but not the machine: it has given out
numbers, and it has built values. No later evaluation can tell. One that starts on
the machine as it was and one that starts on the machine as it is run in step, where
each scope that the one opens has the number of the other's scope shifted by as many
numbers as were given out in between.
-/

namespace StyleScript

/-! ## Shifted numbers -/

/-- A number that is shifted by `d`, unless it is below `base`. -/
def shift (base d id : Nat) : Nat := if id < base then id else id + d

theorem shift_of_lt {base d id : Nat} (h : id < base) : shift base d id = id := if_pos h

theorem shift_of_le {base d id : Nat} (h : base ≤ id) : shift base d id = id + d :=
  if_neg (Nat.not_lt.2 h)

theorem shift_inj {base d a b : Nat} : shift base d a = shift base d b ↔ a = b := by
  unfold shift
  split <;> split <;> omega

/-- Scopes that differ in the numbers of other scopes only, which are shifted. -/
structure Scope.Shifted (base d : Nat) (sc sc' : Scope) : Prop where
  values : sc'.values = sc.values
  ancestors : sc'.ancestors = sc.ancestors.map (shift base d)
  functions : ∀ name, Option.Rel
    (Function.Alike (fun a b => b = shift base d a) fun run => ∃ b : Builtin, run = b.run)
    (sc.functions.get? name) (sc'.functions.get? name)

/-- Stores whose scopes differ in the numbers only, which are shifted from one to the
    other. -/
structure Store.Shifted (base d : Nat) (store store' : Store) : Prop where
  wellFormed : store.WellFormed
  base_le : base ≤ store.next
  next : store'.next = store.next + d
  scopes : ∀ id, Option.Rel (Scope.Shifted base d) (store.get? id) (store'.get? (shift base d id))

namespace Store.Shifted

variable {base d : Nat} {store store' : Store}

/-- A scope is in both stores or in neither. -/
theorem get?_cases (h : store.Shifted base d store') (id : ScopeId) :
    (store.get? id = none ∧ store'.get? (shift base d id) = none) ∨
      ∃ sc sc', store.get? id = some sc ∧ store'.get? (shift base d id) = some sc' ∧
        sc.Shifted base d sc' := by
  have hscope := h.scopes id
  generalize store.get? id = found at hscope ⊢
  generalize store'.get? (shift base d id) = found' at hscope ⊢
  cases hscope with
  | none => exact .inl ⟨rfl, rfl⟩
  | some hsc => exact .inr ⟨_, _, rfl, rfl, hsc⟩

theorem contains (h : store.Shifted base d store') (id : ScopeId) :
    store.contains id = store'.contains (shift base d id) := by
  unfold Store.contains
  rcases h.get?_cases id with ⟨hget, hget'⟩ | ⟨sc, sc', hget, hget', _⟩
  · rw [hget, hget']
  · rw [hget, hget']
    rfl

theorem locals (h : store.Shifted base d store') (id : ScopeId) :
    store.locals id = store'.locals (shift base d id) := by
  unfold Store.locals
  rcases h.get?_cases id with ⟨hget, hget'⟩ | ⟨sc, sc', hget, hget', hsc⟩
  · rw [hget, hget']
  · rw [hget, hget']
    exact hsc.values.symm

theorem chain (h : store.Shifted base d store') (id : ScopeId) :
    store'.chain (shift base d id) = (store.chain id).map (shift base d) := by
  unfold Store.chain
  rcases h.get?_cases id with ⟨hget, hget'⟩ | ⟨sc, sc', hget, hget', hsc⟩
  · rw [hget, hget']
    rfl
  · rw [hget, hget']
    exact congrArg (_ :: ·) hsc.ancestors

theorem lookup? (h : store.Shifted base d store') (id : ScopeId) :
    store.lookup? id = store'.lookup? (shift base d id) := by
  funext name
  unfold Store.lookup?
  rw [h.chain, List.findSome?_map]
  congr 1
  funext outer
  exact congrArg (·.get? name) (h.locals outer)

theorem lookupFunction? (h : store.Shifted base d store') (id : ScopeId) (name : String) :
    Option.Rel
      (Function.Alike (fun a b => b = shift base d a) fun run => ∃ b : Builtin, run = b.run)
      (store.lookupFunction? id name) (store'.lookupFunction? (shift base d id) name) := by
  unfold Store.lookupFunction?
  rw [h.chain]
  induction store.chain id with
  | nil => exact .none
  | cons outer chain ih =>
    rw [List.map_cons, List.findSome?_cons, List.findSome?_cons]
    rcases h.get?_cases outer with ⟨hget, hget'⟩ | ⟨sc, sc', hget, hget', hsc⟩
    · rw [hget, hget']
      exact ih
    · rw [hget, hget', Option.bind_some, Option.bind_some]
      have hfunction := hsc.functions name
      generalize sc.functions.get? name = f at hfunction
      generalize sc'.functions.get? name = g at hfunction
      cases hfunction with
      | none => exact ih
      | some halike => exact .some halike

-- What is done to both stores, to scopes with shifted numbers, keeps them together.

theorem update (h : store.Shifted base d store') (id : ScopeId) {f g : Scope → Scope}
    (hwf : (store.update id f).WellFormed)
    (hfg : ∀ sc sc' : Scope, sc.Shifted base d sc' → (f sc).Shifted base d (g sc')) :
    (store.update id f).Shifted base d (store'.update (shift base d id) g) where
  wellFormed := hwf
  base_le := h.base_le
  next := h.next
  scopes other := by
    rw [get?_update, get?_update]
    by_cases hid : other = id
    · rw [if_pos hid, if_pos (shift_inj.2 hid)]
      rcases h.get?_cases other with ⟨hget, hget'⟩ | ⟨sc, sc', hget, hget', hsc⟩
      · rw [hget, hget']
        exact .none
      · rw [hget, hget']
        exact .some (hfg sc sc' hsc)
    · rw [if_neg hid, if_neg (fun heq => hid (shift_inj.1 heq))]
      exact h.scopes other

theorem define (h : store.Shifted base d store') (id : ScopeId) (name : String) (v : Value) :
    (store.define id name v).Shifted base d (store'.define (shift base d id) name v) := by
  refine h.update id (h.wellFormed.define id name v) ?_
  intro sc sc' hsc
  exact ⟨by rw [hsc.values], hsc.ancestors, hsc.functions⟩

theorem defineFunction (h : store.Shifted base d store') (id : ScopeId) (definition : Definition) :
    (store.defineFunction id (.ofDefinition definition id)).Shifted base d
      (store'.defineFunction (shift base d id) (.ofDefinition definition (shift base d id))) := by
  refine h.update id (h.wellFormed.defineFunction id fun hlt => hlt) ?_
  intro sc sc' hsc
  refine ⟨hsc.values, hsc.ancestors, fun name => ?_⟩
  rw [NameTable.get?_insert, NameTable.get?_insert]
  change Option.Rel _ (if canonical name = canonical definition.name then _ else _)
    (if canonical name = canonical definition.name then _ else _)
  by_cases hname : canonical name = canonical definition.name
  · rw [if_pos hname, if_pos hname]
    exact .some (.written rfl)
  · rw [if_neg hname, if_neg hname]
    exact hsc.functions name

theorem next_shift (h : store.Shifted base d store') : store'.next = shift base d store.next := by
  rw [h.next, shift_of_le h.base_le]

theorem enter (h : store.Shifted base d store') (parent : Option ScopeId) :
    (store.enter parent).2.Shifted base d (store'.enter (parent.map (shift base d))).2 where
  wellFormed := h.wellFormed.enter parent
  base_le := h.base_le.trans (Nat.le_succ _)
  next := by
    change store'.next + 1 = store.next + 1 + d
    rw [h.next]
    exact Nat.add_right_comm store.next d 1
  scopes id := by
    rw [get?_enter, get?_enter, h.next_shift]
    by_cases hid : id = store.next
    · rw [if_pos hid, if_pos (shift_inj.2 hid)]
      refine .some ⟨rfl, ?_, fun _ => .none⟩
      cases parent with
      | none => rfl
      | some around => exact h.chain around
    · rw [if_neg hid, if_neg (fun heq => hid (shift_inj.1 heq))]
      exact h.scopes id

theorem leave (h : store.Shifted base d store') (id : ScopeId) :
    (store.leave id).Shifted base d (store'.leave (shift base d id)) where
  wellFormed := h.wellFormed.of_dropped le_rfl (store.get?_leave_or id)
  base_le := h.base_le
  next := h.next
  scopes other := by
    rw [get?_leave, get?_leave]
    by_cases hid : other = id
    · rw [if_pos hid, if_pos (shift_inj.2 hid)]
      exact .none
    · rw [if_neg hid, if_neg (fun heq => hid (shift_inj.1 heq))]
      exact h.scopes other

end Store.Shifted

/-! ## Runs in step -/

/-- Machines that differ in the numbers of scopes, which are shifted, and in how many
    values they have built. -/
structure Machine.Shifted (base d : Nat) (m n : Machine) : Prop where
  depth : m.depth = n.depth
  location : m.builder.location = n.builder.location
  store : m.store.Shifted base d n.store

/-- The code of a builtin builds the same on machines with one location. -/
private theorem agree_native {base d : Nat} {run : NativeCode} {m n : Machine} (call : Invocation)
    (location : Option Location) (report : Error → Error) (hrun : ∃ b : Builtin, run = b.run)
    (h : m.Shifted base d n) :
    let x := Eval.build (Build.stamped location (Build.mapError report (run call)))
    Outcome.Agree (Machine.Shifted base d) (fun _ => False) (x m) (x n) := by
  obtain ⟨b, rfl⟩ := hrun
  have hblind := Build.blind_stamped location (Build.blind_mapError report (b.blind_run call))
  have hgrown (k : Nat) : (m.withBuilder (m.builder.grow k)).Shifted base d
      (n.withBuilder (n.builder.grow k)) := ⟨h.depth, h.location, h.store⟩
  intro x
  unfold x Eval.build
  obtain ⟨k, ⟨a, hm, hn⟩ | ⟨e, hm, hn⟩⟩ := hblind m.builder n.builder h.location
  · rw [hm, hn]
    exact .ok (hgrown k)
  · rw [hm, hn]
    exact .error (hgrown k)

/-- Runs on machines whose numbers are shifted. -/
def Simulation.shifted (base d : Nat) : Simulation where
  scope a b := b = shift base d a
  state := Machine.Shifted base d
  code run := ∃ b : Builtin, run = b.run
  options := Eq
  excused _ := False
  overflow h hlt := absurd (congrArg Options.maxDepth h) (Nat.ne_of_lt hlt)
  locate _ := id
  depth h := h.depth
  withDepth _ h := ⟨rfl, h.location, h.store⟩
  location h := h.location
  grow _ h := ⟨h.depth, h.location, h.store⟩
  native {run o o' m n} call location report hrun ho h := by
    subst ho
    exact agree_native { call with options := o } location report hrun h
  lookup hscope h := hscope ▸ h.store.lookup? _
  locals hscope h := hscope ▸ h.store.locals _
  function name hscope h := hscope ▸ h.store.lookupFunction? _ name
  contains hscope h := hscope ▸ h.store.contains _
  define name v hscope h := ⟨h.depth, h.location, hscope ▸ h.store.define _ name v⟩
  defineFunction definition hscope h :=
    ⟨h.depth, h.location, hscope ▸ h.store.defineFunction _ definition⟩
  enter {a b m n} hparent h := by
    refine ⟨h.store.next_shift, h.depth, h.location, ?_⟩
    have hshift : b = a.map (shift base d) := by
      cases hparent with
      | none => rfl
      | some hscope => exact congrArg some hscope
    rw [hshift]
    exact h.store.enter a
  leave hscope h := ⟨h.depth, h.location, hscope ▸ h.store.leave _⟩

/-! ## One evaluation after another -/

/-- A builtin or a function that was defined below `base` is the same with shifted
    numbers. -/
private theorem alike_of_definedBelow {base d : Nat} {f : Function} (h : f.DefinedBelow base) :
    f.Alike (fun a b => b = shift base d a) (fun run => ∃ b : Builtin, run = b.run) f := by
  obtain ⟨name, params, body, overloaded⟩ := f
  cases body with
  | native run => exact .native h
  | written definition closure => exact .written (shift_of_lt h).symm

private theorem Scope.Below.shifted {base d : Nat} {sc : Scope} (h : sc.Below base) :
    sc.Shifted base d sc where
  values := rfl
  ancestors := by
    have hsame : sc.ancestors.map (shift base d) = sc.ancestors.map id :=
      List.map_congr_left fun outer hmem => shift_of_lt (h.ancestors outer hmem)
    rw [hsame, List.map_id]
  functions name := by
    cases hf : sc.functions.get? name with
    | none => exact .none
    | some f => exact .some (alike_of_definedBelow (h.functions name f hf))

/-- A machine and what an evaluation left of it differ in the numbers that were given
    out in between. -/
theorem Machine.Kept.shifted {m m' : Machine} (h : m.Kept m') (hm : m.store.WellFormed) :
    m.Shifted m.store.next (m'.store.next - m.store.next) m' where
  depth := h.depth.symm
  location := h.location.symm
  store :=
    { wellFormed := hm
      base_le := le_rfl
      next := (Nat.add_sub_cancel' h.next).symm
      scopes := by
        intro id
        by_cases hid : id < m.store.next
        · rw [shift_of_lt hid, h.scopes id hid]
          cases hget : m.store.get? id with
          | none => exact .none
          | some sc => exact .some (hm.scopes id sc hget).shifted
        · have hgone (other : ScopeId) (hother : ¬other < m.store.next) :
              m.store.get? other = none := by
            rw [Option.eq_none_iff_forall_ne_some]
            intro sc hget
            exact hother (hm.numbered other sc hget)
          have hlarge : ¬shift m.store.next (m'.store.next - m.store.next) id < m.store.next := by
            rw [shift_of_le (Nat.le_of_not_lt hid)]
            exact fun hlt => hid (lt_of_le_of_lt (Nat.le_add_right id _) hlt)
          rw [hgone id hid]
          rcases h.dropped (shift m.store.next (m'.store.next - m.store.next) id) with hsame | hnone
          · rw [hsame, hgone _ hlarge]
            exact .none
          · rw [hnone]
            exact .none }

namespace Session

variable {m m' : Machine}

/-- What an expression evaluates to is the same on a machine and on what an evaluation
    left of it. -/
theorem result_eval_of_kept (options : Options) (hkept : m.Kept m') (hm : m.store.WellFormed)
    (fuel : Nat) (e : Expr) {scope : ScopeId} (hscope : m.store.contains scope = true) :
    Outcome.result (eval ⟨.standard, options⟩ fuel e scope m') =
      Outcome.result (eval ⟨.standard, options⟩ fuel e scope m) := by
  have hresolve (name : String) (count : Nat) (f : Function)
      (hf : Registry.standard.resolve name count = .ok f) :
      f.Alike (fun a b => b = shift m.store.next (m'.store.next - m.store.next) a)
        (fun run => ∃ b : Builtin, run = b.run) f := by
    refine alike_of_definedBelow ?_
    obtain ⟨b, hbody⟩ := (Registry.isBuiltin_standard name f
      (Registry.mem_candidates_of_resolve hf)).code
    unfold Function.DefinedBelow
    rw [hbody]
    exact ⟨b, rfl⟩
  have hsame : scope = shift m.store.next (m'.store.next - m.store.next) scope :=
    (shift_of_lt (hm.lt_next hscope)).symm
  have hcall := Simulation.matches_call (S := .shifted m.store.next (m'.store.next - m.store.next))
    (s := ⟨.standard, options⟩) ⟨rfl, hresolve, rfl, le_rfl⟩ (.inl (rfl : fuel = fuel))
  have hagree := Simulation.matches_eval hcall hsame e m m' (hkept.shifted hm)
  unfold eval
  generalize e.eval (call ⟨.standard, options⟩ fuel) scope m = o at hagree ⊢
  generalize e.eval (call ⟨.standard, options⟩ fuel) scope m' = o' at hagree ⊢
  cases hagree with
  | ok _ => rfl
  | error _ => rfl
  | ahead hexcused => cases hexcused

end Session

/-! ## Effects on scopes -/

namespace Machine

variable {m m' : Machine}

/-- Every scope that was there has the variables and the functions that it had, and
    stands where it stood. -/
def Undisturbed (m m' : Machine) : Prop :=
  ∀ id, m.store.contains id = true → m'.store.get? id = m.store.get? id

/-- Of the scopes that were there one at most has changed, in some of its variables and
    in some of its functions. -/
structure WrittenAt (scope : ScopeId) (vars funs : List String) (m m' : Machine) : Prop where
  others : ∀ id, id ≠ scope → m.store.contains id = true → m'.store.get? id = m.store.get? id
  own : ∀ sc, m.store.get? scope = some sc →
    ∃ sc', m'.store.get? scope = some sc' ∧ sc.Edited (NamedIn vars) (NamedIn funs) sc'

theorem Kept.undisturbed (h : m.Kept m') (hm : m.store.WellFormed) : m.Undisturbed m' :=
  fun id hid => h.scopes id (hm.lt_next hid)

theorem Edited.writtenAt {scope : ScopeId} {vars funs : List String}
    (h : m.Edited scope (NamedIn vars) (NamedIn funs) m') (hm : m.store.WellFormed) :
    m.WrittenAt scope vars funs m' where
  others id hne hid := h.scopes id hne (hm.lt_next hid)
  own sc hget := h.own_before (hm.numbered scope sc hget) hget

end Machine

namespace Session

/-- Evaluating and calling leave every scope as it was, whatever they come to; running
    statements in a scope changes what they assign and define there. So no evaluation
    changes what another expression evaluates to. -/
theorem evaluation_leaves_scopes (options : Options) (m : Machine) (hm : m.store.WellFormed) :
    let s : Session := ⟨.standard, options⟩
    (∀ fuel e scope, m.Undisturbed (Outcome.machine (s.eval fuel e scope m))) ∧
    (∀ fuel name args scope location,
      m.Undisturbed (Outcome.machine (s.call fuel name args scope location m))) ∧
    (∀ fuel name args location,
      m.Undisturbed (Outcome.machine (s.callAlone fuel name args location m))) ∧
    (∀ fuel body scope, m.WrittenAt scope (Stmt.assigned body) (Stmt.defined body)
      (Outcome.machine (s.run fuel body scope m))) ∧
    (∀ fuel e scope fuel' e' scope', m.store.contains scope' = true →
      Outcome.result (s.eval fuel' e' scope' (Outcome.machine (s.eval fuel e scope m))) =
        Outcome.result (s.eval fuel' e' scope' m)) := by
  intro s
  refine ⟨?_, ?_, ?_, ?_, ?_⟩
  · intro fuel e scope
    exact (s.keeps_eval fuel e scope m).undisturbed hm
  · intro fuel name args scope location
    exact (s.keeps_call fuel name args scope location m).undisturbed hm
  · intro fuel name args location
    exact (s.keeps_callAlone fuel name args location m).undisturbed hm
  · intro fuel body scope
    exact (Stmt.edits_run (s.keeps_call fuel) scope body m).writtenAt hm
  · intro fuel e scope fuel' e' scope' hscope'
    exact result_eval_of_kept options (s.keeps_eval fuel e scope m) hm fuel' e' hscope'

/-- `@function f($y) { $x: $y; @return $x; }` -/
def assigning : Definition :=
  ⟨"f", ⟨[⟨"y", none⟩], none⟩,
    [.assign "x" (.variable "y" none), .result (.variable "x" none)], none⟩

/-- A workspace with one scope, in which `$x` is null and `assigning` is defined. -/
def assigningWorkspace : Workspace :=
  ((Workspace.fresh.run (Eval.define 0 "x" (.null none))).2.run
    (Eval.defineFunction 0 (.ofDefinition assigning 0))).2

private theorem reachable_assigningWorkspace (s : Session) :
    Workspace.Reachable s assigningWorkspace := by
  refine .defineFunction 0 assigning (show Workspace.scope? _ 0 = some 0 from rfl) ?_
  exact .define 0 "x" (.null none) .fresh

/-- `f(true)` assigns to the `$x` of its own scope, and the one around it stays null. -/
theorem assigning_leaves_scopes :
    let s : Session := ⟨.standard, .standard⟩
    let m := assigningWorkspace.machine
    let m' := Outcome.machine
      (s.eval 1 (.call "f" [.mk none (.literal (.bool true none))] none) 0 m)
    m.Undisturbed m' ∧
      Outcome.result (s.eval 1 (.variable "x" none) 0 m') =
        Outcome.result (s.eval 1 (.variable "x" none) 0 m) := by
  intro s m m'
  have hm : m.store.WellFormed := (reachable_assigningWorkspace s).wellFormed.store
  have hleaves := evaluation_leaves_scopes .standard m hm
  exact ⟨hleaves.1 _ _ _, hleaves.2.2.2.2 _ _ _ 1 (.variable "x" none) 0 rfl⟩

end Session

end StyleScript
