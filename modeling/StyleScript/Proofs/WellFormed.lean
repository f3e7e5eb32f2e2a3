-- SUMMARY: Stores refer to scopes by numbers that were given out, and all work on them keeps it so.
import StyleScript.Workspace
import StyleScript.Proofs.Builtins
import StyleScript.Proofs.Requests

/-!
# Well-formed stores

A store gives out numbers in order. In a well-formed store everything refers to
numbers that were given out: the scopes that are there, the scopes around them, and
the scopes that their functions were defined in. So a scope that is opened later is
never mistaken for one that something referred to before.

The store of a fresh workspace is well-formed, and each step of a host program keeps
it so.
-/

namespace StyleScript

/-- A function that was defined in a scope with a number below `next`, unless it runs
    the code of a builtin. -/
def Function.DefinedBelow (next : ScopeId) (f : Function) : Prop :=
  match f.body with
  | .native run => ∃ b : Builtin, run = b.run
  | .written _ closure => closure < next

/-- A scope that refers to numbers below `next` only. -/
structure Scope.Below (next : ScopeId) (sc : Scope) : Prop where
  ancestors : ∀ outer ∈ sc.ancestors, outer < next
  functions : ∀ name f, sc.functions.get? name = some f → f.DefinedBelow next

/-- A store in which only numbers occur that were given out. -/
structure Store.WellFormed (store : Store) : Prop where
  numbered : ∀ id sc, store.get? id = some sc → id < store.next
  scopes : ∀ id sc, store.get? id = some sc → sc.Below store.next

theorem Function.DefinedBelow.mono {next next' : ScopeId} {f : Function} (h : f.DefinedBelow next)
    (hle : next ≤ next') : f.DefinedBelow next' := by
  obtain ⟨name, params, body, overloaded⟩ := f
  cases body with
  | native run => exact h
  | written d closure => exact Nat.lt_of_lt_of_le h hle

theorem Scope.Below.mono {next next' : ScopeId} {sc : Scope} (h : sc.Below next)
    (hle : next ≤ next') : sc.Below next' :=
  ⟨fun outer hmem => (h.ancestors outer hmem).trans_le hle,
    fun name f hf => (h.functions name f hf).mono hle⟩

/-! ## Stores -/

namespace Store

variable {store store' : Store}

theorem WellFormed.lt_next (h : store.WellFormed) {id : ScopeId} (hid : store.contains id = true) :
    id < store.next := by
  obtain ⟨sc, hget⟩ := Option.isSome_iff_exists.1 hid
  exact h.numbered id sc hget

theorem wellFormed_empty : empty.WellFormed := ⟨nofun, nofun⟩

/-- Dropping scopes leaves a store well-formed. -/
theorem WellFormed.of_dropped (h : store.WellFormed) (hnext : store.next ≤ store'.next)
    (hdropped : ∀ id, store'.get? id = store.get? id ∨ store'.get? id = none) :
    store'.WellFormed := by
  have hsame (id : ScopeId) (sc : Scope) (hget : store'.get? id = some sc) :
      store.get? id = some sc := by
    rcases hdropped id with hid | hid
    · rwa [hid] at hget
    · rw [hid] at hget
      cases hget
  exact ⟨fun id sc hget => (h.numbered id sc (hsame id sc hget)).trans_le hnext,
    fun id sc hget => (h.scopes id sc (hsame id sc hget)).mono hnext⟩

/-- Changing one scope leaves a store well-formed when the scope refers to given
    numbers only afterwards. -/
theorem WellFormed.update (h : store.WellFormed) (scope : ScopeId) {f : Scope → Scope}
    (hf : ∀ sc : Scope, sc.Below store.next → scope < store.next → (f sc).Below store.next) :
    (store.update scope f).WellFormed where
  numbered id sc hget := by
    rw [get?_update] at hget
    split at hget
    · obtain ⟨old, hold, _⟩ := Option.map_eq_some_iff.1 hget
      exact h.numbered id old hold
    · exact h.numbered id sc hget
  scopes id sc hget := by
    rw [get?_update] at hget
    split at hget
    · rename_i hid
      subst hid
      obtain ⟨old, hold, rfl⟩ := Option.map_eq_some_iff.1 hget
      exact hf old (h.scopes id old hold) (h.numbered id old hold)
    · exact h.scopes id sc hget

theorem WellFormed.define (h : store.WellFormed) (scope : ScopeId) (name : String) (v : Value) :
    (store.define scope name v).WellFormed :=
  h.update scope fun _ hsc _ => ⟨hsc.ancestors, hsc.functions⟩

theorem WellFormed.defineFunction (h : store.WellFormed) (scope : ScopeId) {f : Function}
    (hf : scope < store.next → f.DefinedBelow store.next) :
    (store.defineFunction scope f).WellFormed := by
  refine h.update scope fun sc hsc hscope => ⟨hsc.ancestors, fun name g hg => ?_⟩
  rw [NameTable.get?_insert] at hg
  split at hg
  · cases hg
    exact hf hscope
  · exact hsc.functions name g hg

theorem WellFormed.chain (h : store.WellFormed) {scope id : ScopeId} (hid : id ∈ store.chain scope) :
    id < store.next := by
  unfold Store.chain at hid
  split at hid
  · rename_i sc hget
    rcases List.mem_cons.1 hid with rfl | hmem
    · exact h.numbered id sc hget
    · exact (h.scopes scope sc hget).ancestors id hmem
  · cases hid

theorem WellFormed.enter (h : store.WellFormed) (parent : Option ScopeId) :
    (store.enter parent).2.WellFormed where
  numbered id sc hget := by
    rw [get?_enter] at hget
    split at hget
    · rename_i hid
      rw [hid]
      exact Nat.lt_succ_self _
    · exact (h.numbered id sc hget).trans (Nat.lt_succ_self _)
  scopes id sc hget := by
    rw [get?_enter] at hget
    split at hget
    · cases hget
      refine ⟨fun outer hmem => ?_, nofun⟩
      cases parent with
      | none => cases hmem
      | some around => exact (h.chain hmem).trans (Nat.lt_succ_self _)
    · exact (h.scopes id sc hget).mono (Nat.le_succ _)

theorem WellFormed.retain (h : store.WellFormed) (held : List ScopeId) :
    (store.retain held).WellFormed :=
  h.of_dropped le_rfl (store.get?_retain_or held)

end Store

/-! ## Evaluation -/

/-- A machine whose store is well-formed if that of another machine is, which has given
    out no more numbers. -/
structure Machine.Grown (m m' : Machine) : Prop where
  next : m.store.next ≤ m'.store.next
  wellFormed : m.store.WellFormed → m'.store.WellFormed

instance : IsPreorder Machine Machine.Grown where
  refl _ := ⟨le_rfl, id⟩
  trans _ _ _ hab hbc := ⟨hab.next.trans hbc.next, fun h => hbc.wellFormed (hab.wellFormed h)⟩

theorem Machine.Kept.grown {m m' : Machine} (h : m.Kept m') : m.Grown m' :=
  ⟨h.next, fun hm => hm.of_dropped h.next h.dropped⟩

theorem Machine.grown_define (m : Machine) (scope : ScopeId) (name : String) (v : Value) :
    m.Grown (m.define scope name v) :=
  ⟨le_rfl, fun h => h.define scope name v⟩

/-- A request leaves a store well-formed: a function that is defined in a scope refers to
    that scope. -/
theorem Request.grown_after (s : Session) (fuel : Nat) (m : Machine) (r : Request) :
    m.Grown (r.after s fuel m) := by
  have hcall : (s.call fuel).StaysWithin Machine.Grown :=
    s.staysWithin_of_kept fuel (fun _ _ h => h.grown) Machine.grown_define
      (fun _ scope _ => ⟨le_rfl, fun h => h.defineFunction scope id⟩) fun _ _ => ⟨le_rfl, id⟩
  refine preserves_after hcall (fun name args location => ?_) m r
  exact (s.keeps_callAlone fuel name args location).mono fun _ _ h => h.grown

/-! ## Workspaces -/

namespace Workspace

/-- The workspaces that a host program can come to with a session. It opens and
    releases scopes, writes to scopes, builds values, and has the session evaluate. A
    function that it defines refers to a scope that it holds. -/
inductive Reachable (s : Session) : Workspace → Prop where
  | fresh : Reachable s .fresh
  | hold {w} (parent : Option ScopeId) : Reachable s w → Reachable s (w.hold parent)
  | release {w} (handle : Nat) : Reachable s w → Reachable s (w.release handle)
  | build {w} {α : Type} (x : Build α) : Reachable s w → Reachable s (w.run (Eval.build x)).2
  | define {w} (scope : ScopeId) (name : String) (v : Value) :
    Reachable s w → Reachable s (w.run (Eval.define scope name v)).2
  | defineFunction {w} (scope : ScopeId) (d : Definition) {handle closure} :
    w.scope? handle = some closure → Reachable s w →
    Reachable s (w.run (Eval.defineFunction scope (.ofDefinition d closure))).2
  | bind {w} (p : Params) (function : String) (args : Args) (fuel : Nat) (scope : ScopeId) :
    Reachable s w → Reachable s (w.run (p.bind function args (s.eval fuel) scope)).2
  | eval {w} (fuel : Nat) (e : Expr) (scope : ScopeId) :
    Reachable s w → Reachable s (w.run (s.eval fuel e scope)).2
  | call {w} (fuel : Nat) (name : String) (args : Args) (scope : ScopeId)
    (location : Option Location) :
    Reachable s w → Reachable s (w.run (s.call fuel name args scope location)).2
  | callAlone {w} (fuel : Nat) (name : String) (args : Args) (location : Option Location) :
    Reachable s w → Reachable s (w.run (s.callAlone fuel name args location)).2
  | run {w} (fuel : Nat) (body : List Stmt) (scope : ScopeId) :
    Reachable s w → Reachable s (w.run (s.run fuel body scope)).2
  | runBody {w} (fuel : Nat) (d : Definition) (scope : ScopeId) :
    Reachable s w → Reachable s (w.run (s.runBody fuel d scope)).2

/-- A workspace with a well-formed store, which holds scopes with given numbers. -/
structure WellFormed (w : Workspace) : Prop where
  store : w.machine.store.WellFormed
  handles : ∀ id, some id ∈ w.handles → id < w.machine.store.next

variable {w : Workspace}

theorem WellFormed.hold (h : w.WellFormed) (parent : Option ScopeId) : (w.hold parent).WellFormed where
  store := h.store.enter parent
  handles id hid := by
    rcases List.mem_append.1 hid with hold | hnew
    · exact (h.handles id hold).trans (Nat.lt_succ_self _)
    · cases List.mem_singleton.1 hnew
      exact Nat.lt_succ_self _

theorem WellFormed.release (h : w.WellFormed) (handle : Nat) : (w.release handle).WellFormed where
  store := h.store.retain _
  handles id hid := by
    rcases List.mem_or_eq_of_mem_set hid with hold | hnone
    · exact h.handles id hold
    · cases hnone

theorem WellFormed.run {α : Type} {x : Eval α} (h : w.WellFormed)
    (hx : w.machine.Grown (Outcome.machine (x w.machine))) : (w.run x).2.WellFormed := by
  unfold Workspace.run
  cases hrun : x w.machine with
  | ok a m =>
    rw [hrun] at hx
    exact ⟨hx.wellFormed h.store, fun id hid => (h.handles id hid).trans_le hx.next⟩
  | error e m =>
    rw [hrun] at hx
    exact ⟨hx.wellFormed h.store, fun id hid => (h.handles id hid).trans_le hx.next⟩

/-- Whatever a host program does, its store stays well-formed. -/
theorem Reachable.wellFormed {s : Session} (h : Reachable s w) : w.WellFormed := by
  induction h with
  | fresh =>
    have hempty : (⟨.fresh, []⟩ : Workspace).WellFormed := ⟨Store.wellFormed_empty, nofun⟩
    exact hempty.hold none
  | hold parent _ ih => exact ih.hold parent
  | release handle _ ih => exact ih.release handle
  | build x _ ih =>
    refine ih.run ?_
    unfold Eval.build
    split
    · exact ⟨le_rfl, id⟩
    · exact ⟨le_rfl, id⟩
  | define scope name v _ ih => exact ih.run (Machine.grown_define _ scope name v)
  | defineFunction scope d hhandle _ ih =>
    refine ih.run ⟨le_rfl, fun hstore => hstore.defineFunction scope fun _ => ?_⟩
    have hheld := Option.join_eq_some_iff.1 hhandle
    exact ih.handles _ (List.mem_of_getElem? hheld)
  | bind p function args fuel scope _ ih =>
    exact ih.run (Request.grown_after s fuel _ (.bind p function args scope))
  | eval fuel e scope _ ih => exact ih.run (Request.grown_after s fuel _ (.eval e scope))
  | call fuel name args scope location _ ih =>
    exact ih.run (Request.grown_after s fuel _ (.call name args scope location))
  | callAlone fuel name args location _ ih =>
    exact ih.run (Request.grown_after s fuel _ (.callAlone name args location))
  | run fuel body scope _ ih => exact ih.run (Request.grown_after s fuel _ (.run body scope))
  | runBody fuel d scope _ ih => exact ih.run (Request.grown_after s fuel _ (.runBody d scope))

end Workspace

end StyleScript
