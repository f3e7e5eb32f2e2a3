-- SUMMARY: In interpreted programs no function outlives the scope that it was defined in.
import StyleScript.Workspace
import StyleScript.Proofs.Recursion
import StyleScript.Proofs.Requests
import StyleScript.Proofs.Targets

/-!
# Closures

A function refers to the scope that it was defined in by number, and the reference does
not keep the scope. Yet as long as functions are only defined in the scope that they
refer to, no reference is ever left dangling: whoever finds a function has found the
scope that has it, and that is the scope that the function refers to.

This takes that every scope on the way outward is there. Scopes are rooted: with a scope
all scopes around it are in the store, those around a scope are around every scope inside
it, and each function refers to its own scope. A host program keeps scopes rooted by
whatever it does with its handles, and so does a run at every moment, although the scopes
of its calls go when the calls end.
-/

namespace StyleScript

/-! ## Rooted stores -/

namespace Store

/-- A store with all scopes that are on the way outward, in which each function refers to
    the scope that has it. -/
structure Rooted (store : Store) : Prop where
  numbered : ∀ id, store.contains id = true → id < store.next
  stored : ∀ scope, ∀ id ∈ store.chain scope, store.contains id = true
  outward : ∀ scope, ∀ id ∈ store.chain scope, store.chain id ⊆ store.chain scope
  functions : store.Holds fun id f => ∃ d, f.body = .written d id

variable {store store' : Store} {scope id : ScopeId}

theorem mem_chain_self : id ∈ store.chain id ↔ store.contains id = true := by
  unfold chain contains
  cases store.get? id <;> simp

theorem chain_of_get? {sc : Scope} (h : store.get? id = some sc) :
    store.chain id = id :: sc.ancestors := by
  simp only [chain, h]

theorem contains_congr (h : store'.chain id = store.chain id) :
    store'.contains id = store.contains id := by
  rw [Bool.eq_iff_iff, ← mem_chain_self, ← mem_chain_self, h]

/-- The way outward does not depend on the names that scopes have. -/
theorem chain_congr (h : (store'.get? id).map Scope.ancestors = (store.get? id).map Scope.ancestors) :
    store'.chain id = store.chain id := by
  unfold chain
  cases hget : store.get? id <;> cases hget' : store'.get? id <;> simp_all

theorem chain_update {f : Scope → Scope} (hf : ∀ sc, (f sc).ancestors = sc.ancestors) :
    (store.update scope f).chain id = store.chain id := by
  apply chain_congr
  rw [get?_update]
  split
  · simp [Function.comp_def, hf]
  · rfl

theorem chain_enter_next (parent : Option ScopeId) :
    (store.enter parent).2.chain store.next =
      store.next :: (parent.map store.chain).getD [] := by
  have hget := get?_enter store parent store.next
  rw [if_pos rfl] at hget
  exact chain_of_get? hget

theorem contains_enter_next (store : Store) (parent : Option ScopeId) :
    (store.enter parent).2.contains store.next = true := by
  rw [← mem_chain_self, chain_enter_next]
  exact List.mem_cons_self

theorem chain_enter_of_ne (parent : Option ScopeId) (h : id ≠ store.next) :
    (store.enter parent).2.chain id = store.chain id := by
  apply chain_congr
  rw [get?_enter, if_neg h]

theorem chain_retain {held : List ScopeId} (h : id ∈ held.flatMap store.chain) :
    (store.retain held).chain id = store.chain id := by
  apply chain_congr
  rw [get?_retain, if_pos h]

/-- The scopes that are left are those that are held, and those around them. -/
theorem mem_of_mem_chain_retain {held : List ScopeId}
    (h : id ∈ (store.retain held).chain scope) : scope ∈ held.flatMap store.chain := by
  by_contra hgone
  have hget := get?_retain store held scope
  rw [if_neg hgone] at hget
  simp only [chain, hget, List.not_mem_nil] at h

namespace Rooted

/-- Writing to scopes leaves them rooted, as long as each function refers to its own one. -/
theorem of_chain (h : store.Rooted) (hnext : store.next ≤ store'.next)
    (hchain : ∀ id, store'.chain id = store.chain id)
    (hfunctions : store'.Holds fun id f => ∃ d, f.body = .written d id) : store'.Rooted where
  numbered id hid := by
    rw [contains_congr (hchain id)] at hid
    exact (h.numbered id hid).trans_le hnext
  stored scope id hid := by
    rw [contains_congr (hchain id)]
    exact h.stored scope id (hchain scope ▸ hid)
  outward scope id hid := by
    rw [hchain scope] at hid ⊢
    rw [hchain id]
    exact h.outward scope id hid
  functions := hfunctions

theorem ne_next (h : store.Rooted) (hid : store.contains id = true) : id ≠ store.next :=
  (h.numbered id hid).ne

/-- The scopes around a new one are those from its parent outward. -/
theorem around_new (h : store.Rooted) {parent : Option ScopeId}
    (hid : id ∈ (parent.map store.chain).getD []) :
    store.contains id = true ∧ store.chain id ⊆ (parent.map store.chain).getD [] := by
  cases parent with
  | none => cases hid
  | some outer => exact ⟨h.stored outer id hid, h.outward outer id hid⟩

theorem contains_enter (h : store.Rooted) (parent : Option ScopeId)
    (hid : store.contains id = true) : (store.enter parent).2.contains id = true := by
  rw [contains_congr (chain_enter_of_ne parent (h.ne_next hid))]
  exact hid

theorem enter (h : store.Rooted) (parent : Option ScopeId) : (store.enter parent).2.Rooted where
  numbered id hid := by
    by_cases hnew : id = store.next
    · exact hnew ▸ Nat.lt_succ_self _
    · rw [contains_congr (chain_enter_of_ne parent hnew)] at hid
      exact (h.numbered id hid).trans (Nat.lt_succ_self _)
  stored scope id hid := by
    by_cases hnew : scope = store.next
    · subst hnew
      rw [chain_enter_next] at hid
      rcases List.mem_cons.1 hid with rfl | hmem
      · exact contains_enter_next store parent
      · exact h.contains_enter parent (h.around_new hmem).1
    · rw [chain_enter_of_ne parent hnew] at hid
      exact h.contains_enter parent (h.stored scope id hid)
  outward scope id hid := by
    by_cases hnew : scope = store.next
    · subst hnew
      rw [chain_enter_next] at hid
      rcases List.mem_cons.1 hid with rfl | hmem
      · exact List.Subset.refl _
      · obtain ⟨hstored, hsub⟩ := h.around_new hmem
        rw [chain_enter_next, chain_enter_of_ne parent (h.ne_next hstored)]
        exact List.subset_cons_of_subset _ hsub
    · rw [chain_enter_of_ne parent hnew] at hid ⊢
      rw [chain_enter_of_ne parent (h.ne_next (h.stored scope id hid))]
      exact h.outward scope id hid
  functions := h.functions.enter parent

/-- What is outward from a scope that stays, stays. -/
theorem mem_kept (h : store.Rooted) {held : List ScopeId}
    (hscope : scope ∈ held.flatMap store.chain) (hid : id ∈ store.chain scope) :
    id ∈ held.flatMap store.chain := by
  obtain ⟨holder, hholder, hmem⟩ := List.mem_flatMap.1 hscope
  exact List.mem_flatMap.2 ⟨holder, hholder, h.outward holder scope hmem hid⟩

theorem contains_retain (h : store.Rooted) {held : List ScopeId}
    (hid : id ∈ held.flatMap store.chain) : (store.retain held).contains id = true := by
  obtain ⟨holder, _, hmem⟩ := List.mem_flatMap.1 hid
  rw [contains_congr (chain_retain hid)]
  exact h.stored holder id hmem

theorem retain (h : store.Rooted) (held : List ScopeId) : (store.retain held).Rooted where
  numbered id hid := by
    have hkept := mem_of_mem_chain_retain (mem_chain_self.2 hid)
    rw [contains_congr (chain_retain hkept)] at hid
    exact h.numbered id hid
  stored scope id hid := by
    have hkept := mem_of_mem_chain_retain hid
    rw [chain_retain hkept] at hid
    exact h.contains_retain (h.mem_kept hkept hid)
  outward scope id hid := by
    have hkept := mem_of_mem_chain_retain hid
    rw [chain_retain hkept] at hid ⊢
    rw [chain_retain (h.mem_kept hkept hid)]
    exact h.outward scope id hid
  functions := h.functions.retain held

end Rooted

end Store

/-! ## Runs keep scopes rooted -/

/-- If scopes are rooted on a machine, they are on another one, which has them all. -/
def Machine.Shelters (m m' : Machine) : Prop :=
  m.store.Rooted → m'.store.Rooted ∧ ∀ id, m.store.contains id = true → m'.store.contains id = true

instance : IsPreorder Machine Machine.Shelters where
  refl _ h := ⟨h, fun _ => id⟩
  trans _ _ _ hab hbc ha := by
    obtain ⟨hb, hstored⟩ := hab ha
    exact ⟨(hbc hb).1, fun id hid => (hbc hb).2 id (hstored id hid)⟩

namespace Machine

variable {m m' : Machine} {scope : ScopeId}

theorem Shelters.of_chain (hnext : m.store.next ≤ m'.store.next)
    (hchain : m.store.Rooted → ∀ id, m'.store.chain id = m.store.chain id)
    (hfunctions : m.store.Rooted → m'.store.Holds fun id f => ∃ d, f.body = .written d id) :
    m.Shelters m' := by
  intro h
  refine ⟨h.of_chain hnext (hchain h) (hfunctions h), fun id hid => ?_⟩
  rw [Store.contains_congr (hchain h id)]
  exact hid

/-- Of scopes that were not given out a machine has none, before and after. -/
private theorem get?_of_not_lt (h : m.store.Rooted) {id : ScopeId} (hid : ¬id < m.store.next)
    (hdropped : m'.store.get? id = m.store.get? id ∨ m'.store.get? id = none) :
    m'.store.get? id = m.store.get? id := by
  rcases hdropped with hsame | hgone
  · exact hsame
  · rw [hgone]
    symm
    rw [Option.eq_none_iff_forall_ne_some]
    intro sc hget
    exact hid (h.numbered id (by rw [Store.contains, hget]; rfl))

/-- An evaluation keeps scopes rooted: it leaves them all as they are. -/
theorem Kept.shelters (h : m.Kept m') : m.Shelters m' := by
  -- the scopes of calls came and went in between, with numbers that were new
  have hget (hm : m.store.Rooted) (id : ScopeId) : m'.store.get? id = m.store.get? id := by
    by_cases hid : id < m.store.next
    · exact h.scopes id hid
    · exact get?_of_not_lt hm hid (h.dropped id)
  refine .of_chain h.next (fun hm id => ?_) fun hm => hm.functions.of_dropped h.dropped
  exact Store.chain_congr (by rw [hget hm id])

theorem shelters_define (m : Machine) (scope : ScopeId) (name : String) (v : Value) :
    m.Shelters (m.define scope name v) :=
  .of_chain le_rfl (fun _ _ => Store.chain_update fun _ => rfl)
    fun hm => hm.functions.define scope name v

/-- A function that is defined refers to the scope that it is defined in. -/
theorem shelters_defineFunction (m : Machine) (scope : ScopeId) (d : Definition) :
    m.Shelters (m.defineFunction scope (.ofDefinition d scope)) :=
  .of_chain le_rfl (fun _ _ => Store.chain_update fun _ => rfl)
    fun hm => hm.functions.defineFunction ⟨d, rfl⟩

theorem shelters_enter (m : Machine) (parent : Option ScopeId) : m.Shelters (m.enter parent) :=
  fun hm => ⟨hm.enter parent, fun _ => hm.contains_enter parent⟩

end Machine

open Eval

namespace Session

variable {s : Session}

/-- No part of a program leaves scopes unrooted. -/
theorem shelters_call (s : Session) (fuel : Nat) : (s.call fuel).StaysWithin Machine.Shelters :=
  s.staysWithin_of_kept fuel (fun _ _ h => h.shelters) Machine.shelters_define
    Machine.shelters_defineFunction fun _ _ hm => ⟨hm, fun _ => id⟩

/-- Before a task is started scopes stay rooted, and the scope of the task is there. -/
theorem Starts.shelters {k : Nat} {t t' : Task} {m m' : Machine} (h : s.Starts k t m t' m') :
    m.Shelters m' ∧
      (m.store.Rooted → m.store.contains t.scope = true → m'.store.contains t'.scope = true) := by
  rcases h.change with ⟨_, hscope, hwrite⟩ | ⟨_, _, _, f, _, _, _, hscope, hopen⟩
  · -- within a scope: what was evaluated kept the machine, and at most one name was written
    have hshelters : m.Shelters m' := by
      rcases hwrite with hkept | ⟨n, name, v, hkept, rfl⟩ | ⟨d, rfl⟩
      · exact hkept.shelters
      · exact trans_of Machine.Shelters hkept.shelters (n.shelters_define _ name v)
      · exact m.shelters_defineFunction _ d
    exact ⟨hshelters, fun hm hstored => hscope ▸ (hshelters hm).2 _ hstored⟩
  · -- a call: its scope was opened, and stays until the call is over
    have hentered : (m.enter f.body.around).Shelters m' := by
      rcases hopen with ⟨_, rfl⟩ | ⟨_, fuel, n, hbind, _, rfl⟩
      · exact refl_of Machine.Shelters _
      · have hbound : (m.enter f.body.around).Shelters n :=
          ((s.shelters_call fuel).bind f.params f.name _ _).of_ok hbind
        exact hbound
    refine ⟨trans_of Machine.Shelters (m.shelters_enter _) hentered, fun hm _ => ?_⟩
    rw [hscope]
    exact (hentered (hm.enter _)).2 _ (Store.contains_enter_next _ _)

end Session

/-! ## Requests -/

namespace Request

variable {s : Session} {r : Request} {m m' : Machine} {t : Task} {n : Nat}

theorem Begins.shelters (h : r.Begins s m n t m') :
    m.Shelters m' ∧ (m.store.Rooted → (∀ id ∈ r.scope?, m.store.contains id = true) →
      m'.store.contains t.scope = true) := by
  cases h with
  | eval | run | call | bind => exact ⟨refl_of _ m, fun _ hscope => hscope _ rfl⟩
  | runBody => exact ⟨fun hm => ⟨hm, fun _ => id⟩, fun _ hscope => hscope _ rfl⟩
  | callAlone =>
    exact ⟨m.shelters_enter none, fun _ _ => Store.contains_enter_next m.store none⟩

/-- At every moment scopes are rooted, and those of the tasks that are under way are there,
    as are all that were there before. -/
theorem Moment.shelters {active : List ScopeId} (h : r.Moment s m n active t m')
    (hm : m.store.Rooted) (hscope : ∀ id ∈ r.scope?, m.store.contains id = true) :
    m'.store.Rooted ∧ (∀ id, m.store.contains id = true → m'.store.contains id = true) ∧
      m'.store.contains t.scope = true ∧ ∀ id ∈ active, m'.store.contains id = true := by
  induction h with
  | first hbegins =>
    obtain ⟨hshelters, htask⟩ := hbegins.shelters
    obtain ⟨hm', hstored⟩ := hshelters hm
    refine ⟨hm', hstored, htask hm hscope, ?_⟩
    rintro id hid
    rw [List.mem_singleton.1 hid]
    exact htask hm hscope
  | next _ hstart ih =>
    obtain ⟨hm₁, hstored₁, htask₁, hactive⟩ := ih
    obtain ⟨hshelters, htask⟩ := hstart.shelters
    obtain ⟨hm', hstored⟩ := hshelters hm₁
    have htask' := htask hm₁ htask₁
    refine ⟨hm', fun id hid => hstored id (hstored₁ id hid), htask', ?_⟩
    rintro id hid
    rcases List.mem_cons.1 hid with rfl | hmem
    · exact htask'
    · exact hstored id (hactive id hmem)

end Request

/-! ## Workspaces -/

namespace Workspace

/-- The scopes that are held. -/
def held (w : Workspace) : List ScopeId := w.handles.filterMap id

/-- A workspace with rooted scopes, all of whose handles are to scopes that are there. -/
structure Rooted (w : Workspace) : Prop where
  store : w.machine.store.Rooted
  held : ∀ id ∈ w.held, w.machine.store.contains id = true

variable {w : Workspace}

theorem Rooted.hold (h : w.Rooted) (parent : Option ScopeId) : (w.hold parent).Rooted where
  store := h.store.enter parent
  held id hid := by
    have hhandles : (w.hold parent).held = w.held ++ [w.machine.store.next] := by
      simp [Workspace.held, Workspace.hold, Store.enter]
    rw [hhandles] at hid
    rcases List.mem_append.1 hid with hold | hnew
    · exact h.store.contains_enter parent (h.held id hold)
    · rw [List.mem_singleton.1 hnew]
      exact Store.contains_enter_next w.machine.store parent

theorem Rooted.release (h : w.Rooted) (handle : Nat) : (w.release handle).Rooted where
  store := h.store.retain _
  held id hid := by
    have hbefore : id ∈ w.held := by
      obtain ⟨_, hmem, rfl⟩ := List.mem_filterMap.1 hid
      rcases List.mem_or_eq_of_mem_set hmem with hold | hnone
      · exact List.mem_filterMap.2 ⟨_, hold, rfl⟩
      · cases hnone
    refine h.store.contains_retain (List.mem_flatMap.2 ⟨id, hid, ?_⟩)
    exact Store.mem_chain_self.2 (h.held id hbefore)

end Workspace

end StyleScript
