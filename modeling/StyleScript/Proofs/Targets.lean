-- SUMMARY: What is true of all functions that scopes and registries have is true of those that calls reach.
import StyleScript.Proofs.Builtins
import StyleScript.Proofs.Writes

/-!
# Targets

A call reaches a function of a scope, or a candidate of the registry. So what is true
of all of those is true of what a call reaches, at every moment of a program: a scope
that is opened has no functions, and the only ones that statements put into scopes are
those of their definitions.

What is said of a function may depend on the scope that has it.
-/

namespace StyleScript

/-- Of every function that a scope of the store has, `P` is true with the scope. -/
def Store.Holds (store : Store) (P : ScopeId → Function → Prop) : Prop :=
  ∀ id sc name f, store.get? id = some sc → sc.functions.get? name = some f → P id f

/-- If a function is a builtin, its code is of the given kind. -/
def Function.Runs (code : NativeCode → Prop) (f : Function) : Prop :=
  ∀ run, f.body = .native run → code run

/-- The builtins that scopes have run code of the given kind. -/
def Store.Runs (store : Store) (code : NativeCode → Prop) : Prop :=
  store.Holds fun _ f => f.Runs code

theorem Function.runs_ofDefinition (code : NativeCode → Prop) (d : Definition) (closure : ScopeId) :
    (Function.ofDefinition d closure).Runs code := nofun

/-! ## Stores -/

namespace Store

variable {store store' : Store} {P : ScopeId → Function → Prop}

theorem Holds.of_dropped (h : store.Holds P)
    (hdropped : ∀ id, store'.get? id = store.get? id ∨ store'.get? id = none) : store'.Holds P := by
  intro id sc name f hget hf
  rcases hdropped id with hsame | hgone
  · exact h id sc name f (hsame ▸ hget) hf
  · rw [hgone] at hget
    cases hget

theorem Holds.leave (h : store.Holds P) (id : ScopeId) : (store.leave id).Holds P :=
  h.of_dropped (store.get?_leave_or id)

theorem Holds.retain (h : store.Holds P) (held : List ScopeId) : (store.retain held).Holds P :=
  h.of_dropped (store.get?_retain_or held)

theorem Holds.enter (h : store.Holds P) (parent : Option ScopeId) : (store.enter parent).2.Holds P := by
  intro id sc name f hget hf
  rw [get?_enter] at hget
  split at hget
  · cases hget
    cases hf
  · exact h id sc name f hget hf

theorem Holds.define (h : store.Holds P) (scope : ScopeId) (name : String) (v : Value) :
    (store.define scope name v).Holds P := by
  intro id sc other f hget hf
  rw [Store.define, get?_update] at hget
  split at hget
  · obtain ⟨old, hold, rfl⟩ := Option.map_eq_some_iff.1 hget
    exact h id old other f hold hf
  · exact h id sc other f hget hf

theorem Holds.defineFunction (h : store.Holds P) {scope : ScopeId} {f : Function} (hf : P scope f) :
    (store.defineFunction scope f).Holds P := by
  intro id sc name g hget hg
  rw [Store.defineFunction, get?_update] at hget
  split at hget
  · rename_i hid
    obtain ⟨old, hold, rfl⟩ := Option.map_eq_some_iff.1 hget
    rw [NameTable.get?_insert] at hg
    split at hg
    · cases hg
      rw [hid]
      exact hf
    · exact h id old name g hold hg
  · exact h id sc name g hget hg

/-- A function that is found from a scope is one of a scope on the way outward. -/
theorem lookupFunction?_eq_some {scope : ScopeId} {name : String} {f : Function}
    (h : store.lookupFunction? scope name = some f) :
    ∃ id ∈ store.chain scope, ∃ sc, store.get? id = some sc ∧ sc.functions.get? name = some f := by
  obtain ⟨id, hid, hfound⟩ := List.exists_of_findSome?_eq_some h
  exact ⟨id, hid, Option.bind_eq_some_iff.1 hfound⟩

theorem Holds.of_lookup (h : store.Holds P) {scope : ScopeId} {name : String} {f : Function}
    (hf : store.lookupFunction? scope name = some f) : ∃ id ∈ store.chain scope, P id f := by
  obtain ⟨id, hid, sc, hget, hfound⟩ := lookupFunction?_eq_some hf
  exact ⟨id, hid, h id sc name f hget hfound⟩

end Store

/-! ## Calls -/

namespace Session

variable {s : Session} {store : Store} {name : String} {count : Nat} {scope : ScopeId} {f : Function}

/-- A call reaches a function that is found from its scope, or a candidate of its name. -/
theorem target_eq_ok (h : s.target store name count scope = .ok f) :
    store.lookupFunction? scope name = some f ∨ f ∈ s.registry.candidates name := by
  unfold target at h
  cases hlookup : store.lookupFunction? scope name with
  | some g =>
    rw [hlookup] at h
    cases h
    exact .inl rfl
  | none =>
    rw [hlookup] at h
    exact .inr (Registry.mem_candidates_of_resolve h)

/-- What a call reaches runs code of a given kind, when all that scopes and the registry
    have does. -/
theorem runs_target {code : NativeCode → Prop}
    (hregistry : s.registry.Holds (Function.Runs code)) (hstore : store.Runs code)
    (h : s.target store name count scope = .ok f) : f.Runs code := by
  rcases target_eq_ok h with hfound | hcandidate
  · obtain ⟨_, _, hruns⟩ := hstore.of_lookup hfound
    exact hruns
  · exact hregistry name f hcandidate

end Session

end StyleScript
