-- SUMMARY: What evaluation leaves as it was: every scope, the depth and the current location.
import Mathlib.Order.Nat
import StyleScript.Proofs.Building
import StyleScript.Proofs.Calls

/-!
# Frame

Evaluating an expression keeps the machine: all scopes that were there have what
they had, as many bodies are being run as before, and the same location is
current. Running statements in a scope edits the machine at that scope only, and
only at the names that the statements write. Both hold on every way out,
whether the computation gives a result, fails or runs out of fuel.

A call writes to its own scope alone, and that scope is gone when the call is
over: this is why an evaluation, however many calls it makes, keeps everything.
-/

namespace StyleScript

/-! ## Kept machines and edited machines -/

/-- Two names with one canonical spelling. -/
def SameName (a b : String) : Prop := canonical a = canonical b

/-- A scope after writes to some variables and some functions. -/
structure Scope.Edited (vars funs : String → Prop) (sc sc' : Scope) : Prop where
  ancestors : sc'.ancestors = sc.ancestors
  values : ∀ name, ¬vars name → sc'.values.get? name = sc.values.get? name
  functions : ∀ name, ¬funs name → sc'.functions.get? name = sc.functions.get? name

theorem Scope.Edited.refl {vars funs : String → Prop} (sc : Scope) : sc.Edited vars funs sc :=
  ⟨rfl, fun _ _ => rfl, fun _ _ => rfl⟩

theorem Scope.Edited.trans {vars funs : String → Prop} {a b c : Scope} (hab : a.Edited vars funs b)
    (hbc : b.Edited vars funs c) : a.Edited vars funs c where
  ancestors := hbc.ancestors.trans hab.ancestors
  values name h := (hbc.values name h).trans (hab.values name h)
  functions name h := (hbc.functions name h).trans (hab.functions name h)

namespace Machine

/-- A machine after an evaluation. Scopes with numbers that had not been given out
    can only have gone. -/
structure Kept (m m' : Machine) : Prop where
  depth : m'.depth = m.depth
  location : m'.builder.location = m.builder.location
  next : m.store.next ≤ m'.store.next
  scopes : ∀ id, id < m.store.next → m'.store.get? id = m.store.get? id
  dropped : ∀ id, m'.store.get? id = m.store.get? id ∨ m'.store.get? id = none

/-- A machine after writes to a scope: it is kept but for some variables and some
    functions of that scope. -/
structure Edited (scope : ScopeId) (vars funs : String → Prop) (m m' : Machine) : Prop where
  depth : m'.depth = m.depth
  location : m'.builder.location = m.builder.location
  next : m.store.next ≤ m'.store.next
  scopes : ∀ id, id ≠ scope → id < m.store.next → m'.store.get? id = m.store.get? id
  dropped : ∀ id, id ≠ scope → m'.store.get? id = m.store.get? id ∨ m'.store.get? id = none
  own : scope < m.store.next →
    Option.Rel (Scope.Edited vars funs) (m.store.get? scope) (m'.store.get? scope)

theorem Kept.refl (m : Machine) : m.Kept m :=
  ⟨rfl, rfl, le_rfl, fun _ _ => rfl, fun _ => .inl rfl⟩

theorem Kept.trans {a b c : Machine} (hab : a.Kept b) (hbc : b.Kept c) : a.Kept c where
  depth := hbc.depth.trans hab.depth
  location := hbc.location.trans hab.location
  next := hab.next.trans hbc.next
  scopes id h := (hbc.scopes id (h.trans_le hab.next)).trans (hab.scopes id h)
  dropped id := by
    rcases hbc.dropped id with h | h
    · rw [h]
      exact hab.dropped id
    · exact .inr h

variable {scope : ScopeId} {vars funs : String → Prop}

private theorem rel_refl (o : Option Scope) : Option.Rel (Scope.Edited vars funs) o o := by
  cases o with
  | none => exact .none
  | some sc => exact .some (.refl sc)

private theorem rel_trans {a b c : Option Scope} (hab : Option.Rel (Scope.Edited vars funs) a b)
    (hbc : Option.Rel (Scope.Edited vars funs) b c) : Option.Rel (Scope.Edited vars funs) a c := by
  cases hab with
  | none => exact hbc
  | some hab =>
    cases hbc with
    | some hbc => exact .some (hab.trans hbc)

/-- A kept machine is one without writes to a scope, whichever this is. -/
theorem Kept.edited {m m' : Machine} (h : m.Kept m') : m.Edited scope vars funs m' where
  depth := h.depth
  location := h.location
  next := h.next
  scopes id _ := h.scopes id
  dropped id _ := h.dropped id
  own hlt := by
    rw [h.scopes scope hlt]
    exact rel_refl _

/-- A scope that was there is there after writes to it. -/
theorem Edited.own_before {m m' : Machine} (h : m.Edited scope vars funs m')
    (hlt : scope < m.store.next) {sc : Scope} (hget : m.store.get? scope = some sc) :
    ∃ sc', m'.store.get? scope = some sc' ∧ sc.Edited vars funs sc' := by
  have hown := h.own hlt
  rw [hget] at hown
  generalize m'.store.get? scope = found at hown ⊢
  cases hown with
  | some hedit => exact ⟨_, rfl, hedit⟩

/-- A scope that is there after writes to it was there. -/
theorem Edited.own_after {m m' : Machine} (h : m.Edited scope vars funs m')
    (hlt : scope < m.store.next) {sc' : Scope} (hget : m'.store.get? scope = some sc') :
    ∃ sc, m.store.get? scope = some sc ∧ sc.Edited vars funs sc' := by
  have hown := h.own hlt
  rw [hget] at hown
  generalize m.store.get? scope = found at hown ⊢
  cases hown with
  | some hedit => exact ⟨_, rfl, hedit⟩

theorem Edited.refl (m : Machine) : m.Edited scope vars funs m := (Kept.refl m).edited

theorem Edited.trans {a b c : Machine} (hab : a.Edited scope vars funs b)
    (hbc : b.Edited scope vars funs c) : a.Edited scope vars funs c where
  depth := hbc.depth.trans hab.depth
  location := hbc.location.trans hab.location
  next := hab.next.trans hbc.next
  scopes id hne h := (hbc.scopes id hne (h.trans_le hab.next)).trans (hab.scopes id hne h)
  dropped id hne := by
    rcases hbc.dropped id hne with h | h
    · rw [h]
      exact hab.dropped id hne
    · exact .inr h
  own h := rel_trans (hab.own h) (hbc.own (h.trans_le hab.next))

instance : IsPreorder Machine Kept where
  refl := Kept.refl
  trans _ _ _ := Kept.trans

instance : IsPreorder Machine (Edited scope vars funs) where
  refl := Edited.refl
  trans _ _ _ := Edited.trans

/-- Writing to more names than were written. -/
theorem Edited.mono {vars' funs' : String → Prop} {m m' : Machine}
    (h : m.Edited scope vars funs m') (hvars : ∀ name, vars name → vars' name)
    (hfuns : ∀ name, funs name → funs' name) : m.Edited scope vars' funs' m' where
  depth := h.depth
  location := h.location
  next := h.next
  scopes := h.scopes
  dropped := h.dropped
  own hlt := by
    have hown := h.own hlt
    generalize m.store.get? scope = a at hown ⊢
    generalize m'.store.get? scope = b at hown ⊢
    cases hown with
    | none => exact .none
    | some hedit =>
      refine .some ⟨hedit.ancestors, fun name hname => ?_, fun name hname => ?_⟩
      · exact hedit.values name fun hv => hname (hvars name hv)
      · exact hedit.functions name fun hf => hname (hfuns name hf)

/-! ## One write, one scope -/

/-- Changing one scope edits the machine there. -/
private theorem edited_update {m : Machine} {f : Scope → Scope}
    (hf : ∀ sc : Scope, sc.Edited vars funs (f sc)) :
    m.Edited scope vars funs (m.withStore (m.store.update scope f)) where
  depth := rfl
  location := rfl
  next := le_rfl
  scopes id hne _ := by
    rw [store_withStore, Store.get?_update, if_neg hne]
  dropped id hne := by
    rw [store_withStore, Store.get?_update, if_neg hne]
    exact .inl rfl
  own _ := by
    rw [store_withStore, Store.get?_update, if_pos rfl]
    cases m.store.get? scope with
    | none => exact .none
    | some sc => exact .some (hf sc)

theorem edited_define (m : Machine) (scope : ScopeId) (name : String) (v : Value) :
    m.Edited scope (SameName name) (fun _ => False) (m.define scope name v) := by
  refine edited_update fun sc => ⟨rfl, fun other hother => ?_, fun _ _ => rfl⟩
  rw [NameTable.get?_insert, if_neg]
  exact fun h => hother h.symm

theorem edited_defineFunction (m : Machine) (scope : ScopeId) (f : Function) :
    m.Edited scope (fun _ => False) (SameName f.name) (m.defineFunction scope f) := by
  refine edited_update fun sc => ⟨rfl, fun _ _ => rfl, fun other hother => ?_⟩
  rw [NameTable.get?_insert, if_neg]
  exact fun h => hother h.symm

/-- What was written to a new scope only is gone when the scope is. -/
theorem kept_leave_of_edited {m n : Machine} {parent : Option ScopeId}
    (h : (m.enter parent).Edited m.store.next vars funs n) : m.Kept (n.leave m.store.next) where
  depth := h.depth
  location := h.location
  next := (Nat.le_succ _).trans h.next
  scopes id hlt := by
    have hne : id ≠ m.store.next := hlt.ne
    have hscope := h.scopes id hne (hlt.trans (Nat.lt_succ_self _))
    change (n.store.leave m.store.next).get? id = _
    rw [Store.get?_leave, if_neg hne, hscope]
    change (m.store.enter parent).2.get? id = _
    rw [Store.get?_enter, if_neg hne]
  dropped id := by
    change (n.store.leave m.store.next).get? id = _ ∨ (n.store.leave m.store.next).get? id = none
    rw [Store.get?_leave]
    by_cases hid : id = m.store.next
    · rw [if_pos hid]
      exact .inr rfl
    · rw [if_neg hid]
      have henter : (m.enter parent).store.get? id = m.store.get? id := by
        change (m.store.enter parent).2.get? id = _
        rw [Store.get?_enter, if_neg hid]
      rw [← henter]
      exact h.dropped id hid

end Machine

/-! ## Computations that preserve a relation -/

namespace Eval

variable {α β : Type} {R : Machine → Machine → Prop}

/-- A computation that leaves only machines related to the one that it started
    on, on every way out. -/
def Preserves (R : Machine → Machine → Prop) (x : Eval α) : Prop :=
  ∀ m, R m (Outcome.machine (x m))

theorem Preserves.of_ok {x : Eval α} (h : Preserves R x) {m n : Machine} {a : α}
    (hx : x m = .ok a n) : R m n := by
  have hm := h m
  rwa [hx] at hm

section Preorder

variable [IsPreorder Machine R]

theorem preserves_pure (a : α) : Preserves R (pure a : Eval α) := fun m => refl_of R m

theorem preserves_fail (e : Error) : Preserves R (fail e : Eval α) := fun m => refl_of R m

theorem preserves_bind {x : Eval α} {f : α → Eval β} (hx : Preserves R x)
    (hf : ∀ a, Preserves R (f a)) : Preserves R (x >>= f) := by
  intro m
  have hm := hx m
  cases h : x m with
  | ok a n =>
    rw [h] at hm
    rw [bind_ok h]
    exact trans_of R hm (hf a n)
  | error e n =>
    rw [h] at hm
    rw [bind_error h]
    exact hm

theorem preserves_inNewScope {parent : Option ScopeId} {body : ScopeId → Eval α}
    (henter : ∀ m : Machine, R m (m.enter parent)) (hbody : ∀ id, Preserves R (body id))
    (hleave : ∀ (m : Machine) (id : ScopeId), R m (m.leave id)) :
    Preserves R (inNewScope parent body) := by
  intro m
  rw [inNewScope_apply, Outcome.machine_onMachine]
  exact trans_of R (trans_of R (henter m) (hbody _ _)) (hleave _ _)

theorem preserves_nested {x : Eval α} (hdepth : ∀ (m : Machine) (n : Nat), R m (m.withDepth n))
    (hx : Preserves R x) : Preserves R (nested x) := by
  intro m
  rw [nested_apply, Outcome.machine_onMachine]
  exact trans_of R (trans_of R (hdepth m _) (hx _)) (hdepth _ _)

end Preorder

theorem preserves_ofStore_bind (read : Store → α) {f : α → Eval β} (hf : ∀ a, Preserves R (f a)) :
    Preserves R (ofStore read >>= f) :=
  fun m => hf (read m.store) m

theorem preserves_locate {place : Option Location} {x : Eval α} (hx : Preserves R x) :
    Preserves R (locate place x) := by
  intro m
  rw [machine_locate]
  exact hx m

theorem Preserves.mono {S : Machine → Machine → Prop} {x : Eval α} (hx : Preserves R x)
    (h : ∀ m m', R m m' → S m m') : Preserves S x :=
  fun m => h _ _ (hx m)

/-- Evaluations that keep the machine do not write to a scope. -/
theorem Preserves.edited {scope : ScopeId} {vars funs : String → Prop} {x : Eval α}
    (hx : Preserves Machine.Kept x) : Preserves (Machine.Edited scope vars funs) x :=
  hx.mono fun _ _ h => h.edited

theorem keeps_build {x : Build α} (hx : x.Steady) : Preserves Machine.Kept (build x) := by
  intro m
  have hkept {b : Builder} (h : b.location = m.builder.location) : m.Kept (m.withBuilder b) :=
    ⟨rfl, h, le_rfl, fun _ _ => rfl, fun _ => .inl rfl⟩
  unfold build
  cases h : x m.builder with
  | ok a b => exact hkept (hx.ok h)
  | error e b => exact hkept (hx.error h)

theorem edits_define (scope : ScopeId) (name : String) (v : Value) :
    Preserves (Machine.Edited scope (SameName name) fun _ => False) (define scope name v) :=
  fun m => m.edited_define scope name v

theorem edits_defineFunction (scope : ScopeId) (f : Function) :
    Preserves (Machine.Edited scope (fun _ => False) (SameName f.name)) (defineFunction scope f) :=
  fun m => m.edited_defineFunction scope f

theorem keeps_inNewScope {parent : Option ScopeId} {body : ScopeId → Eval α}
    {vars funs : String → Prop} (h : ∀ id, Preserves (Machine.Edited id vars funs) (body id)) :
    Preserves Machine.Kept (inNewScope parent body) := by
  intro m
  rw [inNewScope_apply, Outcome.machine_onMachine]
  exact Machine.kept_leave_of_edited (h m.store.next (m.enter parent))

/-- Counting a computation as a body changes nothing in what it writes. -/
theorem edits_nested {scope : ScopeId} {vars funs : String → Prop} {x : Eval α}
    (hx : Preserves (Machine.Edited scope vars funs) x) :
    Preserves (Machine.Edited scope vars funs) (nested x) := by
  intro m
  rw [nested_apply, Outcome.machine_onMachine]
  have h := hx (m.withDepth (m.depth + 1))
  exact ⟨by rw [Machine.depth_withDepth, h.depth]; rfl, h.location, h.next, h.scopes, h.dropped, h.own⟩

end Eval

end StyleScript
