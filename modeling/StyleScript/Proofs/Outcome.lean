-- SUMMARY: How computations end, and what each way to put them together does to the machine.
import StyleScript.Session

/-!
# Outcomes

A computation started on a machine comes to an outcome: a result or an
interruption, with the machine that it left. An outcome is final unless the
computation ran out of fuel.

The laws of this module say what each way to put computations together does to
outcomes, so that the rest of the theory never opens the monad.
-/

namespace StyleScript

/-- What a computation came to. -/
abbrev Outcome (α : Type) := EStateM.Result Interruption Machine α

namespace Outcome

variable {α : Type}

/-- The machine that was left. -/
def machine : Outcome α → Machine
  | .ok _ m => m
  | .error _ m => m

/-- The result, or why there is none. -/
def result : Outcome α → Except Interruption α
  | .ok a _ => .ok a
  | .error e _ => .error e

/-- The computation was followed to its end: to a result or to an error of the
    program. -/
def Final : Outcome α → Prop
  | .ok _ _ => True
  | .error (.error _) _ => True
  | .error .outOfFuel _ => False

/-- Change the machine that was left. -/
def onMachine (f : Machine → Machine) : Outcome α → Outcome α
  | .ok a m => .ok a (f m)
  | .error e m => .error e (f m)

@[simp] theorem machine_ok (a : α) (m : Machine) : machine (.ok a m) = m := rfl
@[simp] theorem machine_error (e : Interruption) (m : Machine) :
    machine (.error e m : Outcome α) = m := rfl

@[simp] theorem result_ok (a : α) (m : Machine) : result (.ok a m) = .ok a := rfl
@[simp] theorem result_error (e : Interruption) (m : Machine) :
    result (.error e m : Outcome α) = .error e := rfl

@[simp] theorem final_ok (a : α) (m : Machine) : Final (.ok a m) := trivial
@[simp] theorem final_error (e : Error) (m : Machine) :
    Final (.error (.error e) m : Outcome α) := trivial
@[simp] theorem not_final_outOfFuel (m : Machine) : ¬Final (.error .outOfFuel m : Outcome α) := id

@[simp] theorem machine_onMachine (f : Machine → Machine) (o : Outcome α) :
    machine (onMachine f o) = f (machine o) := by
  cases o <;> rfl

@[simp] theorem final_onMachine (f : Machine → Machine) (o : Outcome α) :
    Final (onMachine f o) ↔ Final o := by
  cases o with
  | ok a m => rfl
  | error e m => cases e <;> rfl

end Outcome

/-! ## Machines -/

namespace Machine

/-- A machine with another store. -/
def withStore (m : Machine) (store : Store) : Machine := { m with store }

/-- A machine with another count of the bodies that are being run. -/
def withDepth (m : Machine) (depth : Nat) : Machine := { m with depth }

/-- A machine with another builder. -/
def withBuilder (m : Machine) (builder : Builder) : Machine := { m with builder }

/-- A machine with a new scope, numbered by what was its next number. -/
def enter (m : Machine) (parent : Option ScopeId) : Machine :=
  m.withStore (m.store.enter parent).2

/-- A machine without a scope. -/
def leave (m : Machine) (id : ScopeId) : Machine := m.withStore (m.store.leave id)

/-- A machine with a variable of a scope defined. -/
def define (m : Machine) (id : ScopeId) (name : String) (v : Value) : Machine :=
  m.withStore (m.store.define id name v)

/-- A machine with a function of a scope defined. -/
def defineFunction (m : Machine) (id : ScopeId) (f : Function) : Machine :=
  m.withStore (m.store.defineFunction id f)

@[simp] theorem store_withStore (m : Machine) (s : Store) : (m.withStore s).store = s := rfl
@[simp] theorem depth_withStore (m : Machine) (s : Store) : (m.withStore s).depth = m.depth := rfl
@[simp] theorem builder_withStore (m : Machine) (s : Store) :
    (m.withStore s).builder = m.builder := rfl

@[simp] theorem store_withDepth (m : Machine) (n : Nat) : (m.withDepth n).store = m.store := rfl
@[simp] theorem depth_withDepth (m : Machine) (n : Nat) : (m.withDepth n).depth = n := rfl
@[simp] theorem builder_withDepth (m : Machine) (n : Nat) :
    (m.withDepth n).builder = m.builder := rfl

@[simp] theorem store_withBuilder (m : Machine) (b : Builder) : (m.withBuilder b).store = m.store := rfl
@[simp] theorem depth_withBuilder (m : Machine) (b : Builder) : (m.withBuilder b).depth = m.depth := rfl
@[simp] theorem builder_withBuilder (m : Machine) (b : Builder) : (m.withBuilder b).builder = b := rfl

@[simp] theorem depth_enter (m : Machine) (parent : Option ScopeId) :
    (m.enter parent).depth = m.depth := rfl
@[simp] theorem depth_define (m : Machine) (id : ScopeId) (name : String) (v : Value) :
    (m.define id name v).depth = m.depth := rfl
@[simp] theorem depth_defineFunction (m : Machine) (id : ScopeId) (f : Function) :
    (m.defineFunction id f).depth = m.depth := rfl

end Machine

/-! ## Computations -/

namespace Eval

variable {α β : Type}

@[simp] theorem pure_apply (a : α) (m : Machine) : (pure a : Eval α) m = .ok a m := rfl

@[simp] theorem fail_apply (e : Error) (m : Machine) :
    (fail e : Eval α) m = .error (.error e) m := rfl

theorem bind_ok {x : Eval α} {f : α → Eval β} {m n : Machine} {a : α} (h : x m = .ok a n) :
    (x >>= f) m = f a n := by
  change EStateM.bind x f m = f a n
  rw [EStateM.bind, h]

theorem bind_error {x : Eval α} {f : α → Eval β} {m n : Machine} {e : Interruption}
    (h : x m = .error e n) : (x >>= f) m = .error e n := by
  change EStateM.bind x f m = .error e n
  rw [EStateM.bind, h]

/-- A result of two steps comes from a result of the first. -/
theorem bind_eq_ok {x : Eval α} {f : α → Eval β} {m m' : Machine} {b : β} :
    (x >>= f) m = .ok b m' ↔ ∃ a n, x m = .ok a n ∧ f a n = .ok b m' := by
  cases h : x m with
  | ok a n =>
    rw [bind_ok h]
    constructor
    · intro hf
      exact ⟨a, n, rfl, hf⟩
    · rintro ⟨_, _, heq, hf⟩
      cases heq
      exact hf
  | error e n =>
    rw [bind_error h]
    constructor
    · nofun
    · rintro ⟨_, _, heq, _⟩
      cases heq

/-- Two steps come to an end when the first does, and the second does after every
    result of the first. -/
theorem final_bind {x : Eval α} {f : α → Eval β} {m : Machine} (hx : Outcome.Final (x m))
    (hf : ∀ a n, x m = .ok a n → Outcome.Final (f a n)) : Outcome.Final ((x >>= f) m) := by
  cases h : x m with
  | ok a n =>
    rw [bind_ok h]
    exact hf a n h
  | error e n =>
    rw [bind_error h]
    rw [h] at hx
    cases e with
    | error e => trivial
    | outOfFuel => exact hx

theorem final_left {x : Eval α} {f : α → Eval β} {m : Machine} (h : Outcome.Final ((x >>= f) m)) :
    Outcome.Final (x m) := by
  cases hx : x m with
  | ok a n => trivial
  | error e n =>
    rw [bind_error hx] at h
    cases e with
    | error e => trivial
    | outOfFuel => exact h

theorem final_right {x : Eval α} {f : α → Eval β} {m n : Machine} {a : α}
    (h : Outcome.Final ((x >>= f) m)) (hx : x m = .ok a n) : Outcome.Final (f a n) := by
  rwa [bind_ok hx] at h

/-- Reading the store, and going on with what was read. -/
@[simp] theorem ofStore_bind_apply (read : Store → α) (f : α → Eval β) (m : Machine) :
    (ofStore read >>= f) m = f (read m.store) m := rfl

@[simp] theorem get_bind_apply (f : Machine → Eval β) (m : Machine) :
    ((get : Eval Machine) >>= f) m = f m m := rfl

@[simp] theorem define_apply (scope : ScopeId) (name : String) (v : Value) (m : Machine) :
    define scope name v m = .ok () (m.define scope name v) := rfl

@[simp] theorem defineFunction_apply (scope : ScopeId) (f : Function) (m : Machine) :
    defineFunction scope f m = .ok () (m.defineFunction scope f) := rfl

theorem inNewScope_apply (parent : Option ScopeId) (body : ScopeId → Eval α) (m : Machine) :
    inNewScope parent body m =
      Outcome.onMachine (·.leave m.store.next) (body m.store.next (m.enter parent)) := by
  unfold inNewScope
  have hbody : body (m.store.enter parent).1 { m with store := (m.store.enter parent).2 } =
      body m.store.next (m.enter parent) := rfl
  simp only [hbody]
  cases body m.store.next (m.enter parent) with
  | ok a n => rfl
  | error e n => rfl

theorem nested_apply (x : Eval α) (m : Machine) :
    nested x m =
      Outcome.onMachine (fun n => n.withDepth (n.depth - 1)) (x (m.withDepth (m.depth + 1))) := by
  unfold nested
  have hbody : x m.inBody = x (m.withDepth (m.depth + 1)) := rfl
  rw [hbody]
  cases x (m.withDepth (m.depth + 1)) with
  | ok a n => rfl
  | error e n => rfl

/-- Reporting errors at a place changes no result. -/
theorem locate_eq_ok {place : Option Location} {x : Eval α} {m n : Machine} {a : α} :
    locate place x m = .ok a n ↔ x m = .ok a n := by
  unfold locate
  cases x m with
  | ok b n => rfl
  | error e n => cases e <;> simp

@[simp] theorem machine_locate (place : Option Location) (x : Eval α) (m : Machine) :
    Outcome.machine (locate place x m) = Outcome.machine (x m) := by
  unfold locate
  cases x m with
  | ok a n => rfl
  | error e n => cases e <;> rfl

@[simp] theorem final_locate (place : Option Location) (x : Eval α) (m : Machine) :
    Outcome.Final (locate place x m) ↔ Outcome.Final (x m) := by
  unfold locate
  cases x m with
  | ok a n => rfl
  | error e n => cases e <;> rfl

/-- Building comes to an end. -/
@[simp] theorem final_build (x : Build α) (m : Machine) : Outcome.Final (build x m) := by
  unfold build
  cases x m.builder <;> trivial

end Eval

end StyleScript
