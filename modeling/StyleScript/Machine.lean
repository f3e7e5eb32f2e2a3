-- SUMMARY: The state of a running program, and computations on it that may fail or run out of fuel.
import StyleScript.Scope

/-!
# Machines

A running program has a store of scopes, a builder of values and a count of the
bodies that are being run. A computation on this state gives a result, fails
with an error, or runs out of fuel. Running out of fuel is no error of the
program: it only says that the computation was not followed to its end.

The state survives a failure, so every change that must not outlast a
computation is undone on both ways out.
-/

namespace StyleScript

/-- The state of a running program. `depth` counts the bodies of program
    functions that are being run. -/
structure Machine where
  store : Store
  builder : Builder
  depth : Nat

namespace Machine

/-- A machine that has not done anything. -/
def fresh : Machine := ⟨.empty, .fresh, 0⟩

/-- Whether so many bodies are being run that no other one may begin. -/
def full (m : Machine) (limit : Nat) : Bool := limit ≤ m.depth

theorem not_full_iff {m : Machine} {limit : Nat} : m.full limit = false ↔ m.depth < limit := by
  simp [full]

/-- The machine that a body finds when it begins. -/
def inBody (m : Machine) : Machine := { m with depth := m.depth + 1 }

end Machine

/-- Why a computation gave no result. -/
inductive Interruption where
  | error (e : Error)
  | outOfFuel
  deriving DecidableEq, Repr

/-- A computation on a running program. -/
abbrev Eval := EStateM Interruption Machine

namespace Eval

/-- Fail with an error. -/
def fail (e : Error) : Eval α := throw (.error e)

/-- Build values within a program. -/
def build (x : Build α) : Eval α := fun m =>
  match x m.builder with
  | .ok a b => .ok a { m with builder := b }
  | .error e b => .error (.error e) { m with builder := b }

/-- Report errors at a place unless they are already reported somewhere. -/
def locate (place : Option Location) (x : Eval α) : Eval α := fun m =>
  match x m with
  | .ok a m' => .ok a m'
  | .error (.error e) m' => .error (.error (e.locate place)) m'
  | .error .outOfFuel m' => .error .outOfFuel m'

/-- Run a computation in a scope of its own, which is dropped afterwards. -/
def inNewScope (parent : Option ScopeId) (body : ScopeId → Eval α) : Eval α := fun m =>
  let (id, store) := m.store.enter parent
  match body id { m with store } with
  | .ok a m' => .ok a { m' with store := m'.store.leave id }
  | .error e m' => .error e { m' with store := m'.store.leave id }

/-- Count a computation as the running of a body. -/
def nested (x : Eval α) : Eval α := fun m =>
  match x m.inBody with
  | .ok a m' => .ok a { m' with depth := m'.depth - 1 }
  | .error e m' => .error e { m' with depth := m'.depth - 1 }

/-- Let a variable of a scope have a value. -/
def define (scope : ScopeId) (name : String) (v : Value) : Eval Unit :=
  modify fun m => { m with store := m.store.define scope name v }

/-- Let a function of a scope be found under its name. -/
def defineFunction (scope : ScopeId) (f : Function) : Eval Unit :=
  modify fun m => { m with store := m.store.defineFunction scope f }

/-- Something read from the store. -/
def ofStore (read : Store → α) : Eval α := do return read (← get).store

end Eval

end StyleScript
