-- SUMMARY: A host program's work with a session: scopes held by handles.
import StyleScript.Session

/-!
# Workspaces

A host program holds scopes by handles. A scope stays in the store as long as it
is held, or is around a scope that is held; functions do not hold the scope that
they were defined in. Calls hold the scopes that they run in, and those are
dropped when the calls end, so between two steps only handles count.
-/

namespace StyleScript

/-- A machine and the handles of its host program in the order they were given
    out. A released handle stays in the list without a scope. -/
structure Workspace where
  machine : Machine
  handles : List (Option ScopeId)

namespace Workspace

/-- Give out a handle to a new scope, inside a held one or on its own. -/
def hold (w : Workspace) (parent : Option ScopeId) : Workspace :=
  let (id, store) := w.machine.store.enter parent
  ⟨{ w.machine with store }, w.handles ++ [some id]⟩

/-- A fresh machine with one handle, to a scope without names. -/
def fresh : Workspace := hold ⟨.fresh, []⟩ none

/-- The scope of a handle, unless the handle is released or was never given. -/
def scope? (w : Workspace) (handle : Nat) : Option ScopeId := w.handles[handle]?.join

/-- Release a handle, and drop the scopes that nothing holds any more. -/
def release (w : Workspace) (handle : Nat) : Workspace :=
  let handles := w.handles.set handle none
  ⟨{ w.machine with store := w.machine.store.retain (handles.filterMap id) }, handles⟩

/-- Run a computation on the machine. -/
def run (w : Workspace) (x : Eval α) : Except Interruption α × Workspace :=
  match x w.machine with
  | .ok a m => (.ok a, { w with machine := m })
  | .error e m => (.error e, { w with machine := m })

end Workspace

end StyleScript
