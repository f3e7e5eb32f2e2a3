-- SUMMARY: The builtins by name, and the choice among candidates of one name.
import StyleScript.Function
import StyleScript.Signature.Reader

/-!
# Registries

A registry has for each name the candidates in the order they were added. A
single candidate is chosen whatever the number of arguments is; of several the
first that accepts the number is.

A registry is changed in place, so there is one also after a change that was refused.
-/

namespace StyleScript

/-- The candidates of each name. -/
structure Registry where
  candidatesOf : NameTable (List Function)

namespace Registry

def empty : Registry := ⟨.empty⟩

/-- The candidates of a name, in the order they were added. -/
def candidates (r : Registry) (name : String) : List Function :=
  (r.candidatesOf.get? name).getD []

def contains (r : Registry) (name : String) : Bool := (r.candidatesOf.get? name).isSome

/-- The canonical names in order. -/
def names (r : Registry) : List String := r.candidatesOf.sortedKeys

/-- How many names there are. -/
def size (r : Registry) : Nat := r.candidatesOf.size

/-- Mark candidates as overloaded when there is more than one. -/
def mark (all : List Function) : List Function :=
  if 1 < all.length then all.map fun f => { f with overloaded := true } else all

/-- Add a candidate. From the second one on all candidates of the name are
    overloaded. -/
def add (r : Registry) (f : Function) : Registry :=
  ⟨r.candidatesOf.insert f.name (mark (r.candidates f.name ++ [f]))⟩

@[simp] theorem candidates_empty (name : String) : empty.candidates name = [] := rfl

theorem candidates_add (r : Registry) (f : Function) (name : String) :
    (r.add f).candidates name =
      if canonical name = canonical f.name then mark (r.candidates f.name ++ [f])
      else r.candidates name := by
  simp only [add, candidates, NameTable.get?_insert]
  by_cases h : canonical name = canonical f.name <;> simp [h]

/-- What a change of a registry comes to. A change that is refused leaves a registry as well. -/
inductive Attempt where
  | ok (left : Registry)
  | error {left : Registry} (e : Error)

/-- The registry that a change leaves, whether it is refused or not. -/
def Attempt.registry : Attempt → Registry
  | .ok left => left
  | @error left _ => left

/-- Read a signature and add a builtin with it. The signature is read first. -/
def register (r : Registry) (name signature : String) (run : NativeCode) : Attempt :=
  match Signature.read signature .fresh with
  | .ok params _ => .ok (r.add (.native name params run))
  | .error e _ => @Attempt.error r (e.inContext s!"registering `{name}`")

/-- The candidate for a call with `count` arguments. -/
def resolve (r : Registry) (name : String) (count : Nat) : Except Error Function :=
  match r.candidatesOf.get? name with
  | none => .error (.ofCause (.undefinedFunction name))
  | some [only] => .ok only
  | some several =>
    match several.find? (·.params.accepts count) with
    | some f => .ok f
    | none => .error (.ofCause (.noMatchingOverload name count))

end Registry

end StyleScript
