-- SUMMARY: Scopes and the store that holds them.
import StyleScript.Function
import StyleScript.Text.Quoted

/-!
# Scopes

A scope has variables and functions of its own and stands inside other scopes.
Reading a name goes outward from a scope until one has it; writing only ever
touches the scope itself.

The store numbers its scopes and never uses a number twice. A scope knows the
numbers of the scopes around it, the nearest first, so the way outward is a
list. A function refers to its scope by number only: the reference does not keep
the scope in the store.
-/

namespace StyleScript

/-- The own names of a scope, and the scopes around it with the nearest first. -/
structure Scope where
  values : NameTable Value
  functions : NameTable Function
  ancestors : List ScopeId

/-- The scopes by their numbers, and the first number that was never used. -/
structure Store where
  scopes : List (ScopeId × Scope)
  next : ScopeId

namespace Store

def empty : Store := ⟨[], 0⟩

def get? (s : Store) (id : ScopeId) : Option Scope := s.scopes.lookup id

def contains (s : Store) (id : ScopeId) : Bool := (s.get? id).isSome

/-- A scope and the scopes around it, from the inside out. -/
def chain (s : Store) (id : ScopeId) : List ScopeId :=
  match s.get? id with
  | some scope => id :: scope.ancestors
  | none => []

/-- How many scopes are around a scope. -/
def depth (s : Store) (id : ScopeId) : Nat := (s.chain id).length - 1

/-! ## Scopes come and go -/

/-- A new scope without names, inside another one or on its own. -/
def enter (s : Store) (parent : Option ScopeId) : ScopeId × Store :=
  let ancestors := match parent with
    | some id => s.chain id
    | none => []
  (s.next, ⟨(s.next, ⟨.empty, .empty, ancestors⟩) :: s.scopes, s.next + 1⟩)

/-- Drop a scope. -/
def leave (s : Store) (id : ScopeId) : Store :=
  { s with scopes := s.scopes.filter (·.1 != id) }

/-- Drop the scopes that are not among the given ones or around them. -/
def retain (s : Store) (held : List ScopeId) : Store :=
  let kept := held.flatMap s.chain
  { s with scopes := s.scopes.filter fun entry => kept.contains entry.1 }

/-! ## Names -/

/-- Change one scope. -/
def update (s : Store) (id : ScopeId) (f : Scope → Scope) : Store :=
  { s with scopes := s.scopes.map fun entry =>
      if entry.1 = id then (entry.1, f entry.2) else entry }

/-- Let a variable of a scope have a value. -/
def define (s : Store) (id : ScopeId) (name : String) (v : Value) : Store :=
  s.update id fun scope => { scope with values := scope.values.insert name v }

/-- Let a function of a scope be found under its name. -/
def defineFunction (s : Store) (id : ScopeId) (f : Function) : Store :=
  s.update id fun scope => { scope with functions := scope.functions.insert f.name f }

/-- The own variables of a scope. -/
def locals (s : Store) (id : ScopeId) : NameTable Value :=
  ((s.get? id).map (·.values)).getD .empty

/-- The value of a variable of the scope itself. -/
def local? (s : Store) (id : ScopeId) (name : String) : Option Value := (s.locals id).get? name

/-- The value of a variable as seen from a scope. -/
def lookup? (s : Store) (id : ScopeId) (name : String) : Option Value :=
  (s.chain id).findSome? fun outer => s.local? outer name

/-- A function as seen from a scope. -/
def lookupFunction? (s : Store) (id : ScopeId) (name : String) : Option Function :=
  (s.chain id).findSome? fun outer =>
    (s.get? outer).bind fun scope => scope.functions.get? name

/-! ## What each operation does to the scopes -/

theorem get?_enter (s : Store) (parent : Option ScopeId) (id : ScopeId) :
    (s.enter parent).2.get? id =
      if id = s.next then some ⟨.empty, .empty, (parent.map s.chain).getD []⟩ else s.get? id := by
  by_cases h : id = s.next
  · subst h
    cases parent <;> simp [enter, get?]
  · have hne : (id == s.next) = false := by simpa using h
    cases parent <;> simp [enter, get?, List.lookup_cons, h, hne]

theorem lookup_filter (keep : ScopeId → Bool) (id : ScopeId) (scopes : List (ScopeId × Scope)) :
    (scopes.filter fun entry => keep entry.1).lookup id =
      if keep id then scopes.lookup id else none := by
  induction scopes with
  | nil => simp
  | cons entry scopes ih =>
    obtain ⟨k, scope⟩ := entry
    by_cases hk : id = k
    · subst hk
      by_cases h : keep id
      · simp [h]
      · rw [if_neg h] at ih ⊢
        simpa [h] using ih
    · have hne : (id == k) = false := by simpa using hk
      by_cases h : keep k <;> simp [h, List.lookup_cons, hne, ih]

theorem get?_leave (s : Store) (id other : ScopeId) :
    (s.leave id).get? other = if other = id then none else s.get? other := by
  have h := lookup_filter (· != id) other s.scopes
  simp only [leave, get?, h]
  by_cases ho : other = id <;> simp [ho]

theorem get?_retain (s : Store) (held : List ScopeId) (id : ScopeId) :
    (s.retain held).get? id = if id ∈ held.flatMap s.chain then s.get? id else none := by
  have h := lookup_filter (fun k => (held.flatMap s.chain).contains k) id s.scopes
  simpa only [retain, get?, List.contains_iff_mem] using h

/-- Dropping one scope leaves the others as they are. -/
theorem get?_leave_or (s : Store) (id other : ScopeId) :
    (s.leave id).get? other = s.get? other ∨ (s.leave id).get? other = none := by
  rw [get?_leave]
  split
  · exact .inr rfl
  · exact .inl rfl

/-- The scopes that are not dropped stay as they are. -/
theorem get?_retain_or (s : Store) (held : List ScopeId) (id : ScopeId) :
    (s.retain held).get? id = s.get? id ∨ (s.retain held).get? id = none := by
  rw [get?_retain]
  split
  · exact .inl rfl
  · exact .inr rfl

theorem get?_update (s : Store) (id other : ScopeId) (f : Scope → Scope) :
    (s.update id f).get? other = if other = id then (s.get? other).map f else s.get? other := by
  unfold update get?
  generalize s.scopes = scopes
  induction scopes with
  | nil => simp
  | cons entry scopes ih =>
    obtain ⟨k, scope⟩ := entry
    by_cases ho : other = k
    · subst ho
      by_cases hi : other = id <;> simp [hi]
    · have hne : (other == k) = false := by simpa using ho
      by_cases hk : k = id
      · subst hk
        simpa [List.lookup_cons, hne] using ih
      · simpa [List.lookup_cons, hne, hk] using ih

/-! ## Text -/

/-- A scope as listings show it: how many scopes are around it, and the names of
    its own variables in order. -/
def listing (s : Store) (id : ScopeId) : String :=
  let depth := s.depth id
  let names := ", ".intercalate ((s.locals id).sortedKeys.map Text.quoted)
  s!"Env \x7b depth: {depth}, vars: [{names}], .. \x7d"

end Store

end StyleScript
