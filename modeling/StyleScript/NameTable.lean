-- SUMMARY: Tables from names to things, indifferent to how the names are spelled.
import StyleScript.Name

/-!
# Name tables

A table keeps one thing for each canonical name. Writing to a name replaces what
it had, and all spellings of a name reach the same entry.
-/

namespace StyleScript

/-- A table from names to things. The entries have canonical names, no two of
    them the same when the table is built by `insert`. -/
structure NameTable (α : Type) where
  entries : List (String × α)

namespace NameTable

variable {α : Type}

def empty : NameTable α := ⟨[]⟩

instance : Inhabited (NameTable α) := ⟨empty⟩

/-- What a name has in a table. -/
def get? (t : NameTable α) (name : String) : Option α := t.entries.lookup (canonical name)

/-- Let a name have something, whatever it had. -/
def insert (t : NameTable α) (name : String) (a : α) : NameTable α :=
  let key := canonical name
  ⟨(key, a) :: t.entries.filter (·.1 != key)⟩

/-- The canonical names of a table. -/
def keys (t : NameTable α) : List String := t.entries.map (·.1)

/-- The canonical names of a table, in the order of their code points. -/
def sortedKeys (t : NameTable α) : List String := t.keys.mergeSort (fun a b => decide (a ≤ b))

/-- How many names have something. -/
def size (t : NameTable α) : Nat := t.entries.length

theorem keys_insert (t : NameTable α) (name : String) (a : α) :
    (t.insert name a).keys = canonical name :: t.keys.filter (· != canonical name) := by
  simp [insert, keys, List.filter_map, Function.comp_def]

@[simp] theorem get?_empty (name : String) : (empty : NameTable α).get? name = none := rfl

theorem lookup_filter_ne {key other : String} (h : other ≠ key) (entries : List (String × α)) :
    (entries.filter (·.1 != key)).lookup other = entries.lookup other := by
  induction entries with
  | nil => rfl
  | cons entry entries ih =>
    obtain ⟨k, a⟩ := entry
    by_cases hk : k = key
    · subst hk
      have : (other == k) = false := by simpa using h
      simp [List.lookup_cons, this, ih]
    · simp [hk, List.lookup_cons, ih]

/-- Reading after writing: the name that was written has the new thing, under
    all its spellings, and all other names have what they had. -/
theorem get?_insert (t : NameTable α) (name other : String) (a : α) :
    (t.insert name a).get? other =
      if canonical other = canonical name then some a else t.get? other := by
  unfold get? insert
  by_cases h : canonical other = canonical name
  · simp [h]
  · have : (canonical other == canonical name) = false := by simpa using h
    simp [List.lookup_cons, this, h, lookup_filter_ne h]

end NameTable

end StyleScript
