-- SUMMARY: Identifiers up to spelling.

/-!
# Names

A name may be written with leading dollar signs, and `_` and `-` are the same
character in it. All tables are keyed by the canonical spelling.
-/

namespace StyleScript

/-- The canonical spelling of a name: no leading dollar signs, and a hyphen for
    each underscore. -/
def canonical (name : String) : String :=
  String.ofList ((name.toList.dropWhile (· == '$')).map fun c => if c = '_' then '-' else c)

/-- A canonical spelling is its own canonical spelling. -/
@[simp] theorem canonical_canonical (name : String) : canonical (canonical name) = canonical name := by
  simp only [canonical, String.toList_ofList, String.ofList_inj]
  cases h : name.toList.dropWhile (· == '$') with
  | nil => rfl
  | cons c cs =>
    have hc : (c == '$') = false := by
      have hfirst := List.head?_dropWhile_not (· == '$') name.toList
      simpa [h] using hfirst
    have hhead : ((if c = '_' then '-' else c) == '$') = false := by
      split
      · rfl
      · exact hc
    have hdash (c : Char) :
        (if (if c = '_' then '-' else c) = '_' then '-' else if c = '_' then '-' else c) =
          if c = '_' then '-' else c := by
      split <;> simp_all
    simp [hhead, hdash]

end StyleScript
