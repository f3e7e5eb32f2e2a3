-- SUMMARY: What a registry holds after any history of registrations, some of them refused.
import Mathlib.Data.String.Basic
import StyleScript.Proofs.Overloads

/-!
# Histories of registries

A host program registers builtins under signatures and adds functions, in any order. A
registration whose signature is none is refused, and leaves the registry as it was.
After any such history a name has the functions that were added under any of its
spellings, in the order in which they were added.

Main statement: that is so, functions of one name are overloaded exactly from the second
one on, the names are listed in order and canonical, and a call is resolved to the only
function of its name, or else to the first that accepts the number of arguments.
-/

namespace StyleScript.Registry

/-- What a host program does to a registry. -/
inductive Change where
  | register (name signature : String) (run : NativeCode)
  | add (f : Function)

/-- Change a registry. -/
def Change.perform (r : Registry) : Change → Attempt
  | .register name signature run => r.register name signature run
  | .add f => .ok (r.add f)

/-- The registry after a history. Each change finds the registry that the one before it left,
    also when that one was refused. -/
def after (r : Registry) : List Change → Registry
  | [] => r
  | change :: history => (change.perform r).registry.after history

/-- The function that a change adds, whatever the registry is. -/
def Change.function? : Change → Option Function
  | .register name signature run =>
    match Signature.read signature .fresh with
    | .ok params _ => some (.native name params run)
    | .error _ _ => none
  | .add f => some f

/-- The functions that a history adds, in order. -/
def added (history : List Change) : List Function := history.filterMap Change.function?

/-- The functions of a name, however it is spelled. -/
def named (fs : List Function) (name : String) : List Function :=
  fs.filter fun f => canonical f.name = canonical name

variable {r : Registry} {fs : List Function} {f : Function} {name : String} {count : Nat}

/-! ## Changes -/

/-- A change is refused exactly when it adds no function, and leaves what it found then. -/
theorem perform_eq (r : Registry) (change : Change) :
    (∃ f, change.function? = some f ∧ change.perform r = .ok (r.add f)) ∨
      change.function? = none ∧ ∃ e, change.perform r = @Attempt.error r e := by
  cases change with
  | add f => exact .inl ⟨f, rfl, rfl⟩
  | register name signature run =>
    simp only [Change.function?, Change.perform, register]
    cases Signature.read signature .fresh with
    | ok params b => exact .inl ⟨_, rfl, rfl⟩
    | error e b => exact .inr ⟨rfl, _, rfl⟩

theorem perform_eq_ok_iff {change : Change} :
    (∃ left, change.perform r = .ok left) ↔ ∃ f, change.function? = some f := by
  rcases perform_eq r change with ⟨f, hf, hok⟩ | ⟨hf, e, herror⟩
  · simp [hf, hok]
  · simp [hf, herror]

/-- The registry that a refused change leaves is the one that the change found. -/
theorem eq_of_perform_eq_error {change : Change} {left : Registry} {e : Error}
    (h : change.perform r = @Attempt.error left e) : left = r := by
  rcases perform_eq r change with ⟨f, _, hok⟩ | ⟨_, e', herror⟩
  · rw [hok] at h
    cases h
  · rw [herror] at h
    cases h
    rfl

theorem after_append (r : Registry) (history later : List Change) :
    r.after (history ++ later) = (r.after history).after later := by
  induction history generalizing r with
  | nil => rfl
  | cons change history ih => exact ih (change.perform r).registry

/-! ## Marking -/

/-- A function of a name that has `several` of them. -/
def marked (several : Bool) (f : Function) : Function :=
  { f with overloaded := f.overloaded || several }

theorem mark_eq_map (fs : List Function) : mark fs = fs.map (marked (1 < fs.length)) := by
  unfold mark
  split
  · simp [marked, *]
  · have hmarked : marked (1 < fs.length) = id := by
      funext f
      simp [marked, *]
    simp [hmarked]

@[simp] theorem marked_marked (b : Bool) (f : Function) : marked true (marked b f) = marked true f := by
  simp [marked]

/-- Functions that were marked as they came are marked as they are together. -/
theorem mark_snoc (fs : List Function) (f : Function) : mark (mark fs ++ [f]) = mark (fs ++ [f]) := by
  cases fs with
  | nil => rfl
  | cons g fs =>
    simp [mark_eq_map]

/-! ## Functions of a name -/

/-- A registry that has for each name the functions of the list, in order. -/
structure Records (r : Registry) (fs : List Function) : Prop where
  entries : ∀ name, r.candidatesOf.get? name =
    if named fs name = [] then none else some (mark (named fs name))
  distinct : r.candidatesOf.keys.Nodup
  keys : ∀ key, key ∈ r.candidatesOf.keys ↔ ∃ f ∈ fs, canonical f.name = key

theorem Records.candidates (h : r.Records fs) (name : String) :
    r.candidates name = mark (named fs name) := by
  rw [Registry.candidates, h.entries]
  split
  · simp [*, mark]
  · rfl

theorem records_empty : empty.Records [] :=
  ⟨fun _ => rfl, List.nodup_nil, fun _ => by simp [empty, NameTable.keys, NameTable.empty]⟩

theorem named_snoc (fs : List Function) (f : Function) (name : String) :
    named (fs ++ [f]) name =
      if canonical name = canonical f.name then named fs f.name ++ [f] else named fs name := by
  unfold named
  by_cases h : canonical name = canonical f.name
  · simp [h]
  · simp [h, Ne.symm h]

/-- A function that is added is the last one of its name. -/
theorem Records.add (h : r.Records fs) (f : Function) : (r.add f).Records (fs ++ [f]) where
  entries name := by
    rw [named_snoc, Registry.add, NameTable.get?_insert, h.candidates, mark_snoc, h.entries]
    split
    · simp
    · rfl
  distinct := by
    rw [Registry.add, NameTable.keys_insert, List.nodup_cons]
    exact ⟨by simp, h.distinct.filter _⟩
  keys key := by
    rw [Registry.add, NameTable.keys_insert]
    by_cases hkey : key = canonical f.name
    · simp [hkey]
    · simp [hkey, Ne.symm hkey, h.keys]

theorem Records.after (h : r.Records fs) (history : List Change) :
    (r.after history).Records (fs ++ added history) := by
  induction history generalizing r fs with
  | nil => simpa [added, Registry.after] using h
  | cons change history ih =>
    rcases perform_eq r change with ⟨f, hf, hperform⟩ | ⟨hf, e, hperform⟩
    · have hadded : fs ++ added (change :: history) = (fs ++ [f]) ++ added history := by
        simp [added, hf]
      rw [Registry.after, hperform, hadded]
      exact ih (h.add f)
    · have hadded : added (change :: history) = added history := by
        simp [added, hf]
      rw [Registry.after, hperform, hadded]
      exact ih h

/-! ## Names -/

theorem named_ne_nil_iff : named fs name ≠ [] ↔ ∃ f ∈ fs, canonical f.name = canonical name := by
  simp [named, List.filter_eq_nil_iff]

theorem Records.mem_names (h : r.Records fs) (key : String) :
    key ∈ r.names ↔ canonical key = key ∧ named fs key ≠ [] := by
  rw [Registry.names, NameTable.sortedKeys, List.mem_mergeSort, h.keys, named_ne_nil_iff]
  constructor
  · rintro ⟨f, hf, rfl⟩
    exact ⟨canonical_canonical _, f, hf, (canonical_canonical _).symm⟩
  · rintro ⟨hkey, f, hf, hname⟩
    exact ⟨f, hf, hname.trans hkey⟩

/-- The names are listed in order, and each of them once. -/
theorem Records.names_pairwise (h : r.Records fs) : r.names.Pairwise (· < ·) := by
  have hsorted : r.names.Pairwise fun a b => decide (a ≤ b) = true := by
    apply List.pairwise_mergeSort
    · intro a b c hab hbc
      simp only [decide_eq_true_eq] at hab hbc ⊢
      exact String.le_trans hab hbc
    · intro a b
      simpa using String.le_total a b
  have hdistinct : r.names.Nodup := (List.mergeSort_perm _ _).nodup_iff.2 h.distinct
  apply (hsorted.and hdistinct).imp
  rintro a b ⟨hle, hne⟩
  exact lt_of_le_of_ne (of_decide_eq_true hle) hne

/-! ## Resolving -/

theorem mark_eq_nil : mark fs = [] ↔ fs = [] := by
  simp [mark_eq_map]

theorem Records.get?_eq (h : r.Records fs) (name : String) :
    r.candidatesOf.get? name = if r.candidates name = [] then none else some (r.candidates name) := by
  simp [h.entries, h.candidates, mark_eq_nil]

theorem Records.length_candidates (h : r.Records fs) (name : String) :
    (r.candidates name).length = (named fs name).length := by
  simp [h.candidates, mark_eq_map]

theorem Records.resolve_none (h : r.Records fs) (hnone : named fs name = []) (count : Nat) :
    r.resolve name count = .error (.ofCause (.undefinedFunction name)) := by
  simp [resolve, h.entries, hnone]

/-- A call is resolved to the only function of its name, whatever its arguments are. -/
theorem Records.resolve_only (h : r.Records fs) (honly : r.candidates name = [f]) (count : Nat) :
    r.resolve name count = .ok f := by
  simp [resolve, h.get?_eq, honly]

/-- Of several functions the first one is chosen that accepts the number of arguments. -/
theorem Records.resolve_several (h : r.Records fs) (hseveral : 1 < (named fs name).length)
    (count : Nat) :
    r.resolve name count = match (r.candidates name).find? (·.params.accepts count) with
      | some f => .ok f
      | none => .error (.ofCause (.noMatchingOverload name count)) := by
  rw [← h.length_candidates name] at hseveral
  match hcandidates : r.candidates name, hseveral with
  | f :: g :: others, _ =>
    cases hfind : (f :: g :: others).find? (·.params.accepts count) <;>
      simp [resolve, h.get?_eq, hcandidates, hfind]

/-- A name has no function, a single one, or several. -/
theorem Records.number_cases (h : r.Records fs) (name : String) :
    named fs name = [] ∨ (∃ f, r.candidates name = [f] ∧ (named fs name).length = 1) ∨
      1 < (named fs name).length := by
  have hlength := h.length_candidates name
  match hown : named fs name with
  | [] => exact .inl rfl
  | [f] =>
    rw [hown] at hlength
    obtain ⟨g, hg⟩ := List.length_eq_one_iff.1 hlength
    exact .inr (.inl ⟨g, hg, rfl⟩)
  | f :: g :: others => exact .inr (.inr (by simp))

theorem Records.resolve_eq_ok_iff (h : r.Records fs) (hseveral : 1 < (named fs name).length) :
    r.resolve name count = .ok f ↔
      ∃ before later, r.candidates name = before ++ f :: later ∧ f.params.accepts count = true ∧
        ∀ g ∈ before, g.params.accepts count = false := by
  rw [h.resolve_several hseveral]
  constructor
  · intro hok
    split at hok
    · cases hok
      obtain ⟨haccepts, before, later, hsplit, hbefore⟩ := List.find?_eq_some_iff_append.1 ‹_›
      exact ⟨before, later, hsplit, haccepts, by simpa using hbefore⟩
    · cases hok
  · rintro ⟨before, later, hsplit, haccepts, hbefore⟩
    have hfind : (r.candidates name).find? (·.params.accepts count) = some f :=
      List.find?_eq_some_iff_append.2 ⟨haccepts, before, later, hsplit, by simpa using hbefore⟩
    simp [hfind]

theorem Records.resolve_eq_undefined_iff (h : r.Records fs) :
    r.resolve name count = .error (.ofCause (.undefinedFunction name)) ↔ named fs name = [] := by
  rcases h.number_cases name with hnone | ⟨f, honly, hone⟩ | hseveral
  · simp [h.resolve_none hnone, hnone]
  · have hsome : named fs name ≠ [] := by
      rintro hnil
      simp [hnil] at hone
    simp [h.resolve_only honly, hsome]
  · have hsome : named fs name ≠ [] := by
      rintro hnil
      simp [hnil] at hseveral
    rw [h.resolve_several hseveral]
    cases (r.candidates name).find? (·.params.accepts count) <;> simp [hsome, Error.ofCause]

/-- An overload can be lacking only when there are several. -/
theorem Records.resolve_eq_noMatchingOverload_iff (h : r.Records fs) :
    r.resolve name count = .error (.ofCause (.noMatchingOverload name count)) ↔
      1 < (named fs name).length ∧ ∀ f ∈ named fs name, f.params.accepts count = false := by
  rcases h.number_cases name with hnone | ⟨f, honly, hone⟩ | hseveral
  · simp [h.resolve_none hnone, hnone, Error.ofCause]
  · simp [h.resolve_only honly, hone]
  · have hfind : (r.candidates name).find? (·.params.accepts count) = none ↔
        ∀ f ∈ named fs name, f.params.accepts count = false := by
      simp [h.candidates, mark_eq_map, marked]
    rw [h.resolve_several hseveral, ← hfind]
    cases (r.candidates name).find? (·.params.accepts count) <;> simp [hseveral]

/-! ## Histories -/

/-- What is registered is not overloaded by itself. -/
theorem not_overloaded_of_added {history : List Change}
    (hoff : ∀ f, .add f ∈ history → f.overloaded = false) (hf : f ∈ added history) :
    f.overloaded = false := by
  obtain ⟨change, hchange, hfunction⟩ := List.mem_filterMap.1 hf
  cases change with
  | add g =>
    cases hfunction
    exact hoff f hchange
  | register name signature run =>
    simp only [Change.function?] at hfunction
    split at hfunction
    · cases hfunction
      rfl
    · cases hfunction

theorem records_after (history : List Change) : (empty.after history).Records (added history) :=
  records_empty.after history

/-- After any history a name has the functions that were added under it, in order. From
    the second one on all of them are overloaded. A change is refused exactly when it adds
    no function, and leaves the registry as it was then. The names are canonical and listed
    in order. A call is resolved to the only function of its name, or else to the first that
    accepts the number of arguments. -/
theorem history_is_recorded (history : List Change) (name : String) (count : Nat) :
    let r := empty.after history
    let own := named (added history) name
    r.candidates name = own.map (marked (1 < own.length)) ∧
    ((∀ f, .add f ∈ history → f.overloaded = false) →
      ∀ f ∈ r.candidates name, f.overloaded = decide (1 < own.length)) ∧
    (∀ change : Change, (∃ left, change.perform r = .ok left) ↔ ∃ f, change.function? = some f) ∧
    (∀ change left e, change.perform r = @Attempt.error left e →
      left = r ∧ empty.after (history ++ [change]) = r) ∧
    r.names.Pairwise (· < ·) ∧
    (∀ key, key ∈ r.names ↔ canonical key = key ∧ named (added history) key ≠ []) ∧
    (∀ f, r.candidates name = [f] → r.resolve name count = .ok f) ∧
    (1 < own.length → ∀ f, r.resolve name count = .ok f ↔
      ∃ before later, r.candidates name = before ++ f :: later ∧ f.params.accepts count = true ∧
        ∀ g ∈ before, g.params.accepts count = false) ∧
    (r.resolve name count = .error (.ofCause (.noMatchingOverload name count)) ↔
      1 < own.length ∧ ∀ f ∈ own, f.params.accepts count = false) ∧
    (r.resolve name count = .error (.ofCause (.undefinedFunction name)) ↔ own = []) := by
  intro r own
  have h : r.Records (added history) := records_after history
  have hcandidates : r.candidates name = own.map (marked (1 < own.length)) := by
    rw [h.candidates, mark_eq_map]
  refine ⟨hcandidates, ?_, fun change => perform_eq_ok_iff, ?_, h.names_pairwise, h.mem_names,
    fun f honly => h.resolve_only honly count, fun hseveral f => h.resolve_eq_ok_iff hseveral,
    h.resolve_eq_noMatchingOverload_iff, h.resolve_eq_undefined_iff⟩
  · intro hoff f hf
    rw [hcandidates] at hf
    obtain ⟨g, hg, rfl⟩ := List.mem_map.1 hf
    have hgoff : g.overloaded = false := not_overloaded_of_added hoff (List.mem_of_mem_filter hg)
    simp [marked, hgoff]
  · intro change left e herror
    obtain rfl := eq_of_perform_eq_error herror
    refine ⟨rfl, ?_⟩
    rw [after_append, after, herror]
    rfl

example :
    let history : List Change :=
      [.register "pick_one" "$a" fun _ => Build.null, .register "pick-one" "$a,," fun _ => Build.null,
        .register "$pick-one" "$a, $b" fun _ => Build.null]
    (empty.after history).names = ["pick-one"] ∧
      (added history).map (·.name) = ["pick_one", "$pick-one"] := by
  decide +kernel

end StyleScript.Registry
