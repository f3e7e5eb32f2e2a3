-- SUMMARY: Compacting drops what is not truthy, once and on one level.
import StyleScript.Proofs.JoinedLists

/-!
# Compacted lists

`compact` drops null and `false`. It sees a single argument as a list and filters its items; of
any other number of arguments it filters the arguments themselves, so a list among them is kept
whole. What is left is always a list, so compacting it again filters the same items: a single item
that is itself a list is not opened, because the answer around it is the list that is seen.

Main statement: what `compact` gives to one value and to any other number of them, that it gives
the same again to its own answer, and that the items it keeps of two joined values are those it
keeps of each.
-/

namespace StyleScript

namespace Value

variable {vs : List Value}

/-- A single argument is filtered as the list that it is seen as. -/
theorem compactSource_single (v : Value) : compactSource [v] = v.items := by
  cases v <;> rfl

/-- Of no arguments or several, the arguments themselves are filtered. -/
theorem compactSource_of_length (h : vs.length ≠ 1) : compactSource vs = vs := by
  unfold compactSource
  split
  · exact absurd rfl h
  · rfl

end Value

namespace Builtin

/-- What `compact` gives to arguments. -/
def compacted (vs : List Value) : Option Location → Value :=
  .list ((Value.compactSource vs).filter Value.isTruthy) .space

variable {call : Invocation} {vs : List Value} {location l : Option Location}

theorem items_compacted (vs : List Value) (l : Option Location) :
    (compacted vs l).items = (Value.compactSource vs).filter Value.isTruthy :=
  rfl

/-- What is left is left again. -/
theorem compacted_compacted (vs : List Value) (l : Option Location) :
    compacted [compacted vs l] = compacted vs := by
  have hsource : Value.compactSource [compacted vs l] =
      (Value.compactSource vs).filter Value.isTruthy := by
    rw [Value.compactSource_single, items_compacted]
  rw [compacted, hsource, List.filter_filter]
  simp only [Bool.and_self]
  rfl

/-- All arguments are bound as one list. -/
theorem bound_compact (vs : List Value) (location : Option Location) :
    compact.params.bound ⟨vs, []⟩ location =
      .ok (NameTable.empty.insertAll [("values", .list vs .comma location)]) := by
  obtain ⟨hfixed, hrest⟩ :
      compact.params.fixed.length = 0 ∧ compact.params.rest = some "values" := by
    decide +kernel
  have hplace : compact.params.place ⟨vs, []⟩ = .ok [] := by
    rw [Params.place, hrest, List.eq_nil_of_length_eq_zero hfixed]
    simp [Slot.positional, Slot.placeNamed]
  rw [Params.bound, hplace, hrest, hfixed]
  rfl

theorem yields_compact (kind : ErrorKind)
    (hbound : call.bound = NameTable.empty.insertAll [("values", .list vs .comma location)]) :
    Yields kind (compact.answer call) (some (.fresh (compacted vs))) := by
  have hvalues : call.arg "values" = .ok (.list vs .comma location) :=
    Invocation.arg_of_insertAll hbound (by simp) (by simp)
  simp only [compact, hvalues]
  exact yields_pure _

end Builtin

namespace Session

variable {given : Args} {chosen : Option Separator}

theorem gives_compact (options : Options) (vs : List Value) :
    Gives options "compact" ⟨vs, []⟩ (Builtin.compacted vs) := by
  intro fuel place m
  exact (answers_callAlone (b := Builtin.compact) (by simp [Builtin.all, Builtin.onLists])
    (by decide) (Builtin.bound_compact vs m.builder.location)
    fun call hcall => Builtin.yields_compact .typeMismatch hcall).exists_value

/-- `compact` gives the space list of the truthy items of a single value, and of any other number
    of arguments that of the truthy ones among them, each kept whole. Given its own answer it gives
    the same again. The items that it keeps of two joined values are those it keeps of the first
    and then those it keeps of the second. -/
theorem compact_filters_once (h : Builtin.Chooses given chosen) (options : Options) :
    (∀ v : Value,
      Gives options "compact" ⟨[v], []⟩ (.list (v.items.filter Value.isTruthy) .space)) ∧
    (∀ vs : List Value, vs.length ≠ 1 →
      Gives options "compact" ⟨vs, []⟩ (.list (vs.filter Value.isTruthy) .space)) ∧
    (∀ vs : List Value, ∃ kept : Option Location → Value,
      Gives options "compact" ⟨vs, []⟩ kept ∧ ∀ p, Gives options "compact" ⟨[kept p], []⟩ kept) ∧
    ∀ a b : Value, ∃ joined first second both : Option Location → Value,
      Gives options "join" (Builtin.pairWith a b given) joined ∧
      Gives options "compact" ⟨[a], []⟩ first ∧
      Gives options "compact" ⟨[b], []⟩ second ∧
      (∀ p, Gives options "compact" ⟨[joined p], []⟩ both) ∧
      ∀ p q r, (both p).items = (first q).items ++ (second r).items := by
  have hsingle (v : Value) :
      Gives options "compact" ⟨[v], []⟩ (.list (v.items.filter Value.isTruthy) .space) := by
    have hgives := gives_compact options [v]
    rwa [Builtin.compacted, Value.compactSource_single] at hgives
  refine ⟨hsingle, fun vs hlength => ?_, fun vs => ?_, fun a b => ?_⟩
  · have hgives := gives_compact options vs
    rwa [Builtin.compacted, Value.compactSource_of_length hlength] at hgives
  · refine ⟨Builtin.compacted vs, gives_compact options vs, fun p => ?_⟩
    have hagain := gives_compact options [Builtin.compacted vs p]
    rwa [Builtin.compacted_compacted] at hagain
  · have hboth (p : Option Location) : Gives options "compact"
        ⟨[.list (a.items ++ b.items) (Value.jointSeparator chosen a b) p], []⟩
        (.list ((a.items ++ b.items).filter Value.isTruthy) .space) :=
      hsingle _
    exact ⟨_, _, _, _, gives_join h a b, hsingle a, hsingle b, hboth,
      fun p q r => List.filter_append a.items b.items⟩

/-- Of null and a list the list is left, and it is not opened when that is compacted again. Of two
    values that are joined with a comma each keeps what it keeps alone. -/
theorem compact_nested :
    let pair : Value := .list [.null none, .bool true none] .comma none
    Builtin.Chooses ⟨[.string "comma" false none], []⟩ (some .comma) ∧
      Gives .standard "compact" ⟨[.null none, pair], []⟩ (.list [pair] .space) ∧
      (∀ p, Gives .standard "compact" ⟨[.list [pair] .space p], []⟩ (.list [pair] .space)) ∧
      ∃ joined first second both : Option Location → Value,
        Gives .standard "join" ⟨[pair, .list [pair] .space none, .string "comma" false none], []⟩
          joined ∧
        Gives .standard "compact" ⟨[pair], []⟩ first ∧
        Gives .standard "compact" ⟨[.list [pair] .space none], []⟩ second ∧
        (∀ p, Gives .standard "compact" ⟨[joined p], []⟩ both) ∧
        ∀ p q r, (both p).items = (first q).items ++ (second r).items := by
  intro pair
  have hcomma := Builtin.Chooses.positional (some .comma) false none
  obtain ⟨hsingle, hseveral, -, hjoined⟩ := compact_filters_once hcomma .standard
  exact ⟨hcomma, hseveral [.null none, pair] (by decide),
    fun p => hsingle (.list [pair] .space p), hjoined pair (.list [pair] .space none)⟩

end Session

end StyleScript
