-- SUMMARY: Joining lists is associative, and what is joined can be found again.
import StyleScript.Proofs.ChannelArguments
import StyleScript.Proofs.Failures

/-!
# Joined lists

`join` and `append` see every value as a list. Their items are those of both sides in order, and
the separator is the chosen one or that of the first side with items. The first side with items is
the same however three lists are put together, which is why joining is associative.

Main statement: three values joined in either way have the same items and the same separator. An
item of two joined values is at its position in the first one, or at what is left of its position
in the second one.
-/

namespace StyleScript

/-! ## Values as lists -/

namespace Value

variable {chosen : Option Separator} {a b c ab bc : Value} {xs ys : List Value} {position : Int}

/-- The separator of three values does not depend on which two of them are joined first. -/
theorem jointSeparator_assoc (hab : ab.items = a.items ++ b.items)
    (hleft : ab.separator = jointSeparator chosen a b)
    (hright : bc.separator = jointSeparator chosen b c) :
    jointSeparator chosen ab c = jointSeparator chosen a bc := by
  cases chosen with
  | some separator => rfl
  | none =>
    simp only [jointSeparator, Option.getD_none] at hleft hright ⊢
    rw [hab, hleft, hright]
    cases ha : a.items <;> cases hb : b.items <;> simp

theorem itemAt?_append_left (hpositive : 0 < position) (hle : position ≤ xs.length) :
    itemAt? (xs ++ ys) position = itemAt? xs position := by
  rw [itemAt?, itemAt?, if_pos hpositive, if_pos hpositive, List.getElem?_append_left (by omega)]

theorem itemAt?_append_right (hlt : xs.length < position) :
    itemAt? (xs ++ ys) position = itemAt? ys (position - xs.length) := by
  rw [itemAt?, itemAt?, if_pos (by omega), if_pos (by omega),
    List.getElem?_append_right (by omega)]
  congr 1
  omega

end Value

/-! ## Parameters -/

/-- A parameter without a default, or one with a word for default. -/
def Param.worded (name : String) (word : Option String) : Param :=
  ⟨name, word.map fun word => .literal (.string word false none)⟩

/-- The name of a worded parameter, and its default. -/
def Param.worded? : Param → Option (String × Option String)
  | ⟨name, none⟩ => some (name, none)
  | ⟨name, some (.literal (.string word false none))⟩ => some (name, some word)
  | _ => none

theorem Param.eq_worded {param : Param} {entry : String × Option String}
    (h : param.worded? = some entry) : param = worded entry.1 entry.2 := by
  unfold worded? at h
  split at h <;> cases h <;> rfl

/-- Worded parameters, each with its default. -/
def Params.worded (outline : List (String × Option String)) : Params :=
  ⟨outline.map fun entry => .worded entry.1 entry.2, none⟩

theorem Params.eq_worded {p : Params} {outline : List (String × Option String)}
    (h : p.fixed.map Param.worded? = outline.map some ∧ p.rest = none) : p = worded outline := by
  obtain ⟨fixed, rest⟩ := p
  obtain ⟨hfixed, rfl⟩ := h
  rw [worded, ← Param.eq_map (fun _ _ => Param.eq_worded) hfixed]

namespace Builtin

/-- The word for a choice of separator. -/
def choiceWord : Option Separator → String
  | some separator => separator.text
  | none => "auto"

/-- Arguments that choose a separator, by their position or by name. Left out, they choose none. -/
inductive Chooses : Args → Option Separator → Prop where
  | omitted : Chooses ⟨[], []⟩ none
  | positional (chosen : Option Separator) (quoted : Bool) (l : Option Location) :
    Chooses ⟨[.string (choiceWord chosen) quoted l], []⟩ chosen
  | named (chosen : Option Separator) (quoted : Bool) (l : Option Location) :
    Chooses ⟨[], [("separator", .string (choiceWord chosen) quoted l)]⟩ chosen

/-- Two arguments before others. -/
def pairWith (first second : Value) (given : Args) : Args :=
  ⟨first :: second :: given.positional, given.named⟩

variable {given : Args} {chosen : Option Separator} {call : Invocation} {first second list : Value}
  {n : Number} {quoted : Bool} {l : Option Location}

theorem params_join :
    join.params = .worded [("list-1", none), ("list-2", none), ("separator", some "auto")] :=
  Params.eq_worded (by decide +kernel)

theorem params_append :
    append.params = .worded [("list", none), ("val", none), ("separator", some "auto")] :=
  Params.eq_worded (by decide +kernel)

theorem params_nth : nth.params = .worded [("list", none), ("n", none)] :=
  Params.eq_worded (by decide +kernel)

/-- However a separator is chosen, its word is bound beside the two arguments. -/
theorem Chooses.bound (h : Chooses given chosen) {x y : String}
    (hx : canonical x ≠ "separator") (hy : canonical y ≠ "separator") (first second : Value) :
    ∃ quoted l, ∀ location,
      (Params.worded [(x, none), (y, none), ("separator", some "auto")]).bound
          (pairWith first second given) location =
        .ok (NameTable.empty.insertAll
          [(x, first), (y, second), ("separator", .string (choiceWord chosen) quoted l)]) := by
  cases h with
  | omitted => exact ⟨false, none, fun _ => rfl⟩
  | positional chosen quoted l => exact ⟨quoted, l, fun _ => rfl⟩
  | named chosen quoted l =>
    have hseparator : canonical "separator" = "separator" := by decide
    refine ⟨quoted, l, fun location => ?_⟩
    have hplace : (Params.worded [(x, none), (y, none), ("separator", some "auto")]).place
        (pairWith first second ⟨[], [("separator", .string (choiceWord chosen) quoted l)]⟩) =
          .ok [⟨.worded x none, some first⟩, ⟨.worded y none, some second⟩,
            ⟨.worded "separator" (some "auto"), some (.string (choiceWord chosen) quoted l)⟩] := by
      simp [Params.place, Params.worded, pairWith, Param.worded, Slot.positional,
        Slot.placeNamed, Slot.place, Except.bind, Except.map, hseparator, hx, hy]
    rw [Params.bound, hplace]
    rfl

/-- The choice is read again from its word. -/
theorem separatorArg_choiceWord
    (h : call.arg "separator" = .ok (.string (choiceWord chosen) quoted l)) :
    separatorArg call = .ok chosen := by
  rw [separatorArg, Invocation.string, h]
  cases chosen with
  | none => rfl
  | some separator => cases separator <;> rfl

theorem yields_join (kind : ErrorKind)
    (hbound : call.bound = NameTable.empty.insertAll
      [("list-1", first), ("list-2", second),
        ("separator", .string (choiceWord chosen) quoted l)]) :
    Yields kind (join.answer call)
      (some (.list (first.items ++ second.items) (Value.jointSeparator chosen first second))) := by
  have hkeys : (["list-1", "list-2", "separator"].map canonical).Nodup := by decide
  have hfirst : call.arg "list-1" = .ok first :=
    Invocation.arg_of_insertAll hbound hkeys (by simp)
  have hsecond : call.arg "list-2" = .ok second :=
    Invocation.arg_of_insertAll hbound hkeys (by simp)
  have hword : call.arg "separator" = .ok (.string (choiceWord chosen) quoted l) :=
    Invocation.arg_of_insertAll hbound hkeys (by simp)
  simp only [join, hfirst, hsecond, separatorArg_choiceWord hword, Value.jointItems_eq]
  exact yields_pure _

theorem yields_append (kind : ErrorKind)
    (hbound : call.bound = NameTable.empty.insertAll
      [("list", first), ("val", second), ("separator", .string (choiceWord chosen) quoted l)]) :
    Yields kind (append.answer call)
      (some (.list (first.items ++ [second]) (Value.jointSeparator chosen first second))) := by
  have hkeys : (["list", "val", "separator"].map canonical).Nodup := by decide
  have hfirst : call.arg "list" = .ok first := Invocation.arg_of_insertAll hbound hkeys (by simp)
  have hsecond : call.arg "val" = .ok second := Invocation.arg_of_insertAll hbound hkeys (by simp)
  have hword : call.arg "separator" = .ok (.string (choiceWord chosen) quoted l) :=
    Invocation.arg_of_insertAll hbound hkeys (by simp)
  simp only [append, hfirst, hsecond, separatorArg_choiceWord hword]
  exact yields_pure _

theorem yields_nth
    (hbound : call.bound = NameTable.empty.insertAll [("list", list), ("n", .number n l)]) :
    Yields .argumentRange (nth.answer call)
      ((Value.itemAt? list.items n.position).map Answer.given) := by
  have hkeys : (["list", "n"].map canonical).Nodup := by decide
  have hlist : call.arg "list" = .ok list := Invocation.arg_of_insertAll hbound hkeys (by simp)
  have hn : call.number "n" = .ok n :=
    Invocation.number_of_arg (l := l) (Invocation.arg_of_insertAll hbound hkeys (by simp))
  rw [nth_of_position hlist hn]
  by_cases hzero : n.position = 0
  · rw [if_pos hzero, hzero]
    exact ⟨_, rfl, rfl⟩
  · rw [if_neg hzero]
    cases Value.itemAt? list.items n.position with
    | some v => exact yields_pure _
    | none => exact ⟨_, rfl, rfl⟩

end Builtin

/-! ## Calls -/

namespace Session

variable {options : Options} {given : Args} {chosen : Option Separator}

/-- A call of a builtin gives a value, which is built at the place of the call. -/
def Gives (options : Options) (name : String) (args : Args) (value : Option Location → Value) :
    Prop :=
  ∀ (fuel : Nat) (place : Option Location) (m : Machine), ∃ n,
    callAlone ⟨.standard, options⟩ (fuel + 1) name args place m = .ok (value place) n

/-- `nth` gives the item of a list that is there, and refuses the position if there is none. -/
def Finds (options : Options) (list : Value) (n : Number) (item? : Option Value) : Prop :=
  ∀ (l place : Option Location) (fuel : Nat) (m : Machine),
    Outcome.Answers .argumentRange place
      (callAlone ⟨.standard, options⟩ (fuel + 1) "nth" ⟨[list, .number n l], []⟩ place m)
      (item?.map Answer.given)

theorem gives_join (h : Builtin.Chooses given chosen) (first second : Value) :
    Gives options "join" (Builtin.pairWith first second given)
      (.list (first.items ++ second.items) (Value.jointSeparator chosen first second)) := by
  obtain ⟨quoted, l, hbound⟩ := h.bound (x := "list-1") (y := "list-2") (by decide) (by decide)
    first second
  intro fuel place m
  exact (answers_callAlone (b := Builtin.join) (by simp [Builtin.all, Builtin.onLists]) (by decide)
    (Builtin.params_join ▸ hbound _)
    fun call hcall => Builtin.yields_join .typeMismatch hcall).exists_value

theorem gives_append (h : Builtin.Chooses given chosen) (list v : Value) :
    Gives options "append" (Builtin.pairWith list v given)
      (.list (list.items ++ [v]) (Value.jointSeparator chosen list v)) := by
  obtain ⟨quoted, l, hbound⟩ := h.bound (x := "list") (y := "val") (by decide) (by decide) list v
  intro fuel place m
  exact (answers_callAlone (b := Builtin.append) (by simp [Builtin.all, Builtin.onLists])
    (by decide) (Builtin.params_append ▸ hbound _)
    fun call hcall => Builtin.yields_append .typeMismatch hcall).exists_value

theorem finds_nth (list : Value) (n : Number) :
    Finds options list n (Value.itemAt? list.items n.position) := by
  intro l place fuel m
  have hbound : Builtin.nth.params.bound ⟨[list, .number n l], []⟩ m.builder.location =
      .ok (NameTable.empty.insertAll [("list", list), ("n", .number n l)]) := by
    rw [Builtin.params_nth]
    rfl
  exact answers_callAlone (b := Builtin.nth) (by simp [Builtin.all, Builtin.onLists]) (by decide)
    hbound fun call hcall => Builtin.yields_nth hcall

/-- Three values joined in either way, with the separator that is chosen throughout, have the same
    items and the same separator. The items of two joined values are those of both in order, and
    an appended value is itself the last item. `nth` finds an item of two joined values at its
    position in the first one, or at what is left of its position in the second one, and where
    there is none it refuses both. -/
theorem join_assoc (h : Builtin.Chooses given chosen) (options : Options) (a b c v : Value) :
    ∃ ab bc av : Option Location → Value,
      Gives options "join" (Builtin.pairWith a b given) ab ∧
      Gives options "join" (Builtin.pairWith b c given) bc ∧
      Gives options "append" (Builtin.pairWith a v given) av ∧
      (∀ p q, ∃ left right : Option Location → Value,
        Gives options "join" (Builtin.pairWith (ab p) c given) left ∧
        Gives options "join" (Builtin.pairWith a (bc q) given) right ∧
        ∀ r s, (left r).separator = (right s).separator ∧ (left r).items = (right s).items) ∧
      (∀ p, (ab p).items = a.items ++ b.items ∧ (av p).items = a.items ++ [v]) ∧
      ∀ p (i k : Number),
        (0 < i.position → i.position ≤ a.items.length →
          ∃ item, Finds options (ab p) i (some item) ∧ Finds options a i (some item)) ∧
        (a.items.length < i.position → k.position = i.position - a.items.length →
          ∃ item?, Finds options (ab p) i item? ∧ Finds options b k item?) := by
  refine ⟨_, _, _, gives_join h a b, gives_join h b c, gives_append h a v, fun p q =>
    ⟨_, _, gives_join h _ c, gives_join h a _, fun r s => ⟨?_, ?_⟩⟩, fun p => ⟨rfl, rfl⟩,
    fun p i k => ?_⟩
  · exact Value.jointSeparator_assoc rfl rfl rfl
  · exact List.append_assoc a.items b.items c.items
  have hjoined : Finds options (.list (a.items ++ b.items) (Value.jointSeparator chosen a b) p) i
      (Value.itemAt? (a.items ++ b.items) i.position) :=
    finds_nth _ i
  constructor
  · intro hpositive hle
    have hitem : Value.itemAt? a.items i.position = some _ := Value.itemAt?_of_le (by omega)
    rw [Value.itemAt?_append_left hpositive hle, hitem] at hjoined
    exact ⟨_, hjoined, hitem ▸ finds_nth a i⟩
  · intro hlt hk
    rw [Value.itemAt?_append_right hlt, ← hk] at hjoined
    exact ⟨_, hjoined, finds_nth b k⟩

/-- Two words joined with a third one, with a comma chosen by name. The second word is found at its
    position, and the third one at what is left of its position. -/
theorem join_words :
    ∃ joined : Option Location → Value,
      Gives .standard "join"
        ⟨[.list [.string "red" false none, .string "green" false none] .space none,
          .string "blue" false none], [("separator", .string "comma" false none)]⟩ joined ∧
      ∀ p,
        (joined p).items = [.string "red" false none, .string "green" false none,
          .string "blue" false none] ∧
        (∃ item, Finds .standard (joined p) (.unitless 2) (some item) ∧
          Finds .standard (.list [.string "red" false none, .string "green" false none] .space none)
            (.unitless 2) (some item)) ∧
        ∃ item?, Finds .standard (joined p) (.unitless 3) item? ∧
          Finds .standard (.string "blue" false none) (.unitless 1) item? := by
  have hone : (Number.unitless 1).position = 1 := by decide +kernel
  have htwo : (Number.unitless 2).position = 2 := by decide +kernel
  have hthree : (Number.unitless 3).position = 3 := by decide +kernel
  obtain ⟨joined, _, _, hjoined, _, _, _, hitems, hfinds⟩ :=
    join_assoc (.named (some .comma) false none) .standard
      (.list [.string "red" false none, .string "green" false none] .space none)
      (.string "blue" false none) (.null none) (.null none)
  refine ⟨joined, hjoined, fun p => ⟨(hitems p).1, ?_, ?_⟩⟩
  · exact (hfinds p (.unitless 2) (.unitless 1)).1 (by rw [htwo]; decide)
      (by rw [htwo, Value.items]; decide)
  · exact (hfinds p (.unitless 3) (.unitless 1)).2 (by rw [hthree, Value.items]; decide)
      (by rw [hone, hthree, Value.items]; decide)

end Session

end StyleScript
