-- SUMMARY: Views of values, operators and builtins do not look at locations.
import StyleScript.Proofs.Resemblance
import StyleScript.Proofs.Targets

/-!
# Indifference

Whatever is read off a value is read off every value that resembles it: its type, its
truth, its text, its items and whether it equals another one. So operators build alike
from operands that resemble each other, and so do the builtins: most of them compute with
what they read, which is the same on both sides, and the others give back a value that
they were given or put such values into a list.

A builtin could also look at the location of its call, at its own name or at the
variables of its caller. None does.
-/

namespace StyleScript

variable {R : Resemblance}

/-! ## Views of values -/

theorem Values.Resemble.isEmpty {vs ws : List Value} (h : Values.Resemble R vs ws) :
    vs.isEmpty = ws.isEmpty := by
  cases h <;> rfl

namespace Value

variable {v w v' w' : Value}

theorem Resembles.typeName (h : v.Resembles R w) : v.typeName = w.typeName := by
  cases h <;> rfl

theorem Resembles.isNull (h : v.Resembles R w) : v.isNull = w.isNull := by
  cases h <;> rfl

theorem Resembles.isTruthy (h : v.Resembles R w) : v.isTruthy = w.isTruthy := by
  cases h with
  | @bool b _ _ _ => cases b <;> rfl
  | _ => rfl

mutual

theorem inspect_resembles (places : Nat) :
    (v w : Value) → v.Resembles R w → v.inspect places = w.inspect places
  | .number .., _, .number _ => rfl
  | .color .., _, .color _ => rfl
  | .string .., _, .string _ => rfl
  | .bool .., _, .bool _ => rfl
  | .list vs _ _, .list ws _ _, .list h _ => by
    unfold inspect
    rw [Values.Resemble.isEmpty h, inspectItems_resemble places vs ws h]
  | .null _, _, .null _ => rfl

theorem inspectItems_resemble (places : Nat) :
    (vs ws : List Value) → Values.Resemble R vs ws →
      inspectItems places vs = inspectItems places ws
  | [], _, .nil => rfl
  | v :: vs, w :: ws, .cons h hs => by
    unfold inspectItems
    rw [inspect_resembles places v w h, inspectItems_resemble places vs ws hs]

end

theorem Resembles.text (h : v.Resembles R w) : v.text = w.text :=
  inspect_resembles defaultPlaces v w h

theorem Resembles.mismatch (h : v.Resembles R w) (expected : TypeName) :
    v.mismatch expected = w.mismatch expected := by
  unfold Value.mismatch
  rw [h.text]

theorem Resembles.asNumber (h : v.Resembles R w) : v.asNumber = w.asNumber := by
  have hmismatch := h.mismatch .number
  cases h with
  | number _ => rfl
  | _ => exact congrArg Except.error hmismatch

theorem Resembles.asColor (h : v.Resembles R w) : v.asColor = w.asColor := by
  have hmismatch := h.mismatch .color
  cases h with
  | color _ => rfl
  | _ => exact congrArg Except.error hmismatch

theorem Resembles.asString (h : v.Resembles R w) : v.asString = w.asString := by
  have hmismatch := h.mismatch .string
  cases h with
  | string _ => rfl
  | _ => exact congrArg Except.error hmismatch

theorem Resembles.items (h : v.Resembles R w) : Values.Resemble R v.items w.items := by
  cases h with
  | list hs _ => exact hs
  | number h => exact .cons (.number h) .nil
  | color h => exact .cons (.color h) .nil
  | string h => exact .cons (.string h) .nil
  | bool h => exact .cons (.bool h) .nil
  | null h => exact .cons (.null h) .nil

theorem Resembles.separator (h : v.Resembles R w) : v.separator = w.separator := by
  cases h <;> rfl

theorem Resembles.comparable (h : v.Resembles R w) (h' : v'.Resembles R w') :
    v.comparable v' = w.comparable w' := by
  cases h <;> cases h' <;> rfl

mutual

theorem same_resembles : (v w : Value) → v.Resembles R w →
    ∀ {v' w' : Value}, v'.Resembles R w' → v.same v' = w.same w'
  | .number .., _, .number _, _, _, h => by cases h <;> rfl
  | .color .., _, .color _, _, _, h => by cases h <;> rfl
  | .string .., _, .string _, _, _, h => by cases h <;> rfl
  | .bool .., _, .bool _, _, _, h => by cases h <;> rfl
  | .list vs _ _, .list ws _ _, .list hs _, _, _, h => by
    cases h with
    | list hs' _ =>
      unfold same
      rw [hs.length_eq, sameItems_resemble vs ws hs hs']
    | _ => rfl
  | .null _, _, .null _, _, _, h => by cases h <;> rfl

theorem sameItems_resemble : (vs ws : List Value) → Values.Resemble R vs ws →
    ∀ {vs' ws' : List Value}, Values.Resemble R vs' ws' → sameItems vs vs' = sameItems ws ws'
  | [], _, .nil, _, _, hs => by cases hs <;> rfl
  | v :: vs, w :: ws, .cons h hs, _, _, hs' => by
    cases hs' with
    | nil => rfl
    | cons h' hs' =>
      unfold sameItems
      rw [same_resembles v w h h', sameItems_resemble vs ws hs hs']

end

end Value

/-! ## Builds -/

namespace Build

theorem resembles_make {value value' : Option Location → Value}
    (h : ∀ l l', R.place l l' → (value l).Resembles R (value' l')) :
    Build.Resembles R (make value) (make value') := by
  intro b b' hb
  exact .ok (h _ _ hb.location) ⟨hb.location, by rw [hb.built]⟩

theorem resembles_list {vs ws : List Value} (h : Values.Resemble R vs ws) (separator : Separator) :
    Build.Resembles R (list vs separator) (list ws separator) :=
  resembles_make fun _ _ hl => .list h hl

theorem resembles_bool (b : Bool) : Build.Resembles R (bool b) (bool b) :=
  resembles_make fun _ _ => .bool

theorem resembles_number (n : Number) : Build.Resembles R (number n) (number n) :=
  resembles_make fun _ _ => .number

theorem resembles_throw (e : Error) : Build.Resembles R (throw e) (throw e) :=
  fun _ _ hb => .error hb

theorem resembles_ofExcept {α : Type} (r : Except Error α) {f g : α → Build Value}
    (h : ∀ a, Build.Resembles R (f a) (g a)) :
    Build.Resembles R (ofExcept r >>= f) (ofExcept r >>= g) := by
  cases r with
  | ok a => exact h a
  | error e => exact resembles_throw e

end Build

/-! ## Operators -/

section Operators

variable {v w v' w' : Value}

theorem UnaryOp.resembles_apply (op : UnaryOp) (h : v.Resembles R w) :
    Build.Resembles R (op.apply v) (op.apply w) := by
  have htext := h.text
  cases op with
  | not =>
    unfold apply
    rw [h.isTruthy]
    exact Build.resembles_bool _
  | negate =>
    cases h with
    | number _ => exact Build.resembles_number _
    | _ =>
      unfold apply
      rw [htext]
      exact Build.resembles_throw _

namespace BinaryOp

theorem resembles_compute? {op : BinaryOp} {x : Build Value} (h : op.compute? v w = some x) :
    Build.Resembles R x x := by
  obtain ⟨r, rfl⟩ | ⟨r, holds, rfl⟩ | ⟨content, quoted, rfl⟩ := compute?_eq_some h
  · exact Build.resembles_ofExcept r Build.resembles_number
  · exact Build.resembles_ofExcept r fun order => Build.resembles_bool (holds order)
  · exact Build.resembles_make fun _ _ => .string

/-- What an operator computes does not depend on where its operands were built. -/
theorem compute?_congr (op : BinaryOp) (h : v.Resembles R w) (h' : v'.Resembles R w') :
    op.compute? v v' = op.compute? w w' := by
  cases h <;> cases h' <;> first
    | rfl
    | cases op <;> rfl

theorem resembles_apply (op : BinaryOp) (h : v.Resembles R w) (h' : v'.Resembles R w') :
    Build.Resembles R (op.apply v v') (op.apply w w') := by
  have hundefined : op.undefined v v' = op.undefined w w' := by
    unfold undefined
    rw [h.text, h'.text, h.typeName, h'.typeName]
  unfold apply
  split
  · rw [Value.same_resembles v w h h']
    exact Build.resembles_bool _
  · rw [Value.same_resembles v w h h']
    exact Build.resembles_bool _
  · rw [hundefined, op.compute?_congr h h']
    cases hx : op.compute? w w' with
    | some x => exact resembles_compute? hx
    | none => exact Build.resembles_throw _

end BinaryOp

end Operators

/-! ## Readings -/

theorem rel_getElem? {α β : Type} {P : α → β → Prop} {as : List α} {bs : List β}
    (h : List.Forall₂ P as bs) (i : Nat) : Option.Rel P as[i]? bs[i]? := by
  induction h generalizing i with
  | nil => exact .none
  | cons h _ ih =>
    cases i with
    | zero => exact .some h
    | succ i => exact ih i

/-- Two ways to a result or a failure that end alike: the results are related, or the
    failures are the same. -/
inductive EndAlike {ε α β : Type} (P : α → β → Prop) : Except ε α → Except ε β → Prop where
  | ok {a : α} {b : β} : P a b → EndAlike P (.ok a) (.ok b)
  | error {e : ε} : EndAlike P (.error e) (.error e)

namespace EndAlike

variable {ε α β γ δ : Type} {P : α → β → Prop} {Q : γ → δ → Prop}

theorem bind {x : Except ε α} {y : Except ε β} {f : α → Except ε γ} {g : β → Except ε δ}
    (hx : EndAlike P x y) (hf : ∀ a b, P a b → EndAlike Q (f a) (g b)) :
    EndAlike Q (x >>= f) (y >>= g) := by
  cases hx with
  | ok h => exact hf _ _ h
  | error => exact .error

theorem bind_eq {x : Except ε α} {y : Except ε β} {f : α → Except ε γ} {g : β → Except ε γ}
    (hx : EndAlike P x y) (hf : ∀ a b, P a b → f a = g b) :
    x >>= f = y >>= g := by
  cases hx with
  | ok h => exact hf _ _ h
  | error => rfl

theorem of_eq {x y : Except ε α} (h : x = y) : EndAlike Eq x y := by
  subst h
  cases x with
  | ok a => exact .ok rfl
  | error e => exact .error

end EndAlike

namespace Invocation.Resembles

variable {call call' : Invocation} (h : call.Resembles R call')

include h

theorem arg (parameter : String) :
    EndAlike (Value.Resembles R) (call.arg parameter) (call'.arg parameter) := by
  have hbound := h.bound parameter
  unfold Invocation.arg
  generalize call.bound.get? parameter = v at hbound
  generalize call'.bound.get? parameter = w at hbound
  cases hbound with
  | some hvalue => exact .ok hvalue
  | none => exact .error

theorem number : call.number = call'.number :=
  funext fun parameter => (h.arg parameter).bind_eq fun _ _ hv => by rw [hv.asNumber]

theorem color : call.color = call'.color :=
  funext fun parameter => (h.arg parameter).bind_eq fun _ _ hv => by rw [hv.asColor]

theorem string : call.string = call'.string :=
  funext fun parameter => (h.arg parameter).bind_eq fun _ _ hv => by rw [hv.asString]

theorem numberOrNull : call.numberOrNull = call'.numberOrNull :=
  funext fun parameter => (h.arg parameter).bind_eq fun _ _ hv => by rw [hv.isNull, hv.asNumber]

theorem numberIn : call.numberIn = call'.numberIn := by
  unfold Invocation.numberIn
  rw [h.number]

theorem share (whole : Float) : Builtin.share whole call = Builtin.share whole call' := by
  unfold Builtin.share
  rw [h.number]

theorem hslArgs : Builtin.hslArgs call = Builtin.hslArgs call' := by
  unfold Builtin.hslArgs
  rw [h.number]

theorem components : Components.read call = Components.read call' := by
  unfold Components.read
  rw [h.numberOrNull]

theorem separatorArg : Builtin.separatorArg call = Builtin.separatorArg call' := by
  unfold Builtin.separatorArg
  rw [h.string]

end Invocation.Resembles

/-! ## Answers -/

/-- Answers that are built to values which resemble each other. -/
inductive Answer.Resembles (R : Resemblance) : Answer → Answer → Prop where
  | fresh {value value' : Option Location → Value} :
    (∀ l l', R.place l l' → (value l).Resembles R (value' l')) →
    Resembles R (.fresh value) (.fresh value')
  | given {v w : Value} : v.Resembles R w → Resembles R (.given v) (.given w)

namespace Answer

theorem Resembles.build {answer answer' : Answer} (h : answer.Resembles R answer') :
    Build.Resembles R answer.build answer'.build := by
  cases h with
  | fresh h => exact Build.resembles_make h
  | given h => exact fun _ _ hb => .ok h hb

theorem resembles_list {vs ws : List Value} (h : Values.Resemble R vs ws) (separator : Separator) :
    (list vs separator).Resembles R (list ws separator) :=
  .fresh fun _ _ hl => .list h hl

end Answer

/-! ## Builtins -/

namespace Builtin

/-- A builtin whose answers resemble each other for calls that do. -/
def Indifferent (b : Builtin) : Prop :=
  ∀ {R : Resemblance} {call call' : Invocation}, call.Resembles R call' →
    EndAlike (Answer.Resembles R) (b.answer call) (b.answer call')

theorem Indifferent.run {b : Builtin} (h : b.Indifferent) : NativeCode.Indifferent b.run := by
  intro R call call' hcall
  have hanswer := h hcall
  unfold Builtin.run
  generalize b.answer call = r at hanswer
  generalize b.answer call' = r' at hanswer
  cases hanswer with
  | ok h => exact h.build
  | error => exact Build.resembles_throw _

/-! ### Builtins that compute with what they read -/

section Computed

variable {name signature : String}

theorem indifferent_map {α : Type} {read : Invocation → Except Error α} (answer : α → Answer)
    (hread : ∀ {R : Resemblance} {call call' : Invocation}, call.Resembles R call' →
      read call = read call')
    (hanswer : ∀ {R : Resemblance} (a : α), (answer a).Resembles R (answer a)) :
    Indifferent ⟨name, signature, fun call => (read call).map answer⟩ := by
  intro R call call' hcall
  change EndAlike _ ((read call).map answer) ((read call').map answer)
  rw [hread hcall]
  cases read call' with
  | ok a => exact .ok (hanswer a)
  | error e => exact .error

theorem indifferent_ofColor {color : Invocation → Except Error (Color Float)}
    (h : ∀ {R : Resemblance} {call call' : Invocation}, call.Resembles R call' →
      color call = color call') : (ofColor name signature color).Indifferent :=
  indifferent_map Answer.color h fun _ => .fresh fun _ _ => .color

theorem indifferent_ofNumber {number : Invocation → Except Error Number}
    (h : ∀ {R : Resemblance} {call call' : Invocation}, call.Resembles R call' →
      number call = number call') : (ofNumber name signature number).Indifferent :=
  indifferent_map Answer.number h fun _ => .fresh fun _ _ => .number

theorem indifferent_ofBool {bool : Invocation → Except Error Bool}
    (h : ∀ {R : Resemblance} {call call' : Invocation}, call.Resembles R call' →
      bool call = bool call') : (ofBool name signature bool).Indifferent :=
  indifferent_map Answer.bool h fun _ => .fresh fun _ _ => .bool

end Computed

theorem indifferent_onChannels : ∀ b ∈ onChannels, b.Indifferent := by
  simp only [onChannels, List.forall_mem_cons, List.not_mem_nil, IsEmpty.forall_iff, implies_true,
    and_true]
  and_intros
  -- Each builtin of the list answers with a color that it makes or with a number of one.
  all_goals first
    | exact indifferent_ofColor fun h => by
        simp only [channelArg, alphaArg, h.share, h.color, h.numberIn]
    | exact indifferent_ofNumber fun h => by simp only [h.color]

theorem indifferent_onHsl : ∀ b ∈ onHsl, b.Indifferent := by
  simp only [onHsl, List.forall_mem_cons, List.not_mem_nil, IsEmpty.forall_iff, implies_true,
    and_true]
  and_intros
  all_goals first
    | exact indifferent_ofColor fun h => by
        simp only [alphaArg, h.share, h.hslArgs, h.color, h.number, h.numberIn]
    | exact indifferent_ofNumber fun h => by simp only [h.color]

theorem indifferent_onComponents : ∀ b ∈ onComponents, b.Indifferent := by
  simp only [onComponents, List.forall_mem_cons, List.not_mem_nil, IsEmpty.forall_iff, implies_true,
    and_true]
  and_intros
  all_goals exact indifferent_ofColor fun h => by simp only [h.color, h.components]

theorem indifferent_onQuantities : ∀ b ∈ onQuantities, b.Indifferent := by
  have hcomparable : comparable.Indifferent := indifferent_ofBool fun h =>
    (h.arg "number-1").bind_eq fun _ _ hv =>
      (h.arg "number-2").bind_eq fun _ _ hw => by rw [hv.comparable hw]
  have hunit : unit.Indifferent := fun h =>
    (EndAlike.of_eq (congrFun h.number _)).bind fun n _ hn => by
      rw [← hn]
      exact .ok (.fresh fun _ _ => .string)
  simp only [onQuantities, List.forall_mem_cons, List.not_mem_nil, IsEmpty.forall_iff, implies_true,
    and_true]
  -- The others read nothing but numbers.
  refine ⟨?_, ?_, ?_, ?_, ?_, hunit, ?_, hcomparable⟩
  all_goals first
    | exact indifferent_ofNumber fun h => by simp only [h.number]
    | exact indifferent_ofBool fun h => by simp only [h.number]

/-! ### Builtins that answer with what they are given -/

section Lists

variable {vs ws : List Value}

theorem itemAt?_resemble (h : Values.Resemble R vs ws) (position : Int) :
    Option.Rel (Value.Resembles R) (Value.itemAt? vs position) (Value.itemAt? ws position) := by
  unfold Value.itemAt?
  split
  · exact rel_getElem? h _
  · split
    · exact rel_getElem? (List.rel_reverse h) _
    · exact .none

theorem filter_isTruthy_resemble (h : Values.Resemble R vs ws) :
    Values.Resemble R (vs.filter Value.isTruthy) (ws.filter Value.isTruthy) :=
  List.rel_filter (fun _ _ hv => by simp only [hv.isTruthy]) h

theorem compactSource_resemble (h : Values.Resemble R vs ws) :
    Values.Resemble R (Value.compactSource vs) (Value.compactSource ws) := by
  have hsource := h
  cases h with
  | nil => exact hsource
  | cons hv hvs =>
    cases hvs with
    | nil =>
      cases hv with
      | list hitems _ => exact hitems
      | _ => exact hsource
    | cons _ _ =>
      cases hv <;> exact hsource

end Lists

theorem jointSeparator_resemble {v w v' w' : Value} (h : v.Resembles R w) (h' : v'.Resembles R w')
    (chosen : Option Separator) :
    Value.jointSeparator chosen v v' = Value.jointSeparator chosen w w' := by
  unfold Value.jointSeparator
  rw [Values.Resemble.isEmpty h.items, h.separator, h'.separator]

theorem indifferent_nth : nth.Indifferent := by
  intro R call call' h
  refine (h.arg "list").bind fun v w hv => (EndAlike.of_eq (congrFun h.number "n")).bind ?_
  rintro n _ rfl
  dsimp only
  generalize (if n.isInteger then (Binary64.nearestInt? n.value).getD 0 else 0) = position
  split
  · exact .error
  · have hitem := itemAt?_resemble hv.items position
    rw [hv.items.length_eq]
    generalize Value.itemAt? v.items position = a at hitem
    generalize Value.itemAt? w.items position = b at hitem
    cases hitem with
    | some hitem => exact .ok (.given hitem)
    | none => exact .error

theorem indifferent_onLists : ∀ b ∈ onLists, b.Indifferent := by
  have hlength : length.Indifferent := indifferent_ofNumber fun h =>
    (h.arg "list").bind_eq fun _ _ hv => by rw [hv.items.length_eq]
  have hjoin : join.Indifferent := fun h =>
    (h.arg "list-1").bind fun v w hv => (h.arg "list-2").bind fun v' w' hv' =>
      (EndAlike.of_eq h.separatorArg).bind fun chosen _ hchosen => by
        rw [← hchosen, jointSeparator_resemble hv hv', Value.jointItems_eq, Value.jointItems_eq]
        exact .ok (Answer.resembles_list (List.rel_append hv.items hv'.items) _)
  have happend : append.Indifferent := fun h =>
    (h.arg "list").bind fun v w hv => (h.arg "val").bind fun v' w' hv' =>
      (EndAlike.of_eq h.separatorArg).bind fun chosen _ hchosen => by
        rw [← hchosen, jointSeparator_resemble hv hv']
        exact .ok (Answer.resembles_list (List.rel_append hv.items (.cons hv' .nil)) _)
  have hcompact : compact.Indifferent := fun h =>
    (h.arg "values").bind fun v w hv =>
      .ok (Answer.resembles_list (filter_isTruthy_resemble (compactSource_resemble hv.items)) _)
  simp only [onLists, List.forall_mem_cons, List.not_mem_nil, IsEmpty.forall_iff, implies_true,
    and_true]
  exact ⟨hlength, indifferent_nth, hjoin, happend, hcompact⟩

theorem indifferent_unquote : unquote.Indifferent := by
  intro R call call' h
  refine (h.arg "string").bind fun v w hv => ?_
  have hgiven := Answer.Resembles.given hv
  cases hv with
  | @string content quoted _ _ _ =>
    cases quoted with
    | true => exact .ok (.fresh fun _ _ => .string)
    | false => exact .ok hgiven
  | _ => exact .ok hgiven

theorem indifferent_quote : quote.Indifferent := by
  intro R call call' h
  refine (h.arg "string").bind fun v w hv => ?_
  have hinspect : call.inspect v = call'.inspect w := by
    unfold Invocation.inspect
    rw [h.options]
    exact Value.inspect_resembles _ v w hv
  have hgiven := Answer.Resembles.given hv
  cases hv with
  | @string content quoted _ _ _ =>
    cases quoted with
    | true => exact .ok hgiven
    | false => exact .ok (.fresh fun _ _ => .string)
  | _ =>
    refine .ok ?_
    rw [hinspect]
    exact .fresh fun _ _ => .string

theorem indifferent_onValues : ∀ b ∈ onValues, b.Indifferent := by
  have htypeOf : typeOf.Indifferent := fun h =>
    (h.arg "value").bind fun v w hv => by
      rw [hv.typeName]
      exact .ok (.fresh fun _ _ => .string)
  have hnot : not.Indifferent := indifferent_ofBool fun h =>
    (h.arg "value").bind_eq fun _ _ hv => by rw [hv.isTruthy]
  have hchoose : choose.Indifferent := fun h =>
    (h.arg "condition").bind fun v w hv => by
      rw [hv.isTruthy]
      exact (h.arg _).bind fun _ _ hbranch => .ok (.given hbranch)
  simp only [onValues, List.forall_mem_cons, List.not_mem_nil, IsEmpty.forall_iff, implies_true,
    and_true]
  exact ⟨indifferent_unquote, indifferent_quote, htypeOf, hnot, hchoose⟩

/-- No builtin looks at locations, at its name or at the variables of its caller. -/
theorem indifferent : ∀ b ∈ all, b.run.Indifferent := by
  have hall : ∀ b ∈ all, b.Indifferent := by
    simp only [all, List.forall_mem_append]
    exact ⟨⟨⟨⟨⟨indifferent_onChannels, indifferent_onHsl⟩, indifferent_onComponents⟩,
      indifferent_onQuantities⟩, indifferent_onLists⟩, indifferent_onValues⟩
  exact fun b hb => Indifferent.run (hall b hb)

end Builtin

theorem Registry.indifferent_standard : standard.Holds (Function.Runs NativeCode.Indifferent) := by
  refine holds_standard (fun f hf => hf) ?_
  rintro b hb params _ _ ⟨⟩
  exact b.indifferent hb

end StyleScript
