-- SUMMARY: Values, programs and machines all of whose colors were made within their ranges, and the builtins that keep to such colors.
import StyleScript.Proofs.Gamut
import StyleScript.Proofs.Targets

/-!
# Bounded colors

The colors of a value are its own and those of its items, at any depth. A value is bounded
when all of them were made by moving components into their ranges; whoever builds values can
build no other ones. The literals of a program are values that were built, and so is all that
a machine has in its scopes.

No builtin makes a color in another way. Most answer with a color that they compute and move
into its range at the end, or with no color; the others give back values that they were given.
-/

namespace StyleScript

/-! ## Values -/

namespace Value

mutual

/-- The colors of a value, also those of its items. -/
def colors : Value → List (Color Float)
  | .color c _ => [c]
  | .list items _ _ => colorsOfItems items
  | _ => []

/-- The colors of values. -/
def colorsOfItems : List Value → List (Color Float)
  | [] => []
  | v :: vs => colors v ++ colorsOfItems vs

end

theorem colorsOfItems_eq_flatMap (vs : List Value) : colorsOfItems vs = vs.flatMap colors := by
  induction vs with
  | nil => rfl
  | cons v vs ih => rw [colorsOfItems, ih, List.flatMap_cons]

/-- All colors of a value were made within their ranges. -/
def Bounded (v : Value) : Prop := ∀ c ∈ v.colors, c.Bounded

theorem bounded_of_colors_eq_nil {v : Value} (h : v.colors = []) : v.Bounded := by
  intro c hc
  rw [h] at hc
  cases hc

@[simp] theorem bounded_number (n : Number) (l : Option Location) : Bounded (.number n l) :=
  bounded_of_colors_eq_nil (by simp only [colors])

@[simp] theorem bounded_string (content : String) (quoted : Bool) (l : Option Location) :
    Bounded (.string content quoted l) :=
  bounded_of_colors_eq_nil (by simp only [colors])

@[simp] theorem bounded_bool (b : Bool) (l : Option Location) : Bounded (.bool b l) :=
  bounded_of_colors_eq_nil (by simp only [colors])

@[simp] theorem bounded_null (l : Option Location) : Bounded (.null l) :=
  bounded_of_colors_eq_nil (by simp only [colors])

@[simp] theorem bounded_color {c : Color Float} {l : Option Location} :
    Bounded (.color c l) ↔ c.Bounded := by
  simp [Bounded, colors]

@[simp] theorem bounded_list {items : List Value} {separator : Separator} {l : Option Location} :
    Bounded (.list items separator l) ↔ ∀ v ∈ items, v.Bounded := by
  simp only [Bounded, colors, colorsOfItems_eq_flatMap, List.mem_flatMap]
  constructor
  · intro h v hv c hc
    exact h c ⟨v, hv, hc⟩
  · rintro h c ⟨v, hv, hc⟩
    exact h v hv c hc

/-- The items of a bounded value are bounded. -/
theorem Bounded.items {v : Value} (h : v.Bounded) : ∀ item ∈ v.items, item.Bounded := by
  cases v with
  | list items separator l => exact bounded_list.1 h
  | _ => exact List.forall_mem_singleton.2 h

end Value

/-! ## Programs -/

mutual

/-- All literals of an expression are bounded. -/
def Expr.Bounded : Expr → Prop
  | .literal v => v.Bounded
  | .variable .. => True
  | .list items _ => Expr.BoundedAll items
  | .unary _ operand _ => operand.Bounded
  | .binary _ left right _ => left.Bounded ∧ right.Bounded
  | .call _ args _ => Arg.BoundedAll args

def Expr.BoundedAll : List Expr → Prop
  | [] => True
  | e :: es => e.Bounded ∧ Expr.BoundedAll es

def Arg.BoundedAll : List Arg → Prop
  | [] => True
  | .mk _ e :: args => e.Bounded ∧ Arg.BoundedAll args

end

/-- All defaults are bounded. -/
def Params.Bounded (p : Params) : Prop :=
  ∀ param ∈ p.fixed, ∀ e, param.default = some e → e.Bounded

mutual

/-- All literals of a statement are bounded, also those of a function that it defines. -/
def Stmt.Bounded : Stmt → Prop
  | .assign _ e => e.Bounded
  | .result e => e.Bounded
  | .define _ params body _ => params.Bounded ∧ Stmt.BoundedAll body

def Stmt.BoundedAll : List Stmt → Prop
  | [] => True
  | s :: body => s.Bounded ∧ Stmt.BoundedAll body

end

structure Definition.Bounded (d : Definition) : Prop where
  params : d.params.Bounded
  body : Stmt.BoundedAll d.body

/-- All arguments are bounded. -/
structure Args.Bounded (args : Args) : Prop where
  positional : ∀ v ∈ args.positional, v.Bounded
  named : ∀ arg ∈ args.named, arg.2.Bounded

/-! ## Machines -/

/-- All values of a table are bounded. -/
def NameTable.Bounded (t : NameTable Value) : Prop := ∀ name v, t.get? name = some v → v.Bounded

/-- All that a builtin sees of its call is bounded. -/
structure Invocation.Bounded (call : Invocation) : Prop where
  bound : call.bound.Bounded
  callerVariable : ∀ name v, call.callerVariable name = some v → v.Bounded

/-- Code that gives bounded values for calls in which all is bounded. -/
def NativeCode.Bounded (run : NativeCode) : Prop :=
  ∀ call : Invocation, call.Bounded → (run call).Gives Value.Bounded

/-- A function with bounded defaults and a bounded body. -/
structure Function.Bounded (f : Function) : Prop where
  params : f.params.Bounded
  native : ∀ run, f.body = .native run → run.Bounded
  written : ∀ d closure, f.body = .written d closure → d.Bounded

/-- All variables and functions of all scopes are bounded. -/
structure Store.Bounded (store : Store) : Prop where
  values : ∀ id sc, store.get? id = some sc → sc.values.Bounded
  functions : store.Holds fun _ f => f.Bounded

def Machine.Bounded (m : Machine) : Prop := m.store.Bounded

theorem Function.bounded_ofDefinition {d : Definition} (h : d.Bounded) (closure : ScopeId) :
    (Function.ofDefinition d closure).Bounded where
  params := h.params
  native := nofun
  written := by
    rintro _ _ ⟨⟩
    exact h

/-! ### Stores -/

namespace Store.Bounded

variable {store store' : Store}

theorem empty : Store.empty.Bounded := ⟨nofun, nofun⟩

theorem of_dropped (h : store.Bounded)
    (hdropped : ∀ id, store'.get? id = store.get? id ∨ store'.get? id = none) : store'.Bounded where
  values id sc hget := by
    rcases hdropped id with hsame | hgone
    · exact h.values id sc (hsame ▸ hget)
    · rw [hgone] at hget
      cases hget
  functions := h.functions.of_dropped hdropped

theorem enter (h : store.Bounded) (parent : Option ScopeId) : (store.enter parent).2.Bounded where
  values id sc hget := by
    rw [get?_enter] at hget
    split at hget
    · cases hget
      nofun
    · exact h.values id sc hget
  functions := h.functions.enter parent

theorem define (h : store.Bounded) (scope : ScopeId) (name : String) {v : Value} (hv : v.Bounded) :
    (store.define scope name v).Bounded where
  values id sc hget := by
    rw [Store.define, get?_update] at hget
    split at hget
    · obtain ⟨old, hold, rfl⟩ := Option.map_eq_some_iff.1 hget
      intro other w hw
      rw [NameTable.get?_insert] at hw
      split at hw
      · cases hw
        exact hv
      · exact h.values id old hold other w hw
    · exact h.values id sc hget
  functions := h.functions.define scope name v

theorem defineFunction (h : store.Bounded) (scope : ScopeId) {f : Function} (hf : f.Bounded) :
    (store.defineFunction scope f).Bounded where
  values id sc hget := by
    rw [Store.defineFunction, get?_update] at hget
    split at hget
    · obtain ⟨old, hold, rfl⟩ := Option.map_eq_some_iff.1 hget
      exact h.values id old hold
    · exact h.values id sc hget
  functions := h.functions.defineFunction hf

theorem locals (h : store.Bounded) (id : ScopeId) : (store.locals id).Bounded := by
  unfold Store.locals
  cases hget : store.get? id with
  | none => nofun
  | some sc => exact h.values id sc hget

theorem local? (h : store.Bounded) {id : ScopeId} {name : String} {v : Value}
    (hv : store.local? id name = some v) : v.Bounded :=
  h.locals id name v hv

theorem lookup? (h : store.Bounded) {id : ScopeId} {name : String} {v : Value}
    (hv : store.lookup? id name = some v) : v.Bounded := by
  obtain ⟨outer, _, hlocal⟩ := List.exists_of_findSome?_eq_some hv
  exact h.local? hlocal

theorem lookupFunction? (h : store.Bounded) {id : ScopeId} {name : String} {f : Function}
    (hf : store.lookupFunction? id name = some f) : f.Bounded := by
  obtain ⟨_, _, hbounded⟩ := h.functions.of_lookup hf
  exact hbounded

end Store.Bounded

/-! ## Operators -/

theorem Build.gives_make {P : Value → Prop} {value : Option Location → Value}
    (h : ∀ l, P (value l)) : (Build.make value).Gives P := by
  rintro b _ _ ⟨⟩
  exact h b.location

/-- Operators answer with numbers, strings and truth values. -/
theorem UnaryOp.gives_apply (op : UnaryOp) (v : Value) : (op.apply v).Gives Value.Bounded := by
  unfold UnaryOp.apply
  split
  · exact Build.gives_make fun _ => by simp
  · split
    · exact Build.gives_make fun _ => by simp
    · exact Build.gives_throw _

theorem BinaryOp.gives_onNumbers? {op : BinaryOp} {a b : Number} {x : Build Value}
    (h : op.onNumbers? a b = some x) : x.Gives Value.Bounded := by
  cases op <;> simp only [onNumbers?, Option.some.injEq, reduceCtorEq] at h <;> subst h <;>
    exact Build.gives_bind fun _ => Build.gives_make fun _ => by simp

theorem BinaryOp.gives_concat (left right : String) (quoted : Bool) :
    (concat left right quoted).Gives Value.Bounded :=
  Build.gives_make fun _ => by simp

theorem BinaryOp.gives_compute? {op : BinaryOp} {v w : Value} {x : Build Value}
    (h : op.compute? v w = some x) : x.Gives Value.Bounded := by
  unfold compute? at h
  split at h
  · exact gives_onNumbers? h
  all_goals
    cases h
    try exact gives_concat _ _ _

theorem BinaryOp.gives_apply (op : BinaryOp) (v w : Value) :
    (op.apply v w).Gives Value.Bounded := by
  unfold apply
  split
  · exact Build.gives_make fun _ => by simp
  · exact Build.gives_make fun _ => by simp
  · cases h : op.compute? v w with
    | some x => exact gives_compute? h
    | none => exact Build.gives_throw _

/-! ## Builtins -/

/-- A reading of arguments that gives only results with a property. -/
def GivesOnly {ε α : Type} (P : α → Prop) (x : Except ε α) : Prop := ∀ a, x = .ok a → P a

section Readings

variable {ε α β : Type} {P : α → Prop} {Q : β → Prop}

theorem givesOnly_pure {a : α} (h : P a) : GivesOnly P (pure a : Except ε α) := by
  rintro _ ⟨⟩
  exact h

theorem givesOnly_error (e : ε) : GivesOnly P (.error e : Except ε α) := nofun

theorem givesOnly_bind {x : Except ε α} {f : α → Except ε β} (hx : GivesOnly P x)
    (hf : ∀ a, P a → GivesOnly Q (f a)) : GivesOnly Q (x >>= f) := by
  cases x with
  | ok a => exact hf a (hx a rfl)
  | error e => exact givesOnly_error e

/-- What is read on the way does not matter when every result has the property. -/
theorem givesOnly_of_forall {x : Except ε α} {f : α → Except ε β} (hf : ∀ a, GivesOnly Q (f a)) :
    GivesOnly Q (x >>= f) :=
  givesOnly_bind (P := fun _ => True) (fun _ _ => trivial) fun a _ => hf a

theorem givesOnly_map {x : Except ε α} {f : α → β} (hx : GivesOnly P x) (hf : ∀ a, P a → Q (f a)) :
    GivesOnly Q (x.map f) := by
  cases x with
  | ok a =>
    rintro _ ⟨⟩
    exact hf a (hx a rfl)
  | error e => nofun

end Readings

/-- An answer that is built to a bounded value. -/
inductive Answer.Bounded : Answer → Prop where
  | fresh {value : Option Location → Value} : (∀ l, (value l).Bounded) → Bounded (.fresh value)
  | given {v : Value} : v.Bounded → Bounded (.given v)

theorem Invocation.Bounded.arg {call : Invocation} (h : call.Bounded) (parameter : String) :
    GivesOnly Value.Bounded (call.arg parameter) := by
  intro v hv
  unfold Invocation.arg at hv
  cases hget : call.bound.get? parameter with
  | some w =>
    rw [hget] at hv
    cases hv
    exact h.bound parameter v hget
  | none =>
    rw [hget] at hv
    cases hv

/-! ### Colors that builtins compute -/

namespace Color

variable (c d : Color Float) (x : Float)

@[simp] theorem bounded_rgba (red green blue alpha : Float) : (rgba red green blue alpha).Bounded :=
  ⟨red, green, blue, alpha, rfl⟩

@[simp] theorem bounded_rgb (red green blue : Float) : (rgb red green blue).Bounded :=
  bounded_rgba red green blue 1

@[simp] theorem bounded_withAlpha : (c.withAlpha x).Bounded := bounded_rgba _ _ _ x

@[simp] theorem bounded_ofHsl (h : Hsl Float) : (ofHsl h x).Bounded := bounded_rgba _ _ _ x

@[simp] theorem bounded_mapHsl (f : Hsl Float → Hsl Float) : (mapHsl f c).Bounded :=
  bounded_ofHsl _ (f c.toHsl)

@[simp] theorem bounded_mix : (c.mix d x).Bounded := bounded_rgba _ _ _ _

@[simp] theorem bounded_invert : (c.invert x).Bounded := bounded_mix _ _ _

theorem bounded_ofHex (digits : List Char) : (ofHex digits).Bounded := by
  unfold ofHex
  split <;> exact bounded_rgb _ _ _

end Color

theorem Components.bounded_adjust (components : Components) (c : Color Float) :
    GivesOnly Color.Bounded (components.adjust c) := by
  unfold adjust
  refine givesOnly_of_forall fun _ => ?_
  split
  · iterate 3 refine givesOnly_of_forall fun _ => ?_
    exact givesOnly_pure (Color.bounded_rgba _ _ _ _)
  · split
    · iterate 2 refine givesOnly_of_forall fun _ => ?_
      exact givesOnly_pure (Color.bounded_ofHsl _ _)
    · exact givesOnly_pure (Color.bounded_withAlpha _ _)

theorem Components.bounded_change (components : Components) (c : Color Float) :
    GivesOnly Color.Bounded (components.change c) := by
  unfold change
  refine givesOnly_of_forall fun _ => ?_
  split
  · iterate 3 refine givesOnly_of_forall fun _ => ?_
    exact givesOnly_pure (Color.bounded_rgba _ _ _ _)
  · split
    · iterate 2 refine givesOnly_of_forall fun _ => ?_
      exact givesOnly_pure (Color.bounded_ofHsl _ _)
    · exact givesOnly_pure (Color.bounded_withAlpha _ _)

namespace Builtin

/-- A builtin whose answers are bounded for calls in which all is. -/
def Bounded (b : Builtin) : Prop :=
  ∀ call : Invocation, call.Bounded → GivesOnly Answer.Bounded (b.answer call)

theorem Bounded.run {b : Builtin} (h : b.Bounded) : NativeCode.Bounded b.run := by
  intro call hcall
  have hanswer := h call hcall
  unfold Builtin.run
  cases hread : b.answer call with
  | error e => exact Build.gives_throw e
  | ok answer =>
    cases hanswer answer hread with
    | fresh hvalue => exact Build.gives_make hvalue
    | given hv => exact Build.gives_pure hv

variable {name signature : String}

theorem bounded_ofColor {color : Invocation → Except Error (Color Float)}
    (h : ∀ call, GivesOnly Color.Bounded (color call)) : (ofColor name signature color).Bounded :=
  fun call _ => givesOnly_map (h call) fun _ hc => .fresh fun _ => Value.bounded_color.2 hc

theorem bounded_ofNumber (number : Invocation → Except Error Number) :
    (ofNumber name signature number).Bounded :=
  fun _ _ => givesOnly_map (P := fun _ => True) (fun _ _ => trivial) fun _ _ =>
    .fresh fun _ => Value.bounded_number _ _

theorem bounded_ofBool (bool : Invocation → Except Error Bool) :
    (ofBool name signature bool).Bounded :=
  fun _ _ => givesOnly_map (P := fun _ => True) (fun _ _ => trivial) fun _ _ =>
    .fresh fun _ => Value.bounded_bool _ _

theorem bounded_onChannels : ∀ b ∈ onChannels, b.Bounded := by
  simp only [onChannels, List.forall_mem_cons, List.not_mem_nil, IsEmpty.forall_iff, implies_true,
    and_true]
  and_intros
  all_goals first
    | exact bounded_ofNumber _
    | refine bounded_ofColor fun call => ?_
      -- Whatever the arguments are, the color is moved into its ranges at the end.
      repeat refine givesOnly_of_forall fun _ => ?_
      exact givesOnly_pure (by simp)

theorem bounded_onHsl : ∀ b ∈ onHsl, b.Bounded := by
  simp only [onHsl, List.forall_mem_cons, List.not_mem_nil, IsEmpty.forall_iff, implies_true,
    and_true]
  and_intros
  all_goals first
    | exact bounded_ofNumber _
    | refine bounded_ofColor fun call => ?_
      repeat refine givesOnly_of_forall fun _ => ?_
      exact givesOnly_pure (by
        simp [Color.grayscale, Color.complement, Color.adjustHue, Color.lighten, Color.darken,
          Color.saturate, Color.desaturate])

theorem bounded_onComponents : ∀ b ∈ onComponents, b.Bounded := by
  have hcomponents {edit : Components → Color Float → Except Error (Color Float)} (name : String)
      (hedit : ∀ components c, GivesOnly Color.Bounded (edit components c)) :
      (ofComponents name edit).Bounded :=
    bounded_ofColor fun _ => givesOnly_of_forall fun c => givesOnly_of_forall fun components =>
      hedit components c
  simp only [onComponents, List.forall_mem_cons, List.not_mem_nil, IsEmpty.forall_iff,
    implies_true, and_true]
  exact ⟨hcomponents _ Components.bounded_adjust, hcomponents _ Components.bounded_change⟩

theorem bounded_onQuantities : ∀ b ∈ onQuantities, b.Bounded := by
  have hunit : unit.Bounded := fun call _ =>
    givesOnly_of_forall fun _ => givesOnly_pure (.fresh fun _ => Value.bounded_string _ _ _)
  simp only [onQuantities, List.forall_mem_cons, List.not_mem_nil, IsEmpty.forall_iff,
    implies_true, and_true]
  exact ⟨bounded_ofNumber _, bounded_ofNumber _, bounded_ofNumber _, bounded_ofNumber _,
    bounded_ofNumber _, hunit, bounded_ofBool _, bounded_ofBool _⟩

/-! ### Builtins that give back what they were given -/

theorem mem_of_itemAt? {items : List Value} {position : Int} {v : Value}
    (h : Value.itemAt? items position = some v) : v ∈ items := by
  unfold Value.itemAt? at h
  split at h
  · exact List.mem_of_getElem? h
  · split at h
    · exact List.mem_reverse.1 (List.mem_of_getElem? h)
    · cases h

theorem bounded_nth : nth.Bounded := by
  intro call hcall
  refine givesOnly_bind (hcall.arg "list") fun list hlist => ?_
  refine givesOnly_of_forall fun n => ?_
  dsimp only
  generalize (if n.isInteger then (Binary64.nearestInt? n.value).getD 0 else 0) = position
  split
  · exact givesOnly_error _
  · split
    · rename_i v hitem
      exact givesOnly_pure (.given (hlist.items v (mem_of_itemAt? hitem)))
    · exact givesOnly_error _

/-- Lists of values that were given are bounded. -/
theorem bounded_answerList {items : List Value} (h : ∀ v ∈ items, v.Bounded) (separator : Separator) :
    (Answer.list items separator).Bounded :=
  .fresh fun _ => Value.bounded_list.2 h

theorem bounded_compactSource {values : List Value} (h : ∀ v ∈ values, v.Bounded) :
    ∀ v ∈ Value.compactSource values, v.Bounded := by
  unfold Value.compactSource
  split
  · exact Value.bounded_list.1 (h _ List.mem_cons_self)
  · exact h

theorem bounded_onLists : ∀ b ∈ onLists, b.Bounded := by
  have hjoin : join.Bounded := fun call hcall =>
    givesOnly_bind (hcall.arg "list-1") fun first hfirst =>
      givesOnly_bind (hcall.arg "list-2") fun second hsecond =>
        givesOnly_of_forall fun _ => givesOnly_pure <| by
          rw [Value.jointItems_eq]
          exact bounded_answerList (List.forall_mem_append.2 ⟨hfirst.items, hsecond.items⟩) _
  have happend : append.Bounded := fun call hcall =>
    givesOnly_bind (hcall.arg "list") fun list hlist =>
      givesOnly_bind (hcall.arg "val") fun v hv =>
        givesOnly_of_forall fun _ => givesOnly_pure (bounded_answerList
          (List.forall_mem_append.2 ⟨hlist.items, List.forall_mem_singleton.2 hv⟩) _)
  have hcompact : compact.Bounded := fun call hcall =>
    givesOnly_bind (hcall.arg "values") fun values hvalues =>
      givesOnly_pure (bounded_answerList (fun v hv =>
        bounded_compactSource hvalues.items v (List.mem_of_mem_filter hv)) _)
  simp only [onLists, List.forall_mem_cons, List.not_mem_nil, IsEmpty.forall_iff, implies_true,
    and_true]
  exact ⟨bounded_ofNumber _, bounded_nth, hjoin, happend, hcompact⟩

theorem bounded_onValues : ∀ b ∈ onValues, b.Bounded := by
  have hstring (content : String) (quoted : Bool) :
      (Answer.fresh (.string content quoted)).Bounded :=
    .fresh fun _ => Value.bounded_string _ _ _
  have hunquote : unquote.Bounded := fun call hcall =>
    givesOnly_bind (hcall.arg "string") fun v hv => by
      split
      · exact givesOnly_pure (hstring _ _)
      · exact givesOnly_pure (.given hv)
  have hquote : quote.Bounded := fun call hcall =>
    givesOnly_bind (hcall.arg "string") fun v hv => by
      split
      · exact givesOnly_pure (.given hv)
      · exact givesOnly_pure (hstring _ _)
      · exact givesOnly_pure (hstring _ _)
  have htypeOf : typeOf.Bounded := fun call _ =>
    givesOnly_of_forall fun _ => givesOnly_pure (hstring _ _)
  have hchoose : choose.Bounded := fun call hcall =>
    givesOnly_of_forall fun _ =>
      givesOnly_bind (hcall.arg _) fun v hv => givesOnly_pure (.given hv)
  simp only [onValues, List.forall_mem_cons, List.not_mem_nil, IsEmpty.forall_iff, implies_true,
    and_true]
  exact ⟨hunquote, hquote, htypeOf, bounded_ofBool _, hchoose⟩

/-- No builtin gives a color that was made in another way. -/
theorem bounded : ∀ b ∈ all, b.run.Bounded := by
  have hall : ∀ b ∈ all, b.Bounded := by
    simp only [all, List.forall_mem_append]
    exact ⟨⟨⟨⟨⟨bounded_onChannels, bounded_onHsl⟩, bounded_onComponents⟩,
      bounded_onQuantities⟩, bounded_onLists⟩, bounded_onValues⟩
  exact fun b hb => Bounded.run (hall b hb)

end Builtin

/-! ### Signatures -/

namespace Signature

variable {location : Option Location}

theorem Denotes.bounded {kind : TokenKind} {v : Value} (h : Denotes location kind v) :
    v.Bounded := by
  cases h <;> simp [Color.bounded_ofHex]

theorem IsParam.bounded {kinds : List TokenKind} {param : Param} (h : IsParam location kinds param) :
    ∀ e, param.default = some e → e.Bounded := by
  cases h with
  | required name => nofun
  | optional hvalue =>
    rintro _ ⟨⟩
    rw [Expr.Bounded]
    exact hvalue.bounded

theorem IsParams.bounded {kinds : List TokenKind} {p : Params} (h : IsParams location kinds p) :
    p.Bounded := by
  induction h with
  | last hparam => exact List.forall_mem_singleton.2 hparam.bounded
  | rest name => nofun
  | cons hparam _ ih => exact List.forall_mem_cons.2 ⟨hparam.bounded, ih⟩

end Signature

/-- A signature can have colors for defaults, and those are bounded. -/
theorem Params.FromSignature.bounded {p : Params} (h : p.FromSignature) : p.Bounded := by
  obtain ⟨text, b, b', hread⟩ := h
  obtain ⟨_, _, _, _, hsignature⟩ := Signature.read_eq_ok_iff.1 ⟨b', hread⟩
  cases hsignature with
  | empty => nofun
  | params hparams _ => exact hparams.bounded

theorem Registry.bounded_standard : standard.Holds Function.Bounded := by
  refine holds_standard (fun f hf => ⟨hf.params, hf.native, hf.written⟩) ?_
  intro b hb params hparams
  refine ⟨hparams.bounded, ?_, nofun⟩
  rintro _ ⟨⟩
  exact b.bounded hb

end StyleScript
