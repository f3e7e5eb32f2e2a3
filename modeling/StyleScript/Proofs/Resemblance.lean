-- SUMMARY: Programs, and machines that run them, which differ in spellings, locations and numbers of scopes only.
import Mathlib.Data.List.Forall2
import StyleScript.Proofs.Outcome

/-!
# Resemblance

Two programs resemble each other when one becomes the other by spelling names in another
way, and by giving other locations, or none, to its parts. Each name and each location
is changed on its own, so two occurrences of a name need not be changed alike. Which
spellings and which locations may stand for each other is a parameter, and so is which
scopes of one machine stand for which scopes of another.

The relation follows the data: values, expressions, parameters, statements, functions,
scopes, stores, machines, and at last what a computation comes to.
-/

namespace StyleScript

/-- What two programs may differ in. -/
structure Resemblance where
  /-- The names that stand for each other. -/
  name : String → String → Prop
  /-- The locations that stand for each other. -/
  place : Option Location → Option Location → Prop
  /-- The scopes that stand for each other. -/
  scope : ScopeId → ScopeId → Prop
  /-- The numbers that two machines may give out next. -/
  next : ScopeId → ScopeId → Prop
  name_refl (x : String) : name x x
  name_canonical {x y : String} : name x y → canonical x = canonical y
  place_refl (l : Option Location) : place l l
  place_orElse {l l' k k' : Option Location} :
    place l l' → place k k' → place (l <|> k) (l' <|> k')
  scope_iff {a a' b b' : ScopeId} : scope a b → scope a' b' → (a = a' ↔ b = b')
  scope_of_next {a b : ScopeId} : next a b → scope a b
  next_succ {a b : ScopeId} : next a b → next (a + 1) (b + 1)

namespace Resemblance

/-- Programs that do not differ at all. -/
def same : Resemblance where
  name := Eq
  place := Eq
  scope := Eq
  next := Eq
  name_refl _ := rfl
  name_canonical := congrArg canonical
  place_refl _ := rfl
  place_orElse h h' := by rw [h, h']
  scope_iff h h' := by rw [h, h']
  scope_of_next := id
  next_succ := congrArg (· + 1)

/-- Only names that are spelled alike stand for each other. -/
def Verbatim (R : Resemblance) : Prop := ∀ x y, R.name x y → x = y

/-- Only equal locations stand for each other. -/
def Located (R : Resemblance) : Prop := ∀ l l', R.place l l' → l = l'

end Resemblance

variable {R : Resemblance}

/-! ## Values -/

/-- Values that differ in locations only, their own ones and those of their items. -/
inductive Value.Resembles (R : Resemblance) : Value → Value → Prop where
  | number {n : Number} {l l' : Option Location} :
    R.place l l' → Resembles R (.number n l) (.number n l')
  | color {c : Color Float} {l l' : Option Location} :
    R.place l l' → Resembles R (.color c l) (.color c l')
  | string {content : String} {quoted : Bool} {l l' : Option Location} :
    R.place l l' → Resembles R (.string content quoted l) (.string content quoted l')
  | bool {b : Bool} {l l' : Option Location} :
    R.place l l' → Resembles R (.bool b l) (.bool b l')
  | list {vs ws : List Value} {separator : Separator} {l l' : Option Location} :
    List.Forall₂ (Value.Resembles R) vs ws → R.place l l' →
    Resembles R (.list vs separator l) (.list ws separator l')
  | null {l l' : Option Location} : R.place l l' → Resembles R (.null l) (.null l')

/-- Lists of values that resemble each other one by one. -/
abbrev Values.Resemble (R : Resemblance) : List Value → List Value → Prop :=
  List.Forall₂ (Value.Resembles R)

mutual

theorem Value.resembles_refl : (v : Value) → v.Resembles R v
  | .number _ l => .number (R.place_refl l)
  | .color _ l => .color (R.place_refl l)
  | .string _ _ l => .string (R.place_refl l)
  | .bool _ l => .bool (R.place_refl l)
  | .list vs _ l => .list (Values.resemble_refl vs) (R.place_refl l)
  | .null l => .null (R.place_refl l)

theorem Values.resemble_refl : (vs : List Value) → Values.Resemble R vs vs
  | [] => .nil
  | v :: vs => .cons v.resembles_refl (Values.resemble_refl vs)

end

mutual

/-- Values with the same locations that resemble each other are the same. -/
theorem Value.Resembles.eq (hplace : R.Located) : (v w : Value) → v.Resembles R w → v = w
  | .number .., _, .number h => by rw [hplace _ _ h]
  | .color .., _, .color h => by rw [hplace _ _ h]
  | .string .., _, .string h => by rw [hplace _ _ h]
  | .bool .., _, .bool h => by rw [hplace _ _ h]
  | .list vs .., _, .list hs h => by rw [hplace _ _ h, Values.Resemble.eq hplace vs _ hs]
  | .null .., _, .null h => by rw [hplace _ _ h]

theorem Values.Resemble.eq (hplace : R.Located) :
    (vs ws : List Value) → Values.Resemble R vs ws → vs = ws
  | [], _, .nil => rfl
  | v :: vs, _, .cons h hs => by
    rw [Value.Resembles.eq hplace v _ h, Values.Resemble.eq hplace vs _ hs]

end

/-! ## Expressions and definitions -/

mutual

/-- Expressions that differ in spellings and locations only. -/
inductive Expr.Resembles (R : Resemblance) : Expr → Expr → Prop where
  | literal {v w : Value} : v.Resembles R w → Expr.Resembles R (.literal v) (.literal w)
  | variable {x y : String} {l l' : Option Location} :
    R.name x y → R.place l l' → Expr.Resembles R (.variable x l) (.variable y l')
  | list {es es' : List Expr} {separator : Separator} :
    List.Forall₂ (Expr.Resembles R) es es' →
    Expr.Resembles R (.list es separator) (.list es' separator)
  | unary {op : UnaryOp} {e e' : Expr} {l l' : Option Location} :
    Expr.Resembles R e e' → R.place l l' → Expr.Resembles R (.unary op e l) (.unary op e' l')
  | binary {op : BinaryOp} {e e' d d' : Expr} {l l' : Option Location} :
    Expr.Resembles R e e' → Expr.Resembles R d d' → R.place l l' →
    Expr.Resembles R (.binary op e d l) (.binary op e' d' l')
  | call {x y : String} {args args' : List Arg} {l l' : Option Location} :
    R.name x y → List.Forall₂ (Arg.Resembles R) args args' → R.place l l' →
    Expr.Resembles R (.call x args l) (.call y args' l')

/-- Arguments that differ in spellings and locations only. -/
inductive Arg.Resembles (R : Resemblance) : Arg → Arg → Prop where
  | mk {x y : Option String} {e e' : Expr} :
    Option.Rel R.name x y → Expr.Resembles R e e' → Arg.Resembles R (.mk x e) (.mk y e')

end

structure Param.Resembles (R : Resemblance) (p q : Param) : Prop where
  name : R.name p.name q.name
  default : Option.Rel (Expr.Resembles R) p.default q.default

structure Params.Resembles (R : Resemblance) (p q : Params) : Prop where
  fixed : List.Forall₂ (Param.Resembles R) p.fixed q.fixed
  rest : Option.Rel R.name p.rest q.rest

/-- Statements that differ in spellings and locations only. -/
inductive Stmt.Resembles (R : Resemblance) : Stmt → Stmt → Prop where
  | assign {x y : String} {e e' : Expr} :
    R.name x y → e.Resembles R e' → Resembles R (.assign x e) (.assign y e')
  | result {e e' : Expr} : e.Resembles R e' → Resembles R (.result e) (.result e')
  | define {x y : String} {p q : Params} {body body' : List Stmt} {l l' : Option Location} :
    R.name x y → p.Resembles R q → List.Forall₂ (Stmt.Resembles R) body body' → R.place l l' →
    Resembles R (.define x p body l) (.define y q body' l')

structure Definition.Resembles (R : Resemblance) (d d' : Definition) : Prop where
  name : R.name d.name d'.name
  params : d.params.Resembles R d'.params
  body : List.Forall₂ (Stmt.Resembles R) d.body d'.body
  location : R.place d.location d'.location

/-! ### A program resembles itself -/

theorem rel_name_refl (x : Option String) : Option.Rel R.name x x := by
  cases x with
  | none => exact .none
  | some x => exact .some (R.name_refl x)

mutual

theorem Expr.resembles_refl : (e : Expr) → e.Resembles R e
  | .literal v => .literal v.resembles_refl
  | .variable x l => .variable (R.name_refl x) (R.place_refl l)
  | .list es _ => .list (Expr.resemble_refl es)
  | .unary _ e l => .unary e.resembles_refl (R.place_refl l)
  | .binary _ e d l => .binary e.resembles_refl d.resembles_refl (R.place_refl l)
  | .call x args l => .call (R.name_refl x) (Arg.resemble_refl args) (R.place_refl l)

theorem Expr.resemble_refl : (es : List Expr) → List.Forall₂ (Expr.Resembles R) es es
  | [] => .nil
  | e :: es => .cons e.resembles_refl (Expr.resemble_refl es)

theorem Arg.resemble_refl : (args : List Arg) → List.Forall₂ (Arg.Resembles R) args args
  | [] => .nil
  | .mk x e :: args => .cons (.mk (rel_name_refl x) e.resembles_refl) (Arg.resemble_refl args)

end

theorem Param.resembles_refl (p : Param) : p.Resembles R p where
  name := R.name_refl p.name
  default := by
    cases p.default with
    | none => exact .none
    | some e => exact .some e.resembles_refl

theorem Params.resembles_refl (p : Params) : p.Resembles R p where
  fixed := List.forall₂_same.2 fun param _ => param.resembles_refl
  rest := rel_name_refl p.rest

mutual

theorem Stmt.resembles_refl : (s : Stmt) → s.Resembles R s
  | .assign x e => .assign (R.name_refl x) e.resembles_refl
  | .result e => .result e.resembles_refl
  | .define x p body l =>
    .define (R.name_refl x) p.resembles_refl (Stmt.resemble_refl body) (R.place_refl l)

theorem Stmt.resemble_refl : (body : List Stmt) → List.Forall₂ (Stmt.Resembles R) body body
  | [] => .nil
  | s :: body => .cons s.resembles_refl (Stmt.resemble_refl body)

end

theorem Definition.resembles_refl (d : Definition) : d.Resembles R d :=
  ⟨R.name_refl d.name, d.params.resembles_refl, Stmt.resemble_refl d.body, R.place_refl d.location⟩

/-! ## Arguments and builds -/

/-- Tables that have things which stand for each other under the same names. -/
def NameTable.Resembles {α β : Type} (P : α → β → Prop) (t : NameTable α) (t' : NameTable β) : Prop :=
  ∀ name, Option.Rel P (t.get? name) (t'.get? name)

structure Args.Resembles (R : Resemblance) (args args' : Args) : Prop where
  positional : Values.Resemble R args.positional args'.positional
  named : List.Forall₂ (fun a b => R.name a.1 b.1 ∧ a.2.Resembles R b.2) args.named args'.named

structure Builder.Resembles (R : Resemblance) (b b' : Builder) : Prop where
  location : R.place b.location b'.location
  built : b.built = b'.built

theorem Args.resembles_refl (args : Args) : args.Resembles R args where
  positional := Values.resemble_refl args.positional
  named := List.forall₂_same.2 fun arg _ => ⟨R.name_refl arg.1, arg.2.resembles_refl⟩

/-- Builders with the same location that resemble each other are the same. -/
theorem Builder.Resembles.eq (hplace : R.Located) {b b' : Builder} (h : b.Resembles R b') : b = b' := by
  obtain ⟨hlocation, hbuilt⟩ := h
  have hsame := hplace _ _ hlocation
  cases b
  cases b'
  simp_all

/-- Two builds end alike: with values that resemble each other, or with the same error. -/
inductive Build.EndAlike (R : Resemblance) :
    EStateM.Result Error Builder Value → EStateM.Result Error Builder Value → Prop where
  | ok {v w : Value} {b b' : Builder} :
    v.Resembles R w → b.Resembles R b' → EndAlike R (.ok v b) (.ok w b')
  | error {e : Error} {b b' : Builder} : b.Resembles R b' → EndAlike R (.error e b) (.error e b')

/-- Builds that end alike wherever they start alike. -/
def Build.Resembles (R : Resemblance) (x y : Build Value) : Prop :=
  ∀ b b' : Builder, b.Resembles R b' → EndAlike R (x b) (y b')

/-- Invocations with the same arguments up to locations, and the same options. -/
structure Invocation.Resembles (R : Resemblance) (call call' : Invocation) : Prop where
  bound : call.bound.Resembles (Value.Resembles R) call'.bound
  options : call.options = call'.options

/-- Code that sees nothing of an invocation but its arguments and the options, and does
    not look at locations. -/
def NativeCode.Indifferent (run : NativeCode) : Prop :=
  ∀ (R : Resemblance) (call call' : Invocation), call.Resembles R call' →
    Build.Resembles R (run call) (run call')

/-! ## Machines -/

/-- Functions that differ in spellings, locations and the numbers of scopes only. Their code
    must be indifferent to all of these. -/
inductive Function.Resembles (R : Resemblance) : Function → Function → Prop where
  | native {x y : String} {p q : Params} {run : NativeCode} {overloaded : Bool} :
    R.name x y → p.Resembles R q → run.Indifferent →
    Resembles R ⟨x, p, .native run, overloaded⟩ ⟨y, q, .native run, overloaded⟩
  | written {x y : String} {p q : Params} {d d' : Definition} {a b : ScopeId} {overloaded : Bool} :
    R.name x y → p.Resembles R q → d.Resembles R d' → R.scope a b →
    Resembles R ⟨x, p, .written d a, overloaded⟩ ⟨y, q, .written d' b, overloaded⟩

structure Scope.Resembles (R : Resemblance) (sc sc' : Scope) : Prop where
  values : sc.values.Resembles (Value.Resembles R) sc'.values
  functions : sc.functions.Resembles (Function.Resembles R) sc'.functions
  ancestors : List.Forall₂ R.scope sc.ancestors sc'.ancestors

structure Store.Resembles (R : Resemblance) (store store' : Store) : Prop where
  next : R.next store.next store'.next
  scopes : ∀ a b, R.scope a b → Option.Rel (Scope.Resembles R) (store.get? a) (store'.get? b)

structure Machine.Resembles (R : Resemblance) (m n : Machine) : Prop where
  store : m.store.Resembles R n.store
  builder : m.builder.Resembles R n.builder
  depth : m.depth = n.depth

/-! ## Outcomes -/

/-- Errors of one kind, at locations that stand for each other; worded alike unless names
    may be spelled in different ways. -/
structure Error.Resembles (R : Resemblance) (e e' : Error) : Prop where
  kind : e.kind = e'.kind
  location : R.place e.location e'.location
  wording : R.Verbatim → e.cause = e'.cause ∧ e.contexts = e'.contexts

/-- Outcomes that resemble each other, results being related by `P`. -/
inductive Outcome.Resembles {α β : Type} (R : Resemblance) (P : α → β → Prop) :
    Outcome α → Outcome β → Prop where
  | ok {a : α} {b : β} {m n : Machine} :
    P a b → m.Resembles R n → Resembles R P (.ok a m) (.ok b n)
  | error {e e' : Error} {m n : Machine} : e.Resembles R e' → m.Resembles R n →
    Resembles R P (.error (.error e) m) (.error (.error e') n)
  | outOfFuel {m n : Machine} :
    m.Resembles R n → Resembles R P (.error .outOfFuel m) (.error .outOfFuel n)

/-- Computations that come to outcomes which resemble each other, from machines that do. -/
def Eval.Resembles {α β : Type} (R : Resemblance) (P : α → β → Prop) (x : Eval α) (y : Eval β) :
    Prop :=
  ∀ m n, m.Resembles R n → Outcome.Resembles R P (x m) (y n)

/-- Two ways to make calls, which resemble each other on calls that do. -/
def Caller.Resembles (R : Resemblance) (call call' : Caller) : Prop :=
  ∀ x y args args' a b l l', R.name x y → args.Resembles R args' → R.scope a b → R.place l l' →
    Eval.Resembles R (Value.Resembles R) (call x args a l) (call' y args' b l')

end StyleScript
