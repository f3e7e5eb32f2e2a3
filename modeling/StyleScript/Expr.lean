-- SUMMARY: Expressions, parameter lists, statements and function definitions.
import StyleScript.Value
import StyleScript.Name

/-!
# Expressions and definitions

Programs are trees over values that are already built. A node remembers where
it was written when that is known.
-/

namespace StyleScript

/-! ## Operators -/

inductive UnaryOp where
  | negate
  | not
  deriving DecidableEq, Repr

inductive BinaryOp where
  | add
  | sub
  | mul
  | div
  | rem
  | eq
  | ne
  | lt
  | le
  | gt
  | ge
  | and
  | or
  deriving DecidableEq, Repr

namespace BinaryOp

/-- An operator as it is written. -/
def symbol : BinaryOp → String
  | .add => "+"
  | .sub => "-"
  | .mul => "*"
  | .div => "/"
  | .rem => "%"
  | .eq => "=="
  | .ne => "!="
  | .lt => "<"
  | .le => "<="
  | .gt => ">"
  | .ge => ">="
  | .and => "and"
  | .or => "or"

/-- All operators. -/
def all : List BinaryOp := [.add, .sub, .mul, .div, .rem, .eq, .ne, .lt, .le, .gt, .ge, .and, .or]

end BinaryOp

/-! ## Expressions -/

mutual

/-- An expression. -/
inductive Expr where
  | literal (value : Value)
  | variable (name : String) (location : Option Location)
  | list (items : List Expr) (separator : Separator)
  | unary (op : UnaryOp) (operand : Expr) (location : Option Location)
  | binary (op : BinaryOp) (left right : Expr) (location : Option Location)
  | call (name : String) (args : List Arg) (location : Option Location)

/-- An argument of a call, by position or by name. -/
inductive Arg where
  | mk (name : Option String) (value : Expr)

end

/-! ## Parameter lists -/

/-- A parameter, which may be left out of a call when it has a default. -/
structure Param where
  name : String
  default : Option Expr

/-- Parameters, and the name that takes the positional arguments beyond them. -/
structure Params where
  fixed : List Param
  rest : Option String

namespace Params

/-- No parameters at all. -/
def empty : Params := ⟨[], none⟩

/-- How many parameters have no default. -/
def required (p : Params) : Nat := p.fixed.countP (·.default.isNone)

/-- How many arguments there may be, unless any number may be. -/
def most (p : Params) : Option Nat :=
  match p.rest with
  | some _ => none
  | none => some p.fixed.length

/-- Whether the number of arguments is neither below the required ones nor above
    the most. -/
def accepts (p : Params) (count : Nat) : Bool :=
  p.required ≤ count && p.most.all (count ≤ ·)

/-- The accepted numbers of arguments as diagnostics show them. -/
def countText (p : Params) : String :=
  let required := p.required
  match p.most with
  | none => s!"{required}+"
  | some most => if most = required then s!"{required}" else s!"{required}..{most}"

/-- The names of all parameters, the rest last. -/
def names (p : Params) : List String := p.fixed.map (·.name) ++ p.rest.toList

end Params

/-! ## Statements -/

/-- A statement of a body: assign to a variable, return a value, or define a
    function. -/
inductive Stmt where
  | assign (name : String) (value : Expr)
  | result (value : Expr)
  | define (name : String) (params : Params) (body : List Stmt) (location : Option Location)

/-- A function as it is written. -/
structure Definition where
  name : String
  params : Params
  body : List Stmt
  location : Option Location

end StyleScript
