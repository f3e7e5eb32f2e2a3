-- SUMMARY: Operators on values that are already evaluated.
import StyleScript.Build
import StyleScript.Expr

/-!
# Operators

Equality is defined for all values. Arithmetic and ordering are defined on
numbers, and `+` also joins a string to a string, a number or a truth value, and
a number to a string. `and` and `or` are not here, because they do not evaluate
both sides.
-/

namespace StyleScript

namespace BinaryOp

/-- The error of an operator that is not defined on two values. -/
def undefined (op : BinaryOp) (left right : Value) : Error :=
  .ofCause (.undefinedOperation left.text op.symbol right.text left.typeName right.typeName)

/-- The numeric operators on two numbers; no result for the other operators. -/
def onNumbers? (op : BinaryOp) (a b : Number) : Option (Build Value) :=
  let number (result : Except Error Number) : Option (Build Value) :=
    some (Build.ofExcept result >>= Build.number)
  let ordered (holds : Ordering → Bool) : Option (Build Value) :=
    some (Build.ofExcept (a.compare b) >>= fun order => Build.bool (holds order))
  match op with
  | .add => number (a.add b)
  | .sub => number (a.sub b)
  | .mul => number (.ok (a.mul b))
  | .div => number (.ok (a.div b))
  | .rem => number (a.rem b)
  | .lt => ordered (·.isLT)
  | .le => ordered (·.isLE)
  | .gt => ordered (·.isGT)
  | .ge => ordered (·.isGE)
  | .eq | .ne | .and | .or => none

/-- Two texts, joined to a string. -/
def concat (left right : String) (quoted : Bool) : Build Value := Build.string (left ++ right) quoted

/-- An operator on two values, if it is defined on their types. A joined string
    is quoted when the left side is a quoted string. -/
def compute? (op : BinaryOp) (left right : Value) : Option (Build Value) :=
  match op, left, right with
  | op, .number a _, .number b _ => op.onNumbers? a b
  | .add, .string a quoted _, .string b _ _ => some (concat a b quoted)
  | .add, .string a quoted _, .number _ _ => some (concat a right.text quoted)
  | .add, .number _ _, .string b _ _ => some (concat left.text b false)
  | .add, .string a quoted _, .bool _ _ => some (concat a right.text quoted)
  | _, _, _ => none

/-- An operator on two values. -/
def apply (op : BinaryOp) (left right : Value) : Build Value :=
  match op with
  | .eq => Build.bool (left.same right)
  | .ne => Build.bool (!left.same right)
  | op => (op.compute? left right).getD (throw (op.undefined left right))

end BinaryOp

/-- An operator on one value. Negation keeps the units. -/
def UnaryOp.apply (op : UnaryOp) (operand : Value) : Build Value :=
  match op with
  | .not => Build.bool (!operand.isTruthy)
  | .negate =>
    match operand with
    | .number n _ => Build.number (n.map (-·))
    | _ => throw (.ofCause (.undefinedNegation operand.text))

end StyleScript
