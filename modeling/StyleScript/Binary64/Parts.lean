-- SUMMARY: What a double stands for: a sign, a whole mantissa and a power of two; and the way back.

/-!
# Parts of a double

Arithmetic on `Float` is modelled, but its roundings to whole numbers are not.
Everything of that kind is therefore computed on the parts of a double: a
finite one is `± mantissa * 2 ^ exponent` with a natural mantissa, so a
question about it is a question about integers.
-/

namespace StyleScript.Binary64

open Float.Model

/-- What a double stands for. Both zeros are finite, with mantissa `0`. -/
inductive Parts where
  | nan
  | infinite (negative : Bool)
  | finite (negative : Bool) (mantissa : Nat) (exponent : Int)
  deriving DecidableEq, Repr

/-! ## Signs -/

/-- Whether a sign is the minus sign. -/
def negativeSign : UnpackedFloat.Sign → Bool
  | .negative => true
  | .positive => false

/-- The sign that is negative or not as asked. -/
def signOf (negative : Bool) : UnpackedFloat.Sign :=
  if negative then .negative else .positive

@[simp] theorem negativeSign_signOf (negative : Bool) : negativeSign (signOf negative) = negative := by
  cases negative <;> rfl

@[simp] theorem signOf_negativeSign (s : UnpackedFloat.Sign) : signOf (negativeSign s) = s := by
  cases s <;> rfl

/-! ## Taking apart and putting together -/

/-- The parts of a double. A mantissa below `2 ^ 52` occurs only with the
    least exponent, `-1074`, or as zero. -/
def parts (x : Float) : Parts :=
  match x.toModel.unpack with
  | .notANumber => .nan
  | .infinity s => .infinite (negativeSign s)
  | .zero s => .finite (negativeSign s) 0 0
  | .finite s m e _ => .finite (negativeSign s) m e

/-- The double nearest to `± mantissa * 2 ^ exponent`; of two equally near the
    one with the even mantissa. A zero mantissa keeps its sign. -/
def assemble (negative : Bool) (mantissa : Nat) (exponent : Int) : Float :=
  Float.ofModel <| pack <|
    if mantissa = 0 then .zero (signOf negative)
    else UnpackedFloat.round .binary64 (signOf negative) mantissa exponent

/-- The double that is not a number. -/
def nan : Float := 0 / 0

/-- Whether a double is a number of the real line. -/
def isFinite (x : Float) : Bool :=
  match parts x with
  | .finite .. => true
  | _ => false

end StyleScript.Binary64
