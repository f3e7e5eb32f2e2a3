-- SUMMARY: Colors as they are written: whole channels, hexadecimal or with an opacity.
import StyleScript.Color.Basic
import StyleScript.Number

/-!
# Colors as text

Channels are written as whole numbers. A color that is opaque within the
tolerance is six hexadecimal digits, any other one shows its opacity. Colors
that are written with the same channels are equal when their opacities are.
-/

namespace StyleScript.Color

/-- The whole channels of a color. -/
def rounded (c : Color Float) : UInt8 × UInt8 × UInt8 :=
  (Binary64.toByte c.red, Binary64.toByte c.green, Binary64.toByte c.blue)

/-- Equality of the whole channels, and of the opacities within the tolerance. -/
def same (a b : Color Float) : Bool := a.rounded == b.rounded && near a.alpha b.alpha

/-- A byte as two hexadecimal digits. -/
def hexByte (b : UInt8) : List Char :=
  [Nat.digitChar (b.toNat / 16), Nat.digitChar (b.toNat % 16)]

/-- A color as it is written. -/
def text (c : Color Float) : String :=
  let (red, green, blue) := c.rounded
  if near c.alpha 1 then
    String.ofList ('#' :: (hexByte red ++ hexByte green ++ hexByte blue))
  else
    let alpha := Decimal.format defaultPlaces c.alpha
    s!"rgba({red}, {green}, {blue}, {alpha})"

/-- The value of a hexadecimal digit; other characters count as zero. -/
def hexDigit (c : Char) : Nat :=
  if c.isDigit then c.toNat - '0'.toNat
  else if 'a' ≤ c ∧ c ≤ 'f' then c.toNat - 'a'.toNat + 10
  else if 'A' ≤ c ∧ c ≤ 'F' then c.toNat - 'A'.toNat + 10
  else 0

/-- The opaque color of three hexadecimal digits, each doubled, or of three
    pairs of them. -/
def ofHex (digits : List Char) : Color Float :=
  match digits.map hexDigit with
  | [r, g, b] => rgb (Float.ofNat (r * 17)) (Float.ofNat (g * 17)) (Float.ofNat (b * 17))
  | [r₁, r₂, g₁, g₂, b₁, b₂] =>
    rgb (Float.ofNat (r₁ * 16 + r₂)) (Float.ofNat (g₁ * 16 + g₂)) (Float.ofNat (b₁ * 16 + b₂))
  | _ => rgb 0 0 0

end StyleScript.Color
