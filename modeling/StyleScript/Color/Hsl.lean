-- SUMMARY: Hue, saturation and lightness, both ways.
import StyleScript.Color.Basic

/-!
# Hue, saturation and lightness

The hue is an angle from `0` up to but not including `360`, saturation and
lightness are percentages. The conversions take any scalars: a hue wraps around,
and percentages are moved into their range.
-/

namespace StyleScript

/-- Hue, saturation and lightness. -/
structure Hsl (K : Type) where
  hue : K
  saturation : K
  lightness : K
  deriving DecidableEq

namespace Hsl

variable {K : Type} [Scalar K]

/-- An angle from `0` up to but not including `360`. -/
def wrapHue (hue : K) : K :=
  let rest := Scalar.remainder hue 360
  let turned := if rest < 0 then rest + 360 else rest
  if 360 ≤ turned then 0 else turned

/-- The hue in sixths of a turn, not wrapped, for channels of which `top` is the
    largest and `spread` is the distance from the smallest. -/
def sextant (red green blue top spread : K) : K :=
  if top == red then (green - blue) / spread + (if green < blue then 6 else 0)
  else if top == green then (blue - red) / spread + 2
  else (red - green) / spread + 4

/-- Hue, saturation and lightness of channels from `0` to `255`. Greys have hue
    and saturation `0`. -/
def ofRgb (red green blue : K) : Hsl K :=
  let red := red / 255
  let green := green / 255
  let blue := blue / 255
  let top := Scalar.larger (Scalar.larger red green) blue
  let bottom := Scalar.smaller (Scalar.smaller red green) blue
  let spread := top - bottom
  let lightness := (top + bottom) / 2
  if spread == 0 then ⟨0, 0, lightness * 100⟩
  else
    let saturation :=
      if 1 / 2 < lightness then spread / (2 - top - bottom) else spread / (top + bottom)
    ⟨wrapHue (sextant red green blue top spread * 60), saturation * 100, lightness * 100⟩

/-- One channel from `0` to `1` at an angle given in turns: it climbs from `low`
    to `high` in the first sixth, stays there until the half, and falls back by
    two thirds of the turn. -/
def channelAt (low high turn : K) : K :=
  let turn := if turn < 0 then turn + 1 else turn
  let turn := if 1 < turn then turn - 1 else turn
  if turn * 6 < 1 then low + (high - low) * turn * 6
  else if turn * 2 < 1 then high
  else if turn * 3 < 2 then low + (high - low) * (2 / 3 - turn) * 6
  else low

/-- The channels from `0` to `255` of a hue, a saturation and a lightness. -/
def toRgb (c : Hsl K) : K × K × K :=
  let turn := wrapHue c.hue / 360
  let saturation := Scalar.clamp 0 100 c.saturation / 100
  let lightness := Scalar.clamp 0 100 c.lightness / 100
  let high :=
    if lightness ≤ 1 / 2 then lightness * (saturation + 1)
    else lightness + saturation - lightness * saturation
  let low := lightness * 2 - high
  (channelAt low high (turn + 1 / 3) * 255, channelAt low high turn * 255,
    channelAt low high (turn - 1 / 3) * 255)

end Hsl

namespace Color

variable {K : Type} [Scalar K]

/-- The color of a hue, a saturation and a lightness, with an opacity. -/
def ofHsl (c : Hsl K) (alpha : K) : Color K :=
  let (red, green, blue) := c.toRgb
  rgba red green blue alpha

/-- Hue, saturation and lightness of a color. -/
def toHsl (c : Color K) : Hsl K := .ofRgb c.red c.green c.blue

/-- Change hue, saturation or lightness and keep the opacity. -/
def mapHsl (f : Hsl K → Hsl K) (c : Color K) : Color K := ofHsl (f c.toHsl) c.alpha

/-! ## Edits of one component -/

/-- A percentage in its range. -/
def percent (x : K) : K := Scalar.limit 0 100 x

def adjustHue (degrees : K) : Color K → Color K := mapHsl fun c => { c with hue := c.hue + degrees }

def lighten (amount : K) : Color K → Color K :=
  mapHsl fun c => { c with lightness := percent (c.lightness + amount) }

def darken (amount : K) : Color K → Color K :=
  mapHsl fun c => { c with lightness := percent (c.lightness - amount) }

def saturate (amount : K) : Color K → Color K :=
  mapHsl fun c => { c with saturation := percent (c.saturation + amount) }

def desaturate (amount : K) : Color K → Color K :=
  mapHsl fun c => { c with saturation := percent (c.saturation - amount) }

/-- The grey of the same lightness. -/
def grayscale : Color K → Color K := mapHsl fun c => { c with saturation := 0 }

/-- The color on the opposite side of the circle of hues. -/
def complement : Color K → Color K := adjustHue 180

end Color

end StyleScript
