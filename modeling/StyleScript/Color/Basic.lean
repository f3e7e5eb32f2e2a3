-- SUMMARY: Colors by red, green, blue and opacity.
import StyleScript.Scalar

/-!
# Colors

A color has three channels from `0` to `255` and an opacity from `0` to `1`.
Colors are built by `Color.rgba`, which moves every component into its range,
so that whatever is computed with them is again a color.
-/

namespace StyleScript

/-- Three channels and an opacity. -/
structure Color (K : Type) where
  red : K
  green : K
  blue : K
  alpha : K
  deriving DecidableEq

namespace Color

variable {K : Type} [Scalar K]

/-- A channel in its range. -/
def channel (x : K) : K := Scalar.clamp 0 255 x

/-- The color of the channels and the opacity, each moved into its range. -/
def rgba (red green blue alpha : K) : Color K :=
  ⟨channel red, channel green, channel blue, Scalar.clamp 0 1 alpha⟩

/-- An opaque color. -/
def rgb (red green blue : K) : Color K := rgba red green blue 1

/-- The color with another opacity. -/
def withAlpha (alpha : K) (c : Color K) : Color K := rgba c.red c.green c.blue alpha

end Color

end StyleScript
