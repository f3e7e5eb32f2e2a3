-- SUMMARY: Weighted averages of colors, and inversion.
import StyleScript.Color.Basic

/-!
# Blending

The average of two colors weighs the channels by the wanted share and by the
difference of the opacities: of two equally shared colors the more opaque one
shows more.
-/

namespace StyleScript.Color

variable {K : Type} [Scalar K]

/-- The share of the first color in the channels, from its share in the whole
    and the amount by which its opacity exceeds the other one's. The fraction
    has no denominator when a color of share `0` or `1` meets the opposite
    opacity; the share itself stands in for it. -/
def channelShare (share excess : K) : K :=
  let w := 2 * share - 1
  ((if w * excess == 0 - 1 then w else (w + excess) / (1 + w * excess)) + 1) / 2

/-- The average of two colors; `share` from `0` to `1` is that of the first. -/
def mix (first second : Color K) (share : K) : Color K :=
  let w₁ := channelShare share (first.alpha - second.alpha)
  let w₂ := 1 - w₁
  rgba (first.red * w₁ + second.red * w₂) (first.green * w₁ + second.green * w₂)
    (first.blue * w₁ + second.blue * w₂) (first.alpha * share + second.alpha * (1 - share))

/-- Each channel counted from the other end of its range. -/
def negative (c : Color K) : Color K := rgba (255 - c.red) (255 - c.green) (255 - c.blue) c.alpha

/-- The average of the negative color, with the given share, and the color. -/
def invert (c : Color K) (share : K) : Color K := mix c.negative c share

end StyleScript.Color
