-- SUMMARY: Characters without a glyph of their own.
import StyleScript.Text.Marks
import StyleScript.Text.Unassigned

/-!
# Glyphs

Listings escape what could not be seen in them: control and format characters,
blanks other than the space, private characters, letters that only fill a place,
marks that extend the character before them, and code points that no character
has.
-/

namespace StyleScript.Text

/-- The inclusive ranges of the general categories `Cc`, `Cf`, `Co`, `Zl`, `Zp`
    and `Zs` without the space, and of the letters that are ignored by default,
    the fillers of Hangul. -/
def blindRanges : List (Nat × Nat) :=
  [(0x0, 0x1F), (0x7F, 0xA0), (0xAD, 0xAD), (0x600, 0x605), (0x61C, 0x61C), (0x6DD, 0x6DD),
    (0x70F, 0x70F), (0x890, 0x891), (0x8E2, 0x8E2), (0x115F, 0x1160), (0x1680, 0x1680),
    (0x180E, 0x180E), (0x2000, 0x200F), (0x2028, 0x202F), (0x205F, 0x2064), (0x2066, 0x206F),
    (0x3000, 0x3000), (0x3164, 0x3164), (0xE000, 0xF8FF), (0xFEFF, 0xFEFF), (0xFFA0, 0xFFA0),
    (0xFFF9, 0xFFFB), (0x110BD, 0x110BD), (0x110CD, 0x110CD), (0x13430, 0x1343F),
    (0x1BCA0, 0x1BCA3), (0x1D173, 0x1D17A), (0xE0001, 0xE0001), (0xE0020, 0xE007F),
    (0xF0000, 0xFFFFD), (0x100000, 0x10FFFD)]

/-- Whether a code point lies in one of the ranges. -/
def inRanges (ranges : List (Nat × Nat)) (n : Nat) : Bool :=
  ranges.any fun (first, last) => first ≤ n && n ≤ last

/-- Whether a character has no glyph of its own. -/
def isHidden (c : Char) : Bool :=
  inRanges blindRanges c.toNat || inRanges markRanges c.toNat || inRanges unassignedRanges c.toNat

end StyleScript.Text
