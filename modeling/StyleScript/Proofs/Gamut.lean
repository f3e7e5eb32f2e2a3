-- SUMMARY: Colors with every component in its range, and what they show.
import StyleScript.Proofs.Doubles
import StyleScript.Proofs.Rendering

/-!
# The gamut

A color is made by moving each component into its range. On doubles this covers all of them:
infinities go to the ends, and what is not a number goes to the lower end. So the components
of a color that was made this way are numbers of their ranges. The channels of such a color
are nearest to bytes, and it shows these bytes and no others.
-/

namespace StyleScript.Color

/-- Three channels from `0` to `255` and an opacity from `0` to `1`. What does not equal itself is
    in no range. -/
structure InGamut {K : Type} [Scalar K] (c : Color K) : Prop where
  red : 0 ≤ c.red ∧ c.red ≤ 255
  green : 0 ≤ c.green ∧ c.green ≤ 255
  blue : 0 ≤ c.blue ∧ c.blue ≤ 255
  alpha : 0 ≤ c.alpha ∧ c.alpha ≤ 1

/-- A color whose components were moved into their ranges, whatever they were. -/
def Bounded (c : Color Float) : Prop := ∃ red green blue alpha, c = rgba red green blue alpha

/-- What a color in gamut shows. Its components are numbers, its channels are nearest to whole
    numbers that are bytes, and without transparency it is written as six hexadecimal digits. -/
structure Presentable (c : Color Float) : Prop where
  inGamut : c.InGamut
  numbers : ∀ x ∈ [c.red, c.green, c.blue, c.alpha], x.isNaN = false
  bytes : ∀ x ∈ [c.red, c.green, c.blue],
    ∃ k : Nat, k < 256 ∧ Binary64.nearestInt? x = some (k : Int) ∧ (Binary64.toByte x).toNat = k
  solid : near c.alpha 1 = true → ∃ digits : List Char, digits.length = 6 ∧
    (∀ d ∈ digits, Signature.isHexDigit d = true) ∧ c.text = String.ofList ('#' :: digits)

variable {c : Color Float}

theorem inGamut_rgba (red green blue alpha : Float) : (rgba red green blue alpha).InGamut := by
  have hchannel (x : Float) : 0 ≤ channel x ∧ channel x ≤ 255 :=
    Binary64.clamp_between (by decide +kernel) (by decide +kernel) (by decide +kernel) x
  have halpha : 0 ≤ Scalar.clamp 0 1 alpha ∧ Scalar.clamp 0 1 alpha ≤ 1 :=
    Binary64.clamp_between (by decide +kernel) (by decide +kernel) (by decide +kernel) alpha
  exact ⟨hchannel red, hchannel green, hchannel blue, halpha⟩

theorem Bounded.inGamut (h : c.Bounded) : c.InGamut := by
  obtain ⟨red, green, blue, alpha, rfl⟩ := h
  exact inGamut_rgba red green blue alpha

theorem length_digits (c : Color Float) : c.digits.length = 6 := rfl

theorem isHexDigit_digits (c : Color Float) : ∀ d ∈ c.digits, Signature.isHexDigit d = true := by
  simp only [digits, List.forall_mem_append]
  exact ⟨⟨isHexDigit_hexByte _, isHexDigit_hexByte _⟩, isHexDigit_hexByte _⟩

theorem InGamut.presentable (h : c.InGamut) : c.Presentable where
  inGamut := h
  numbers := by
    simp only [List.forall_mem_cons]
    exact ⟨Binary64.isNaN_of_le h.red.1, Binary64.isNaN_of_le h.green.1,
      Binary64.isNaN_of_le h.blue.1, Binary64.isNaN_of_le h.alpha.1, nofun⟩
  bytes := by
    simp only [List.forall_mem_cons]
    exact ⟨Binary64.toByte_between h.red.1 h.red.2, Binary64.toByte_between h.green.1 h.green.2,
      Binary64.toByte_between h.blue.1 h.blue.2, nofun⟩
  solid hsolid := by
    refine ⟨c.digits, c.length_digits, c.isHexDigit_digits, ?_⟩
    simp only [text, hsolid, if_true, digits]

end StyleScript.Color
