-- SUMMARY: On exact scalars a blend is a weighted average of two colors.
import Mathlib.Order.Interval.Set.UnorderedInterval
import Mathlib.Tactic.FieldSimp
import StyleScript.Color.Blend
import StyleScript.Proofs.HslEdits

/-!
# Weighted averages of colors

The share of a color in the channels is a fraction of its share in the whole and of the excess of
its opacity. Both are at most one away from zero, so the denominator is not negative, and it is
zero only where the fraction is not used. Everything else follows from three facts about the
share: it lies between zero and one, it is one when the whole belongs to the first color, and
from the other side it is the rest.
-/

namespace StyleScript

/-- A weighted average lies between what is averaged. -/
theorem average_mem {w : ℚ} (hw : w ∈ Set.Icc 0 1) (x y : ℚ) : x * w + y * (1 - w) ∈ Set.uIcc x y := by
  obtain ⟨hlow, hhigh⟩ := hw
  rw [Set.mem_uIcc]
  rcases le_total x y with hxy | hyx
  · left
    constructor <;> nlinarith
  · right
    constructor <;> nlinarith

theorem Checked.clamp_of (low high x : ℚ) :
    Scalar.clamp (of low) (of high) (of x) = of (Scalar.clamp low high x) := by
  simp only [Scalar.clamp, Scalar.limit, of_beq, of_lt, ite_of]

namespace Color

variable {share excess : ℚ} {c c₁ c₂ : Color ℚ}

/-! ## The share of the first color -/

/-- Where the fraction has no denominator, the share stands in for it. -/
theorem channelShare_singular (h : (2 * share - 1) * excess = -1) : channelShare share excess = share := by
  have hguard : ((2 * share - 1) * excess == 0 - 1) = true := beq_iff_eq.2 (by linarith)
  simp only [channelShare, hguard, if_true]
  ring

theorem channelShare_regular (h : (2 * share - 1) * excess ≠ -1) :
    channelShare share excess =
      ((2 * share - 1 + excess) / (1 + (2 * share - 1) * excess) + 1) / 2 := by
  have hguard : ¬((2 * share - 1) * excess == 0 - 1) = true := fun heq => by
    refine h ?_
    rw [beq_iff_eq.1 heq]
    ring
  simp only [channelShare, if_neg hguard]

/-- No zero is divided by: the fraction is not used where it has no denominator. -/
theorem channelShare_of (share excess : ℚ) :
    channelShare (Checked.of share) (Checked.of excess) = .of (channelShare share excess) := by
  have htwo : (2 : ℚ) ≠ 0 := by norm_num
  have hchecked : ((2 * Checked.of share - 1) * Checked.of excess == 0 - 1) =
      ((2 * share - 1) * excess == 0 - 1) := rfl
  simp only [channelShare]
  by_cases hguard : ((2 * share - 1) * excess == 0 - 1) = true
  · rw [if_pos hguard, if_pos (hchecked.trans hguard)]
    simp only [Checked.ofNat_eq, Checked.of_mul, Checked.of_sub, Checked.of_add, Checked.of_div htwo]
  · have hdenominator : 1 + (2 * share - 1) * excess ≠ 0 := fun hzero =>
      hguard (beq_iff_eq.2 (by linarith))
    rw [if_neg hguard, if_neg (by rwa [hchecked])]
    simp only [Checked.ofNat_eq, Checked.of_mul, Checked.of_sub, Checked.of_add,
      Checked.of_div hdenominator, Checked.of_div htwo]

theorem channelShare_mem (hshare : share ∈ Set.Icc 0 1) (hexcess : excess ∈ Set.Icc (-1) 1) :
    channelShare share excess ∈ Set.Icc 0 1 := by
  by_cases h : (2 * share - 1) * excess = -1
  · rwa [channelShare_singular h]
  · obtain ⟨hshare₀, hshare₁⟩ := hshare
    obtain ⟨hexcess₀, hexcess₁⟩ := hexcess
    rw [channelShare_regular h]
    obtain ⟨w, hw⟩ : ∃ w, w = 2 * share - 1 := ⟨_, rfl⟩
    rw [← hw] at h ⊢
    have hw₀ : -1 ≤ w := by linarith
    have hw₁ : w ≤ 1 := by linarith
    -- the numerator is no further from zero than the denominator
    have hbelow : -(1 + w * excess) ≤ w + excess := by
      nlinarith [mul_nonneg (sub_nonneg.2 hw₀) (sub_nonneg.2 hexcess₀)]
    have habove : w + excess ≤ 1 + w * excess := by
      nlinarith [mul_nonneg (sub_nonneg.2 hw₁) (sub_nonneg.2 hexcess₁)]
    have hpos : 0 < 1 + w * excess :=
      lt_of_le_of_ne (by linarith) fun hzero => h (by linarith)
    have hlow : -1 ≤ (w + excess) / (1 + w * excess) := by
      rw [le_div_iff₀ hpos]
      linarith
    have hhigh : (w + excess) / (1 + w * excess) ≤ 1 := (div_le_one hpos).2 habove
    constructor <;> linarith

/-- From the other side the share is the rest. -/
theorem channelShare_swap (share excess : ℚ) :
    channelShare (1 - share) (-excess) = 1 - channelShare share excess := by
  have hproduct : (2 * (1 - share) - 1) * -excess = (2 * share - 1) * excess := by ring
  by_cases h : (2 * share - 1) * excess = -1
  · rw [channelShare_singular h, channelShare_singular (hproduct.trans h)]
  · have hdenominator : 1 + (2 * share - 1) * excess ≠ 0 := fun hzero => h (by linarith)
    rw [channelShare_regular h, channelShare_regular (by rwa [hproduct]), hproduct]
    field_simp
    ring

theorem channelShare_one (excess : ℚ) : channelShare 1 excess = 1 := by
  by_cases h : (2 * 1 - 1) * excess = -1
  · exact channelShare_singular h
  · have hdenominator : 1 + (2 * 1 - 1) * excess ≠ 0 := fun hzero => h (by linarith)
    have hsame : 2 * 1 - 1 + excess = 1 + (2 * 1 - 1) * excess := by ring
    rw [channelShare_regular h, hsame, div_self hdenominator]
    norm_num

theorem channelShare_zero (excess : ℚ) : channelShare 0 excess = 0 := by
  have hswap := channelShare_swap 1 (-excess)
  rwa [sub_self, neg_neg, channelShare_one, sub_self] at hswap

/-! ## The average -/

/-- A color of checked rationals. -/
def checked (c : Color ℚ) : Color Checked := ⟨.of c.red, .of c.green, .of c.blue, .of c.alpha⟩

theorem mix_checked (c₁ c₂ : Color ℚ) (share : ℚ) :
    mix c₁.checked c₂.checked (.of share) = (mix c₁ c₂ share).checked := by
  simp only [mix, checked, rgba, channel, Checked.of_sub, channelShare_of, Checked.ofNat_eq,
    Checked.of_mul, Checked.of_add, Checked.clamp_of]

/-- An average before its components are moved into their ranges. -/
def average (c₁ c₂ : Color ℚ) (share : ℚ) : Color ℚ :=
  let w := channelShare share (c₁.alpha - c₂.alpha)
  ⟨c₁.red * w + c₂.red * (1 - w), c₁.green * w + c₂.green * (1 - w),
    c₁.blue * w + c₂.blue * (1 - w), c₁.alpha * share + c₂.alpha * (1 - share)⟩

theorem InGamut.share_mem (h₁ : c₁.InGamut) (h₂ : c₂.InGamut) (hshare : share ∈ Set.Icc 0 1) :
    channelShare share (c₁.alpha - c₂.alpha) ∈ Set.Icc 0 1 := by
  obtain ⟨hlow₁, hhigh₁⟩ := h₁.alpha
  obtain ⟨hlow₂, hhigh₂⟩ := h₂.alpha
  refine channelShare_mem hshare ⟨?_, ?_⟩ <;> linarith

/-- Each component of an average lies between those of the two colors. -/
theorem InGamut.average_between (h₁ : c₁.InGamut) (h₂ : c₂.InGamut) (hshare : share ∈ Set.Icc 0 1) :
    ∀ component ∈ [Color.red, Color.green, Color.blue, Color.alpha],
      component (average c₁ c₂ share) ∈ Set.uIcc (component c₁) (component c₂) := by
  have hw := h₁.share_mem h₂ hshare
  simp only [List.forall_mem_cons]
  exact ⟨average_mem hw _ _, average_mem hw _ _, average_mem hw _ _, average_mem hshare _ _, nofun⟩

theorem inGamut_average (h₁ : c₁.InGamut) (h₂ : c₂.InGamut) (hshare : share ∈ Set.Icc 0 1) :
    (average c₁ c₂ share).InGamut := by
  have hbetween := h₁.average_between h₂ hshare
  simp only [List.forall_mem_cons] at hbetween
  obtain ⟨hred, hgreen, hblue, halpha, -⟩ := hbetween
  -- ranges are intervals, so what lies between two of their elements is in them
  exact ⟨Set.uIcc_subset_Icc h₁.red h₂.red hred, Set.uIcc_subset_Icc h₁.green h₂.green hgreen,
    Set.uIcc_subset_Icc h₁.blue h₂.blue hblue, Set.uIcc_subset_Icc h₁.alpha h₂.alpha halpha⟩

/-- No component of an average has to be moved into its range. -/
theorem InGamut.mix_eq_average (h₁ : c₁.InGamut) (h₂ : c₂.InGamut) (hshare : share ∈ Set.Icc 0 1) :
    mix c₁ c₂ share = average c₁ c₂ share :=
  rgba_of_inGamut (inGamut_average h₁ h₂ hshare)

theorem average_one (c₁ c₂ : Color ℚ) : average c₁ c₂ 1 = c₁ := by
  simp only [average, channelShare_one, mul_one, sub_self, mul_zero, add_zero]

theorem average_zero (c₁ c₂ : Color ℚ) : average c₁ c₂ 0 = c₂ := by
  simp only [average, channelShare_zero, mul_zero, sub_zero, mul_one, zero_add]

theorem average_swap (c₁ c₂ : Color ℚ) (share : ℚ) : average c₂ c₁ (1 - share) = average c₁ c₂ share := by
  have hexcess : c₂.alpha - c₁.alpha = -(c₁.alpha - c₂.alpha) := by ring
  simp only [average, hexcess, channelShare_swap, sub_sub_cancel]
  congr 1 <;> exact add_comm _ _

/-! ## Inversion -/

theorem InGamut.negative_eq (hc : c.InGamut) :
    c.negative = ⟨255 - c.red, 255 - c.green, 255 - c.blue, c.alpha⟩ := by
  have hturned {x : ℚ} (hx : 0 ≤ x ∧ x ≤ 255) : 255 - x ∈ Set.Icc 0 255 := by
    constructor <;> linarith [hx.1, hx.2]
  simp only [negative, rgba, channel, Scalar.clamp_of_mem (hturned hc.red),
    Scalar.clamp_of_mem (hturned hc.green), Scalar.clamp_of_mem (hturned hc.blue),
    Scalar.clamp_of_mem hc.alpha]

theorem InGamut.negative (hc : c.InGamut) : c.negative.InGamut := by
  rw [hc.negative_eq]
  refine ⟨⟨?_, ?_⟩, ⟨?_, ?_⟩, ⟨?_, ?_⟩, hc.alpha⟩ <;>
    linarith [hc.red.1, hc.red.2, hc.green.1, hc.green.2, hc.blue.1, hc.blue.2]

theorem InGamut.negative_negative (hc : c.InGamut) : c.negative.negative = c := by
  rw [hc.negative.negative_eq, hc.negative_eq]
  simp only [sub_sub_cancel]

/-- Inversion by its full weight is the negative color. -/
theorem InGamut.invert_full (hc : c.InGamut) : c.invert (100 / 100) = c.negative := by
  have hfull : (100 / 100 : ℚ) = 1 := by norm_num
  rw [invert, hfull, hc.negative.mix_eq_average hc ⟨zero_le_one, le_rfl⟩, average_one]

/-- A blend of two colors is a weighted average. No zero is divided by on the way to it. The share
    of the first color in the channels is one from zero to one, and each component of the blend
    lies between those of the two colors, so none is moved into its range. The whole of a color is
    this color, sides and shares can be changed together, and inverting twice by the full weight
    changes nothing. -/
theorem InGamut.mix_averages (h₁ : c₁.InGamut) (h₂ : c₂.InGamut) (hshare : share ∈ Set.Icc 0 1) :
    channelShare (Checked.of share) (.of c₁.alpha - .of c₂.alpha) =
      .of (channelShare share (c₁.alpha - c₂.alpha)) ∧
    mix c₁.checked c₂.checked (.of share) = (mix c₁ c₂ share).checked ∧
    channelShare share (c₁.alpha - c₂.alpha) ∈ Set.Icc 0 1 ∧
    mix c₁ c₂ share = average c₁ c₂ share ∧
    (∀ component ∈ [Color.red, Color.green, Color.blue, Color.alpha],
      component (mix c₁ c₂ share) ∈ Set.uIcc (component c₁) (component c₂)) ∧
    mix c₁ c₂ 1 = c₁ ∧
    mix c₁ c₂ 0 = c₂ ∧
    mix c₁ c₂ share = mix c₂ c₁ (1 - share) ∧
    (c₁.invert (100 / 100)).invert (100 / 100) = c₁ := by
  have hrest : 1 - share ∈ Set.Icc 0 1 := ⟨by linarith [hshare.2], by linarith [hshare.1]⟩
  have hmix := h₁.mix_eq_average h₂ hshare
  refine ⟨?_, mix_checked c₁ c₂ share, h₁.share_mem h₂ hshare, hmix, ?_, ?_, ?_, ?_, ?_⟩
  · rw [Checked.of_sub, channelShare_of]
  · rw [hmix]
    exact h₁.average_between h₂ hshare
  · rw [h₁.mix_eq_average h₂ ⟨zero_le_one, le_rfl⟩, average_one]
  · rw [h₁.mix_eq_average h₂ ⟨le_rfl, zero_le_one⟩, average_zero]
  · rw [hmix, h₂.mix_eq_average h₁ hrest, average_swap]
  · rw [h₁.invert_full, h₁.negative.invert_full, h₁.negative_negative]

/-- Half red and half clear blue is red, half as opaque: what is clear does not show. -/
theorem mix_clear_blue :
    mix (⟨255, 0, 0, 1⟩ : Color ℚ) ⟨0, 0, 255, 0⟩ (1 / 2) = ⟨255, 0, 0, 1 / 2⟩ := by
  have hred : (⟨255, 0, 0, 1⟩ : Color ℚ).InGamut := by constructor <;> norm_num
  have hblue : (⟨0, 0, 255, 0⟩ : Color ℚ).InGamut := by constructor <;> norm_num
  have hhalf : (1 / 2 : ℚ) ∈ Set.Icc 0 1 := by norm_num
  obtain ⟨-, -, -, haverage, -⟩ := hred.mix_averages hblue hhalf
  have hshare : channelShare (1 / 2) 1 = (1 : ℚ) := by
    rw [channelShare_regular] <;> norm_num
  rw [haverage]
  norm_num [average, hshare]

end Color

end StyleScript
