-- SUMMARY: On exact scalars channels and hue, saturation and lightness are each other's inverse.
import Mathlib.Algebra.Order.Group.MinMax
import StyleScript.Proofs.ColorWheel

/-!
# Channels to hue, saturation and lightness and back

A lightness leaves room for the channels on both sides, up to white and down to black. The
saturation says how much of the smaller room the channels take: the largest is that far above
the lightness, and the smallest that far below. With the place of the wheel that says where in
between each channel is, the conversions are read off in both directions.
-/

namespace StyleScript.Hsl

/-- How far channels from `0` to `1` can be from their lightness. -/
def room (lightness : ℚ) : ℚ := min lightness (1 - lightness)

theorem room_pos {l : ℚ} : 0 < room l ↔ l ∈ Set.Ioo 0 1 := by
  rw [room, lt_min_iff, sub_pos, Set.mem_Ioo]

/-- A channel of a share, at a distance of the extremes from the lightness. -/
def channel (l reach share : ℚ) : ℚ := (l - reach + 2 * reach * share) * 255

section Wheel

variable {place red green blue l reach : ℚ}

theorem top_eq (h : Wheel place red green blue) (low : ℚ) {spread : ℚ} (hspread : 0 ≤ spread) :
    Scalar.larger (Scalar.larger (low + spread * red) (low + spread * green)) (low + spread * blue) =
      low + spread := by
  rw [Scalar.larger_exact, Scalar.larger_exact, max_add_add_left, max_add_add_left,
    ← mul_max_of_nonneg _ _ hspread, ← mul_max_of_nonneg _ _ hspread, h.max_shares, mul_one]

theorem bottom_eq (h : Wheel place red green blue) (low : ℚ) {spread : ℚ} (hspread : 0 ≤ spread) :
    Scalar.smaller (Scalar.smaller (low + spread * red) (low + spread * green)) (low + spread * blue) =
      low := by
  rw [Scalar.smaller_exact, Scalar.smaller_exact, min_add_add_left, min_add_add_left,
    ← mul_min_of_nonneg _ _ hspread, ← mul_min_of_nonneg _ _ hspread, h.min_shares, mul_zero,
    add_zero]

/-- Both formulas of the saturation are the part of the room that the channels take. -/
theorem saturation_eq (l reach : ℚ) :
    (if 1 / 2 < l then 2 * reach / (2 - (l - reach + 2 * reach) - (l - reach))
      else 2 * reach / (l - reach + 2 * reach + (l - reach))) = reach / room l := by
  unfold room
  split_ifs with h
  · have hdouble : 2 - (l - reach + 2 * reach) - (l - reach) = 2 * (1 - l) := by ring
    rw [min_eq_right (by linarith), hdouble, mul_div_mul_left _ _ two_ne_zero]
  · have hdouble : l - reach + 2 * reach + (l - reach) = 2 * l := by ring
    rw [min_eq_left (by linarith), hdouble, mul_div_mul_left _ _ two_ne_zero]

/-- Channels of a place of the wheel give back the place, the lightness and the part of the room
    they take. -/
theorem ofRgb_channel (h : Wheel place red green blue) (hreach : 0 < reach) :
    ofRgb (channel l reach red) (channel l reach green) (channel l reach blue) =
      ⟨place * 60, reach / room l * 100, l * 100⟩ := by
  have hspread : 0 < 2 * reach := by linarith
  have hhue : place * 60 ∈ Set.Ico 0 360 := by
    obtain ⟨hlow, hhigh⟩ := h.place_mem
    constructor <;> linarith
  have hcolored : (2 * reach == 0) = false := beq_false_of_ne hspread.ne'
  have hmiddle : (l - reach + 2 * reach + (l - reach)) / 2 = l := by ring
  have hnonzero : (255 : ℚ) ≠ 0 := by norm_num
  simp only [ofRgb, channel, mul_div_cancel_right₀ _ hnonzero, top_eq h _ hspread.le,
    bottom_eq h _ hspread.le, add_sub_cancel_left, hcolored, h.sextant_eq _ hspread,
    wrapHue_of_mem hhue, hmiddle, saturation_eq]
  rfl

/-- The largest channel is as far above the lightness as the saturation takes of the room. -/
theorem high_eq (l s : ℚ) :
    (if l ≤ 1 / 2 then l * (s + 1) else l + s - l * s) = l + s * room l := by
  unfold room
  split_ifs with h
  · rw [min_eq_left (by linarith)]
    ring
  · rw [min_eq_right (by linarith)]
    ring

/-- The channels of a hue are those of its place of the wheel. -/
theorem toRgb_channel {c : Hsl ℚ} (hsaturation : c.saturation ∈ Set.Icc 0 100)
    (hlightness : c.lightness ∈ Set.Icc 0 100)
    (h : Wheel (wrapHue c.hue / 60) red green blue)
    (hreach : reach = c.saturation / 100 * room (c.lightness / 100)) :
    c.toRgb = (channel (c.lightness / 100) reach red, channel (c.lightness / 100) reach green,
      channel (c.lightness / 100) reach blue) := by
  obtain ⟨hred, hgreen, hblue⟩ := h.shares_eq
  have hahead : wrapHue c.hue / 360 + 1 / 3 = (wrapHue c.hue / 60 + 2) / 6 := by ring
  have hplace : wrapHue c.hue / 360 = wrapHue c.hue / 60 / 6 := by ring
  have hbehind : wrapHue c.hue / 360 - 1 / 3 = (wrapHue c.hue / 60 - 2) / 6 := by ring
  have hlow (l : ℚ) : l * 2 - (l + reach) = l - reach := by ring
  have hhigh (l : ℚ) : l + reach = l - reach + 2 * reach := by ring
  simp only [toRgb, Scalar.clamp_of_mem hsaturation, Scalar.clamp_of_mem hlightness, high_eq,
    ← hreach, hlow, hahead, hbehind]
  rw [hplace, hhigh, Wheel.channelAt_share, Wheel.channelAt_share, Wheel.channelAt_share, hred,
    hgreen, hblue]
  rfl

end Wheel

/-! ## Every color is a grey or has a place -/

/-- A grey has no hue and no saturation. -/
theorem ofRgb_grey (x : ℚ) : ofRgb x x x = ⟨0, 0, x / 255 * 100⟩ := by
  have hmiddle : (x / 255 + x / 255) / 2 = x / 255 := by ring
  simp only [ofRgb, Scalar.larger_exact, Scalar.smaller_exact, max_self, min_self, sub_self,
    beq_self_eq_true, if_true, hmiddle]

/-- Every hue has a place of the wheel. -/
theorem exists_wheel (hue : ℚ) : ∃ red green blue, Wheel (wrapHue hue / 60) red green blue := by
  obtain ⟨hlow, hhigh⟩ := wrapHue_mem hue
  refine Wheel.exists_shares ⟨?_, ?_⟩ <;> linarith

/-- Without saturation, in black and in white all channels are the lightness. -/
theorem toRgb_grey {c : Hsl ℚ} (hsaturation : c.saturation ∈ Set.Icc 0 100)
    (hlightness : c.lightness ∈ Set.Icc 0 100)
    (hgrey : c.saturation = 0 ∨ c.lightness = 0 ∨ c.lightness = 100) :
    c.toRgb = (c.lightness / 100 * 255, c.lightness / 100 * 255, c.lightness / 100 * 255) := by
  obtain ⟨_, _, _, hwheel⟩ := exists_wheel c.hue
  have hreach : 0 = c.saturation / 100 * room (c.lightness / 100) := by
    rcases hgrey with h | h | h <;> simp [room, h]
  have hchannel (l share : ℚ) : channel l 0 share = l * 255 := by simp [channel]
  rw [toRgb_channel hsaturation hlightness hwheel hreach, hchannel, hchannel, hchannel]

/-- A reach within the room leaves the channels in their range. -/
theorem channel_mem {l reach share : ℚ} (hreach : 0 ≤ reach) (hroom : reach ≤ room l)
    (hshare : share ∈ Set.Icc 0 1) : channel l reach share ∈ Set.Icc 0 255 := by
  obtain ⟨hlow, hhigh⟩ := hshare
  obtain ⟨hdark, hlight⟩ := le_min_iff.1 hroom
  have hpart : 0 ≤ reach * share := mul_nonneg hreach hlow
  have hpart' : reach * share ≤ reach := mul_le_of_le_one_right hreach hhigh
  unfold channel
  constructor <;> linarith

/-- Hue, saturation and lightness give channels in their range. -/
theorem toRgb_mem {c : Hsl ℚ} (hsaturation : c.saturation ∈ Set.Icc 0 100)
    (hlightness : c.lightness ∈ Set.Icc 0 100) :
    c.toRgb.1 ∈ Set.Icc 0 255 ∧ c.toRgb.2.1 ∈ Set.Icc 0 255 ∧ c.toRgb.2.2 ∈ Set.Icc 0 255 := by
  obtain ⟨_, _, _, hwheel⟩ := exists_wheel c.hue
  obtain ⟨hred, hgreen, hblue⟩ := hwheel.shares_mem
  have hroom : 0 ≤ room (c.lightness / 100) :=
    le_min (by linarith [hlightness.1]) (by linarith [hlightness.2])
  have hpart : 0 ≤ c.saturation / 100 := by linarith [hsaturation.1]
  have hpart' : c.saturation / 100 ≤ 1 := by linarith [hsaturation.2]
  have hreach := mul_nonneg hpart hroom
  have hle := mul_le_of_le_one_left hroom hpart'
  rw [toRgb_channel hsaturation hlightness hwheel rfl]
  exact ⟨channel_mem hreach hle hred, channel_mem hreach hle hgreen, channel_mem hreach hle hblue⟩

/-- Channels are all the same, or at some reach from a lightness, with the shares of a place. -/
theorem grey_or_channel {r g b : ℚ} (hr : r ∈ Set.Icc 0 255) (hg : g ∈ Set.Icc 0 255)
    (hb : b ∈ Set.Icc 0 255) :
    (r = g ∧ g = b) ∨ ∃ place red green blue l reach, Wheel place red green blue ∧
      0 < reach ∧ reach ≤ room l ∧ r = channel l reach red ∧ g = channel l reach green ∧
      b = channel l reach blue := by
  obtain ⟨top, htop⟩ : ∃ top, top = max (max r g) b := ⟨_, rfl⟩
  obtain ⟨bottom, hbottom⟩ : ∃ bottom, bottom = min (min r g) b := ⟨_, rfl⟩
  have hle : top ≤ 255 := by rw [htop]; exact max_le (max_le hr.2 hg.2) hb.2
  have hge : 0 ≤ bottom := by rw [hbottom]; exact le_min (le_min hr.1 hg.1) hb.1
  by_cases hgrey : top ≤ bottom
  · left
    grind
  · right
    have hspread : 0 < top - bottom := sub_pos.2 (not_le.1 hgrey)
    obtain ⟨place, hwheel⟩ : ∃ place, Wheel place ((r - bottom) / (top - bottom))
        ((g - bottom) / (top - bottom)) ((b - bottom) / (top - bottom)) := by
      refine Wheel.exists_place ?_ ?_
      · rw [max_div_div_right hspread.le, max_div_div_right hspread.le, max_sub_sub_right,
          max_sub_sub_right, ← htop, div_self hspread.ne']
      · rw [min_div_div_right hspread.le, min_div_div_right hspread.le, min_sub_sub_right,
          min_sub_sub_right, ← hbottom, sub_self, zero_div]
    have hchannel (x : ℚ) :
        x = channel ((top + bottom) / 510) ((top - bottom) / 510) ((x - bottom) / (top - bottom)) := by
      unfold channel
      field_simp
      ring
    have hroom : (top - bottom) / 510 ≤ room ((top + bottom) / 510) := by
      refine le_min ?_ ?_ <;> linarith
    exact ⟨place, _, _, _, _, _, hwheel, by linarith, hroom, hchannel r, hchannel g, hchannel b⟩

/-! ## No zero is divided by -/

/-- The largest and the smallest channel, of a color that is not grey, are not both white and not
    both black. So neither divisor of the saturation is zero. -/
theorem ofRgb_of {r g b : ℚ} (hr : r ∈ Set.Icc 0 255) (hg : g ∈ Set.Icc 0 255)
    (hb : b ∈ Set.Icc 0 255) :
    ofRgb (Checked.of r) (Checked.of g) (Checked.of b) = (ofRgb r g b).checked := by
  have h255 : (255 : ℚ) ≠ 0 := by norm_num
  have htop : Scalar.larger (Scalar.larger (r / 255) (g / 255)) (b / 255) ≤ 1 := by
    rw [Scalar.larger_exact, Scalar.larger_exact]
    exact max_le (max_le (by linarith [hr.2]) (by linarith [hg.2])) (by linarith [hb.2])
  have hbottom : 0 ≤ Scalar.smaller (Scalar.smaller (r / 255) (g / 255)) (b / 255) := by
    rw [Scalar.smaller_exact, Scalar.smaller_exact]
    exact le_min (le_min (by linarith [hr.1]) (by linarith [hg.1])) (by linarith [hb.1])
  have hle : Scalar.smaller (Scalar.smaller (r / 255) (g / 255)) (b / 255) ≤
      Scalar.larger (Scalar.larger (r / 255) (g / 255)) (b / 255) := by
    rw [Scalar.larger_exact, Scalar.larger_exact, Scalar.smaller_exact, Scalar.smaller_exact]
    exact (min_le_right _ _).trans (le_max_right _ _)
  simp only [ofRgb, Checked.ofNat_eq, Checked.of_div h255, Checked.larger_of, Checked.smaller_of,
    Checked.of_sub, Checked.of_add, Checked.of_div two_ne_zero, Checked.of_beq]
  generalize Scalar.larger (Scalar.larger (r / 255) (g / 255)) (b / 255) = top at *
  generalize Scalar.smaller (Scalar.smaller (r / 255) (g / 255)) (b / 255) = bottom at *
  by_cases hspread : top - bottom = 0
  · have hgrey : (top - bottom == 0) = true := beq_iff_eq.2 hspread
    rw [if_pos hgrey, if_pos hgrey, Checked.of_mul]
    rfl
  · have hcolored : ¬(top - bottom == 0) = true := fun h => hspread (beq_iff_eq.1 h)
    have hne : bottom < top := lt_of_le_of_ne hle fun h => hspread (sub_eq_zero.2 h.symm)
    have hlight : 2 - top - bottom ≠ 0 := by linarith
    have hdark : top + bottom ≠ 0 := by linarith
    rw [if_neg hcolored, if_neg hcolored, Checked.of_div hlight, Checked.of_div hdark,
      sextant_of hspread, Checked.of_mul, wrapHue_of, Checked.ite_of, Checked.of_mul,
      Checked.of_mul]
    simp only [Checked.of_lt]
    rfl

/-! ## Inverses -/

/-- The channels of hue, saturation and lightness give them back, where the lightness leaves room
    for a saturation and there is one. -/
theorem ofRgb_toRgb {c : Hsl ℚ} (hsaturation : c.saturation ∈ Set.Ioc 0 100)
    (hlightness : c.lightness ∈ Set.Ioo 0 100) :
    ofRgb c.toRgb.1 c.toRgb.2.1 c.toRgb.2.2 = { c with hue := wrapHue c.hue } := by
  obtain ⟨_, _, _, hwheel⟩ := exists_wheel c.hue
  have hroom : 0 < room (c.lightness / 100) := by
    obtain ⟨hlow, hhigh⟩ := hlightness
    refine room_pos.2 ⟨?_, ?_⟩ <;> linarith
  have hreach : 0 < c.saturation / 100 * room (c.lightness / 100) :=
    mul_pos (by linarith [hsaturation.1]) hroom
  rw [toRgb_channel ⟨hsaturation.1.le, hsaturation.2⟩ ⟨hlightness.1.le, hlightness.2.le⟩ hwheel rfl,
    ofRgb_channel hwheel hreach, mul_div_cancel_right₀ _ hroom.ne']
  congr 1 <;> ring

/-- Without saturation, in black and in white only the lightness comes back. -/
theorem ofRgb_toRgb_grey {c : Hsl ℚ} (hsaturation : c.saturation ∈ Set.Icc 0 100)
    (hlightness : c.lightness ∈ Set.Icc 0 100)
    (hgrey : c.saturation = 0 ∨ c.lightness = 0 ∨ c.lightness = 100) :
    ofRgb c.toRgb.1 c.toRgb.2.1 c.toRgb.2.2 = ⟨0, 0, c.lightness⟩ := by
  have hback : c.lightness / 100 * 255 / 255 * 100 = c.lightness := by ring
  rw [toRgb_grey hsaturation hlightness hgrey, ofRgb_grey, hback]

/-- Hue, saturation and lightness of channels are in their ranges. -/
theorem ofRgb_mem {r g b : ℚ} (hr : r ∈ Set.Icc 0 255) (hg : g ∈ Set.Icc 0 255)
    (hb : b ∈ Set.Icc 0 255) :
    (ofRgb r g b).hue ∈ Set.Ico 0 360 ∧ (ofRgb r g b).saturation ∈ Set.Icc 0 100 ∧
      (ofRgb r g b).lightness ∈ Set.Icc 0 100 := by
  obtain ⟨rfl, rfl⟩ | ⟨place, red, green, blue, l, reach, hwheel, hpos, hle, rfl, rfl, rfl⟩ :=
    grey_or_channel hr hg hb
  · obtain ⟨hlow, hhigh⟩ := hr
    rw [ofRgb_grey]
    refine ⟨?_, ?_, ?_, ?_⟩ <;> simp only [Set.left_mem_Ico, Set.left_mem_Icc] <;> linarith
  · obtain ⟨hlow, hhigh⟩ := hwheel.place_mem
    have hroom := hpos.trans_le hle
    obtain ⟨hlow', hhigh'⟩ := room_pos.1 hroom
    have hpart : 0 < reach / room l ∧ reach / room l ≤ 1 := ⟨div_pos hpos hroom, (div_le_one hroom).2 hle⟩
    obtain ⟨hpart, hpart'⟩ := hpart
    rw [ofRgb_channel hwheel hpos]
    refine ⟨⟨?_, ?_⟩, ⟨?_, ?_⟩, ?_, ?_⟩ <;> simp only <;> linarith

/-- The channels of a color come back from its hue, saturation and lightness. -/
theorem toRgb_ofRgb {r g b : ℚ} (hr : r ∈ Set.Icc 0 255) (hg : g ∈ Set.Icc 0 255)
    (hb : b ∈ Set.Icc 0 255) : (ofRgb r g b).toRgb = (r, g, b) := by
  obtain ⟨hhue, hsaturation, hlightness⟩ := ofRgb_mem hr hg hb
  obtain ⟨rfl, rfl⟩ | ⟨place, red, green, blue, l, reach, hwheel, hpos, hle, rfl, rfl, rfl⟩ :=
    grey_or_channel hr hg hb
  · rw [ofRgb_grey] at *
    have hback : r / 255 * 100 / 100 * 255 = r := by ring
    rw [toRgb_grey hsaturation hlightness (.inl rfl), hback]
  · rw [ofRgb_channel hwheel hpos] at *
    have hplace : wrapHue (place * 60) / 60 = place := by
      rw [wrapHue_of_mem hhue, mul_div_cancel_right₀ _ (by norm_num)]
    have hlight : l * 100 / 100 = l := mul_div_cancel_right₀ _ (by norm_num)
    have hreach : reach = reach / room l * 100 / 100 * room (l * 100 / 100) := by
      rw [hlight, mul_div_cancel_right₀ _ (by norm_num), div_mul_cancel₀ _ (hpos.trans_le hle).ne']
    rw [toRgb_channel hsaturation hlightness (by rwa [hplace]) hreach, hlight]

/-- Channels and hue, saturation and lightness determine each other. From channels no zero is
    divided by, the results are in their ranges, and the channels come back. Hue, saturation and
    lightness come back wherever there is a saturation and the lightness leaves room for it. -/
theorem rgb_hsl_inverse :
    (∀ r g b : ℚ, r ∈ Set.Icc 0 255 → g ∈ Set.Icc 0 255 → b ∈ Set.Icc 0 255 →
      ofRgb (Checked.of r) (Checked.of g) (Checked.of b) = (ofRgb r g b).checked ∧
      (ofRgb r g b).hue ∈ Set.Ico 0 360 ∧ (ofRgb r g b).saturation ∈ Set.Icc 0 100 ∧
      (ofRgb r g b).lightness ∈ Set.Icc 0 100 ∧ (ofRgb r g b).toRgb = (r, g, b)) ∧
    ∀ h s l : ℚ, h ∈ Set.Ico 0 360 → s ∈ Set.Ioc 0 100 → l ∈ Set.Ioo 0 100 →
      ofRgb (Hsl.mk h s l).toRgb.1 (Hsl.mk h s l).toRgb.2.1 (Hsl.mk h s l).toRgb.2.2 = ⟨h, s, l⟩ := by
  constructor
  · intro r g b hr hg hb
    obtain ⟨hhue, hsaturation, hlightness⟩ := ofRgb_mem hr hg hb
    exact ⟨ofRgb_of hr hg hb, hhue, hsaturation, hlightness, toRgb_ofRgb hr hg hb⟩
  · intro h s l hh hs hl
    have hback := ofRgb_toRgb (c := ⟨h, s, l⟩) hs hl
    rwa [wrapHue_of_mem hh] at hback

/-- The colors `#ff8000` and `hsl(210, 50%, 40%)`, there and back. -/
theorem orange_and_steel_inverse :
    (ofRgb 255 128 0 : Hsl ℚ).toRgb = (255, 128, 0) ∧
      (ofRgb (Hsl.mk 210 50 40).toRgb.1 (Hsl.mk 210 50 40).toRgb.2.1
        (Hsl.mk 210 50 40).toRgb.2.2 : Hsl ℚ) = ⟨210, 50, 40⟩ := by
  obtain ⟨hrgb, hhsl⟩ := rgb_hsl_inverse
  refine ⟨(hrgb 255 128 0 ?_ ?_ ?_).2.2.2.2, hhsl 210 50 40 ?_ ?_ ?_⟩
  all_goals norm_num

end StyleScript.Hsl
