-- SUMMARY: The wheel of hues: in each sixth of a turn one channel is full, one is absent and one moves.
import Mathlib.Tactic.FieldSimp
import StyleScript.Proofs.ExactScalars

/-!
# The color wheel

A turn of hues has six parts. At a place of the wheel each of red, green and blue has a share
from `0` to `1`: one is full, one is absent, and the third grows or shrinks from one end of the
part to the other. Both directions between channels and hues are read off this table: a hue
gives the shares at its place, and channels with a distance between the largest and the
smallest have the shares of one place.
-/

namespace StyleScript

/-- A place on the wheel, in sixths of a turn, and the shares of red, green and blue there. -/
inductive Wheel : ℚ → ℚ → ℚ → ℚ → Prop where
  | redToYellow {x : ℚ} : 0 ≤ x → x ≤ 1 → Wheel x 1 x 0
  | yellowToGreen {x : ℚ} : 0 ≤ x → x ≤ 1 → Wheel (2 - x) x 1 0
  | greenToCyan {x : ℚ} : 0 ≤ x → x ≤ 1 → Wheel (2 + x) 0 1 x
  | cyanToBlue {x : ℚ} : 0 ≤ x → x ≤ 1 → Wheel (4 - x) 0 x 1
  | blueToMagenta {x : ℚ} : 0 ≤ x → x ≤ 1 → Wheel (4 + x) x 0 1
  | magentaToRed {x : ℚ} : 0 < x → x ≤ 1 → Wheel (6 - x) 1 0 x

namespace Wheel

variable {place red green blue : ℚ}

theorem place_mem (h : Wheel place red green blue) : place ∈ Set.Ico 0 6 := by
  cases h <;> constructor <;> linarith

/-- Every place of the wheel has shares. -/
theorem exists_shares (hplace : place ∈ Set.Ico 0 6) :
    ∃ red green blue, Wheel place red green blue := by
  obtain ⟨hlow, hhigh⟩ := hplace
  rcases le_total place 1 with h₁ | h₁
  · exact ⟨_, _, _, .redToYellow hlow h₁⟩
  rcases le_total place 2 with h₂ | h₂
  · have hwheel : Wheel (2 - (2 - place)) (2 - place) 1 0 := .yellowToGreen (by linarith) (by linarith)
    rw [sub_sub_cancel] at hwheel
    exact ⟨_, _, _, hwheel⟩
  rcases le_total place 3 with h₃ | h₃
  · have hwheel : Wheel (2 + (place - 2)) 0 1 (place - 2) := .greenToCyan (by linarith) (by linarith)
    rw [add_sub_cancel] at hwheel
    exact ⟨_, _, _, hwheel⟩
  rcases le_total place 4 with h₄ | h₄
  · have hwheel : Wheel (4 - (4 - place)) 0 (4 - place) 1 := .cyanToBlue (by linarith) (by linarith)
    rw [sub_sub_cancel] at hwheel
    exact ⟨_, _, _, hwheel⟩
  rcases le_total place 5 with h₅ | h₅
  · have hwheel : Wheel (4 + (place - 4)) (place - 4) 0 1 := .blueToMagenta (by linarith) (by linarith)
    rw [add_sub_cancel] at hwheel
    exact ⟨_, _, _, hwheel⟩
  · have hwheel : Wheel (6 - (6 - place)) 1 0 (6 - place) := .magentaToRed (by linarith) (by linarith)
    rw [sub_sub_cancel] at hwheel
    exact ⟨_, _, _, hwheel⟩

/-! ## From shares to the place -/

/-- The sextant of channels looks at their shares only. -/
theorem sextant_shares (low : ℚ) {spread : ℚ} (hspread : 0 < spread) (red green blue : ℚ) :
    Hsl.sextant (low + spread * red) (low + spread * green) (low + spread * blue) (low + spread)
        spread =
      if red = 1 then green - blue + (if green < blue then 6 else 0)
      else if green = 1 then blue - red + 2
      else red - green + 4 := by
  have hfull (x : ℚ) : low + spread = low + spread * x ↔ x = 1 := by
    rw [add_right_inj, eq_comm, mul_eq_left₀ hspread.ne']
  have hless (x y : ℚ) : low + spread * x < low + spread * y ↔ x < y := by
    rw [add_lt_add_iff_left, mul_lt_mul_iff_right₀ hspread]
  have hquotient (x y : ℚ) : (low + spread * x - (low + spread * y)) / spread = x - y := by
    field_simp
    ring
  simp only [Hsl.sextant, beq_iff_eq, hfull, hless, hquotient]

/-- Channels with the shares of a place have that place. -/
theorem sextant_eq (h : Wheel place red green blue) (low : ℚ) {spread : ℚ} (hspread : 0 < spread) :
    Hsl.sextant (low + spread * red) (low + spread * green) (low + spread * blue) (low + spread)
      spread = place := by
  rw [sextant_shares low hspread]
  cases h with
  | redToYellow h₀ h₁ => simp [not_lt.2 h₀]
  | yellowToGreen h₀ h₁ =>
    rw [if_pos rfl, if_neg (not_lt.2 zero_le_one)]
    -- At the end of a part two channels are full, and red is looked at first.
    split_ifs <;> linarith
  | greenToCyan h₀ h₁ => norm_num; ring
  | cyanToBlue h₀ h₁ => split_ifs <;> linarith
  | blueToMagenta h₀ h₁ => split_ifs <;> linarith
  | magentaToRed h₀ h₁ => simp [h₀]; ring

/-! ## From the place to shares -/

/-- A channel has its share of the way from `low` to `high`. -/
theorem channelAt_share (low spread turn : ℚ) :
    Hsl.channelAt low (low + spread) turn = low + spread * Hsl.channelAt 0 1 turn := by
  simp only [Hsl.channelAt]
  generalize (if 1 < (if turn < 0 then turn + 1 else turn) then _ else _ : ℚ) = turn
  split_ifs <;> ring

/-- In the first sixth of a turn the share grows. -/
theorem share_grows {x : ℚ} (h₀ : 0 ≤ x) (h₁ : x ≤ 1) : Hsl.channelAt 0 1 (x / 6) = x := by
  simp only [Hsl.channelAt]
  split_ifs <;> linarith

/-- In the second and the third sixth it is full. -/
theorem share_full {x : ℚ} (h₀ : 1 ≤ x) (h₁ : x ≤ 3) : Hsl.channelAt 0 1 (x / 6) = 1 := by
  simp only [Hsl.channelAt]
  split_ifs <;> linarith

/-- In the fourth sixth it shrinks. -/
theorem share_shrinks {x : ℚ} (h₀ : 3 ≤ x) (h₁ : x ≤ 4) : Hsl.channelAt 0 1 (x / 6) = 4 - x := by
  simp only [Hsl.channelAt]
  split_ifs <;> linarith

/-- In the fifth and the sixth it is absent. -/
theorem share_absent {x : ℚ} (h₀ : 4 ≤ x) (h₁ : x ≤ 6) : Hsl.channelAt 0 1 (x / 6) = 0 := by
  simp only [Hsl.channelAt]
  split_ifs <;> linarith

/-- A turn further the share is the same. -/
theorem share_add_turn {x : ℚ} (h₀ : 0 ≤ x) (h₁ : x ≤ 6) :
    Hsl.channelAt 0 1 ((x + 6) / 6) = Hsl.channelAt 0 1 (x / 6) := by
  rcases h₀.eq_or_lt with rfl | h₀
  · rw [zero_add, share_absent (by norm_num) le_rfl, share_grows le_rfl zero_le_one]
  · have hturn : (x + 6) / 6 - 1 = x / 6 := by ring
    have hinside : ¬(x + 6) / 6 < 0 ∧ 1 < (x + 6) / 6 ∧ ¬x / 6 < 0 ∧ ¬1 < x / 6 := by
      refine ⟨?_, ?_, ?_, ?_⟩ <;> linarith
    obtain ⟨hpos, hout, hpos', hin⟩ := hinside
    simp only [Hsl.channelAt, if_neg hpos, if_pos hout, if_neg hpos', if_neg hin, hturn]

/-- A turn back the share is the same. -/
theorem share_sub_turn {x : ℚ} (h₀ : 0 ≤ x) (h₁ : x ≤ 6) :
    Hsl.channelAt 0 1 ((x - 6) / 6) = Hsl.channelAt 0 1 (x / 6) := by
  rcases h₁.eq_or_lt with rfl | h₁
  · rw [sub_self, share_absent (by norm_num) le_rfl, share_grows le_rfl zero_le_one]
  · have hturn : (x - 6) / 6 + 1 = x / 6 := by ring
    have hinside : (x - 6) / 6 < 0 ∧ ¬x / 6 < 0 ∧ ¬1 < x / 6 := by
      refine ⟨?_, ?_, ?_⟩ <;> linarith
    obtain ⟨hneg, hpos, hin⟩ := hinside
    simp only [Hsl.channelAt, if_pos hneg, if_neg hpos, if_neg hin, hturn]

/-- Red is a third of a turn ahead of green, and blue a third behind. -/
theorem shares_eq (h : Wheel place red green blue) :
    Hsl.channelAt 0 1 ((place + 2) / 6) = red ∧ Hsl.channelAt 0 1 (place / 6) = green ∧
      Hsl.channelAt 0 1 ((place - 2) / 6) = blue := by
  cases h with
  | redToYellow h₀ h₁ =>
    have hblue : place - 2 = place + 4 - 6 := by ring
    rw [hblue, share_sub_turn (by linarith) (by linarith)]
    exact ⟨share_full (by linarith) (by linarith), share_grows h₀ h₁,
      share_absent (by linarith) (by linarith)⟩
  | yellowToGreen h₀ h₁ =>
    have hblue : 2 - red - 2 = 6 - red - 6 := by ring
    rw [hblue, share_sub_turn (by linarith) (by linarith),
      share_shrinks (by linarith) (by linarith)]
    exact ⟨by ring, share_full (by linarith) (by linarith),
      share_absent (by linarith) (by linarith)⟩
  | greenToCyan h₀ h₁ =>
    rw [add_sub_cancel_left]
    exact ⟨share_absent (by linarith) (by linarith), share_full (by linarith) (by linarith),
      share_grows h₀ h₁⟩
  | cyanToBlue h₀ h₁ =>
    rw [share_shrinks (x := 4 - green) (by linarith) (by linarith), sub_sub_cancel]
    exact ⟨share_absent (by linarith) (by linarith), rfl,
      share_full (by linarith) (by linarith)⟩
  | blueToMagenta h₀ h₁ =>
    have hred : 4 + red + 2 = red + 6 := by ring
    rw [hred, share_add_turn (by linarith) (by linarith)]
    exact ⟨share_grows h₀ h₁, share_absent (by linarith) (by linarith),
      share_full (by linarith) (by linarith)⟩
  | magentaToRed h₀ h₁ =>
    have hred : 6 - blue + 2 = 2 - blue + 6 := by ring
    rw [hred, share_add_turn (by linarith) (by linarith),
      share_shrinks (x := 6 - blue - 2) (by linarith) (by linarith)]
    exact ⟨share_full (by linarith) (by linarith), share_absent (by linarith) (by linarith),
      by ring⟩

/-! ## The largest and the smallest share -/

theorem shares_mem (h : Wheel place red green blue) :
    red ∈ Set.Icc 0 1 ∧ green ∈ Set.Icc 0 1 ∧ blue ∈ Set.Icc 0 1 := by
  cases h <;> simp_all [le_of_lt]

theorem max_shares (h : Wheel place red green blue) : max (max red green) blue = 1 := by
  cases h <;> simp_all

theorem min_shares (h : Wheel place red green blue) : min (min red green) blue = 0 := by
  cases h <;> simp_all [le_of_lt]

/-- Shares of which the largest is full and the smallest absent are those of a place. -/
theorem exists_place (hmax : max (max red green) blue = 1) (hmin : min (min red green) blue = 0) :
    ∃ place, Wheel place red green blue := by
  have hle : red ≤ 1 ∧ green ≤ 1 ∧ blue ≤ 1 := by
    rw [← hmax]
    simp
  have hge : 0 ≤ red ∧ 0 ≤ green ∧ 0 ≤ blue := by
    rw [← hmin]
    simp
  have hfull : red = 1 ∨ green = 1 ∨ blue = 1 := by grind
  have habsent : red = 0 ∨ green = 0 ∨ blue = 0 := by grind
  obtain ⟨hred, hgreen, hblue⟩ := hle
  obtain ⟨hred', hgreen', hblue'⟩ := hge
  rcases hfull with rfl | rfl | rfl <;> rcases habsent with h | h | h <;>
    try exact absurd h one_ne_zero
  · subst h
    -- Pure red is the beginning of the wheel, not its end.
    rcases hblue'.eq_or_lt with rfl | hblue'
    · exact ⟨_, .redToYellow le_rfl zero_le_one⟩
    · exact ⟨_, .magentaToRed hblue' hblue⟩
  · subst h
    exact ⟨_, .redToYellow hgreen' hgreen⟩
  · subst h
    exact ⟨_, .greenToCyan hblue' hblue⟩
  · subst h
    exact ⟨_, .yellowToGreen hred' hred⟩
  · subst h
    exact ⟨_, .cyanToBlue hgreen' hgreen⟩
  · subst h
    exact ⟨_, .blueToMagenta hred' hred⟩

end Wheel

end StyleScript
