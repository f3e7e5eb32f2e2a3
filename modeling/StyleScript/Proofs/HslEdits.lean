-- SUMMARY: On exact scalars an edit of hue, saturation or lightness changes what it names.
import StyleScript.Proofs.HslInverse
import StyleScript.Proofs.Gamut

/-!
# Edits of one component

An edit takes a color apart, changes one component and puts it together again. What the result
shows is what was put in, except where that is a grey: then hue and saturation are lost. So
each edit is settled by the two ways back from components, one for colors and one for greys.
-/

namespace StyleScript

namespace Color

/-- All channels are the same. -/
def IsGrey (c : Color ℚ) : Prop := c.red = c.green ∧ c.green = c.blue

variable {c : Color ℚ}

/-! ## Taking apart and putting together -/

theorem InGamut.toHsl_mem (hc : c.InGamut) :
    c.toHsl.hue ∈ Set.Ico 0 360 ∧ c.toHsl.saturation ∈ Set.Icc 0 100 ∧
      c.toHsl.lightness ∈ Set.Icc 0 100 :=
  Hsl.ofRgb_mem hc.red hc.green hc.blue

/-- Greys have no hue and no saturation. -/
theorem IsGrey.toHsl_eq (hgrey : c.IsGrey) : c.toHsl = ⟨0, 0, c.red / 255 * 100⟩ := by
  obtain ⟨hred, hgreen⟩ := hgrey
  rw [toHsl, ← hgreen, ← hred, Hsl.ofRgb_grey]

/-- Other colors have a saturation, and a lightness that leaves room for it. -/
theorem InGamut.toHsl_of_not_isGrey (hc : c.InGamut) (hgrey : ¬c.IsGrey) :
    0 < c.toHsl.saturation ∧ c.toHsl.lightness ∈ Set.Ioo 0 100 := by
  obtain h | ⟨_, _, _, _, l, reach, hwheel, hpos, hle, hred, hgreen, hblue⟩ :=
    Hsl.grey_or_channel hc.red hc.green hc.blue
  · exact absurd h hgrey
  · have hroom := hpos.trans_le hle
    obtain ⟨hlow, hhigh⟩ := Hsl.room_pos.1 hroom
    have hpart := div_pos hpos hroom
    rw [toHsl, hred, hgreen, hblue, Hsl.ofRgb_channel hwheel hpos]
    refine ⟨?_, ?_, ?_⟩ <;> simp only <;> linarith

/-- Components in their ranges need not be moved. -/
theorem rgba_of_inGamut (hc : c.InGamut) : rgba c.red c.green c.blue c.alpha = c := by
  simp only [rgba, channel, Scalar.clamp_of_mem hc.red, Scalar.clamp_of_mem hc.green,
    Scalar.clamp_of_mem hc.blue, Scalar.clamp_of_mem hc.alpha]

theorem InGamut.alpha_ofHsl (hc : c.InGamut) (h : Hsl ℚ) : (ofHsl h c.alpha).alpha = c.alpha :=
  Scalar.clamp_of_mem hc.alpha

/-- A color is put together again from its components. -/
theorem InGamut.ofHsl_toHsl (hc : c.InGamut) : ofHsl c.toHsl c.alpha = c := by
  rw [ofHsl, toHsl, Hsl.toRgb_ofRgb hc.red hc.green hc.blue]
  exact rgba_of_inGamut hc

theorem toHsl_ofHsl {h : Hsl ℚ} (hsaturation : h.saturation ∈ Set.Icc 0 100)
    (hlightness : h.lightness ∈ Set.Icc 0 100) (alpha : ℚ) :
    (ofHsl h alpha).toHsl = Hsl.ofRgb h.toRgb.1 h.toRgb.2.1 h.toRgb.2.2 := by
  obtain ⟨hred, hgreen, hblue⟩ := Hsl.toRgb_mem hsaturation hlightness
  simp only [toHsl, ofHsl, rgba, channel, Scalar.clamp_of_mem hred, Scalar.clamp_of_mem hgreen,
    Scalar.clamp_of_mem hblue]

section Components

variable {h s l : ℚ}

/-- All components show where there is a saturation and the lightness leaves room for it. -/
theorem toHsl_ofHsl_colored (hs : s ∈ Set.Ioc 0 100) (hl : l ∈ Set.Ioo 0 100) (alpha : ℚ) :
    (ofHsl ⟨h, s, l⟩ alpha).toHsl = ⟨Hsl.wrapHue h, s, l⟩ := by
  rw [toHsl_ofHsl ⟨hs.1.le, hs.2⟩ ⟨hl.1.le, hl.2.le⟩, Hsl.ofRgb_toRgb hs hl]

/-- Otherwise only the lightness shows. -/
theorem toHsl_ofHsl_grey (hs : s ∈ Set.Icc 0 100) (hl : l ∈ Set.Icc 0 100)
    (hgrey : s = 0 ∨ l = 0 ∨ l = 100) (alpha : ℚ) :
    (ofHsl ⟨h, s, l⟩ alpha).toHsl = ⟨0, 0, l⟩ := by
  rw [toHsl_ofHsl hs hl, Hsl.ofRgb_toRgb_grey hs hl hgrey]

theorem lightness_ofHsl (hs : s ∈ Set.Icc 0 100) (hl : l ∈ Set.Icc 0 100) (alpha : ℚ) :
    (ofHsl ⟨h, s, l⟩ alpha).toHsl.lightness = l := by
  by_cases hgrey : s = 0 ∨ l = 0 ∨ l = 100
  · rw [toHsl_ofHsl_grey hs hl hgrey]
  · simp only [not_or] at hgrey
    obtain ⟨hcolored, hblack, hwhite⟩ := hgrey
    rw [toHsl_ofHsl_colored ⟨lt_of_le_of_ne hs.1 (Ne.symm hcolored), hs.2⟩
      ⟨lt_of_le_of_ne hl.1 (Ne.symm hblack), lt_of_le_of_ne hl.2 hwhite⟩]

/-- Only the place of a hue on the circle matters. -/
theorem ofHsl_congr {h' : ℚ} (hhue : Hsl.wrapHue h = Hsl.wrapHue h') (s l alpha : ℚ) :
    ofHsl ⟨h, s, l⟩ alpha = ofHsl ⟨h', s, l⟩ alpha := by
  simp only [ofHsl, Hsl.toRgb, hhue]

/-- Without saturation the hue does not matter. -/
theorem ofHsl_grey (h h' : ℚ) (hl : l ∈ Set.Icc 0 100) (alpha : ℚ) :
    ofHsl ⟨h, 0, l⟩ alpha = ofHsl ⟨h', 0, l⟩ alpha := by
  have hzero : (0 : ℚ) ∈ Set.Icc 0 100 := by norm_num
  rw [ofHsl, ofHsl, Hsl.toRgb_grey (c := ⟨h, 0, l⟩) hzero hl (.inl rfl),
    Hsl.toRgb_grey (c := ⟨h', 0, l⟩) hzero hl (.inl rfl)]

end Components

/-! ## Edits -/

/-- An edit of the lightness shows, and keeps hue and saturation of a color that stays one. -/
theorem InGamut.edit_lightness (hc : c.InGamut) (edited : Color ℚ) {l : ℚ} (hl : l ∈ Set.Icc 0 100)
    (hedited : edited = ofHsl { c.toHsl with lightness := l } c.alpha) :
    edited.toHsl.lightness = l ∧
      (¬c.IsGrey → edited.toHsl.lightness ∈ Set.Ioo 0 100 →
        edited.toHsl.hue = c.toHsl.hue ∧ edited.toHsl.saturation = c.toHsl.saturation) := by
  obtain ⟨hhue, hsaturation, _⟩ := hc.toHsl_mem
  have hshown : edited.toHsl.lightness = l := by rw [hedited, lightness_ofHsl hsaturation hl]
  refine ⟨hshown, fun hgrey hmem => ?_⟩
  have hpos := (hc.toHsl_of_not_isGrey hgrey).1
  rw [hshown] at hmem
  rw [hedited, toHsl_ofHsl_colored ⟨hpos, hsaturation.2⟩ hmem, Hsl.wrapHue_of_mem hhue]
  exact ⟨rfl, rfl⟩

/-- An edit of the saturation shows where the lightness leaves room for it, and keeps the lightness,
    and the hue of a color that stays one. -/
theorem InGamut.edit_saturation (hc : c.InGamut) (edited : Color ℚ) {s : ℚ}
    (hs : s ∈ Set.Icc 0 100) (hedited : edited = ofHsl { c.toHsl with saturation := s } c.alpha) :
    (c.toHsl.lightness ∈ Set.Ioo 0 100 ∨ s = 0 → edited.toHsl.saturation = s) ∧
      (¬c.IsGrey → 0 < edited.toHsl.saturation →
        edited.toHsl.hue = c.toHsl.hue ∧ edited.toHsl.lightness = c.toHsl.lightness) := by
  obtain ⟨hhue, _, hlightness⟩ := hc.toHsl_mem
  rcases hs.1.eq_or_lt with hzero | hpos
  · rw [hedited, toHsl_ofHsl_grey hs hlightness (.inl hzero.symm)]
    exact ⟨fun _ => hzero, fun _ h => absurd h (lt_irrefl _)⟩
  · have hshown (hmem : c.toHsl.lightness ∈ Set.Ioo 0 100) :
        edited.toHsl = { c.toHsl with saturation := s } := by
      rw [hedited, toHsl_ofHsl_colored ⟨hpos, hs.2⟩ hmem, Hsl.wrapHue_of_mem hhue]
    refine ⟨fun h => ?_, fun hgrey _ => ?_⟩
    · rw [hshown (h.resolve_right hpos.ne')]
    · rw [hshown (hc.toHsl_of_not_isGrey hgrey).2]
      exact ⟨rfl, rfl⟩

theorem percent_exact (x : ℚ) : percent x = max 0 (min 100 x) := Scalar.limit_exact (by norm_num) x

theorem percent_mem (x : ℚ) : percent x ∈ Set.Icc 0 100 := by
  rw [percent_exact]
  exact ⟨le_max_left _ _, max_le (by norm_num) (min_le_left _ _)⟩

theorem percent_add {x amount : ℚ} (hx : 0 ≤ x) (hamount : 0 ≤ amount) :
    percent (x + amount) = min 100 (x + amount) := by
  rw [percent_exact, max_eq_right (le_min (by norm_num) (by linarith))]

theorem percent_sub {x amount : ℚ} (hx : x ≤ 100) (hamount : 0 ≤ amount) :
    percent (x - amount) = max 0 (x - amount) := by
  rw [percent_exact, min_eq_right (by linarith)]

/-- A grey that is not black and not white leaves room for a saturation. -/
theorem InGamut.lightness_mem (hc : c.InGamut) (h : c.IsGrey → c.red ≠ 0 ∧ c.red ≠ 255) :
    c.toHsl.lightness ∈ Set.Ioo 0 100 := by
  by_cases hgrey : c.IsGrey
  · obtain ⟨hblack, hwhite⟩ := h hgrey
    have hlow := lt_of_le_of_ne hc.red.1 hblack.symm
    have hhigh := lt_of_le_of_ne hc.red.2 hwhite
    rw [hgrey.toHsl_eq]
    constructor <;> simp only <;> linarith
  · exact (hc.toHsl_of_not_isGrey hgrey).2

/-- A turned grey is the same grey. -/
theorem InGamut.adjustHue_of_isGrey (hc : c.InGamut) (hgrey : c.IsGrey) (degrees : ℚ) :
    adjustHue degrees c = c := by
  have hlightness := hc.toHsl_mem.2.2
  have hcolor := hc.ofHsl_toHsl
  rw [hgrey.toHsl_eq] at hlightness hcolor
  rw [adjustHue, mapHsl, hgrey.toHsl_eq]
  exact (ofHsl_grey _ _ hlightness _).trans hcolor

/-- A turned color shows the turned hue, with the same saturation and the same lightness. -/
theorem InGamut.toHsl_adjustHue (hc : c.InGamut) (hgrey : ¬c.IsGrey) (degrees : ℚ) :
    (adjustHue degrees c).toHsl =
      ⟨Hsl.wrapHue (c.toHsl.hue + degrees), c.toHsl.saturation, c.toHsl.lightness⟩ := by
  obtain ⟨hpos, hmem⟩ := hc.toHsl_of_not_isGrey hgrey
  exact toHsl_ofHsl_colored ⟨hpos, hc.toHsl_mem.2.1.2⟩ hmem _

/-- Turning the hue twice is turning it by the sum. -/
theorem InGamut.adjustHue_adjustHue (hc : c.InGamut) (a b : ℚ) :
    adjustHue b (adjustHue a c) = adjustHue (a + b) c := by
  by_cases hgrey : c.IsGrey
  · simp only [hc.adjustHue_of_isGrey hgrey]
  · have halpha : (adjustHue a c).alpha = c.alpha := hc.alpha_ofHsl _
    have hturns : Hsl.wrapHue (Hsl.wrapHue (c.toHsl.hue + a) + b) =
        Hsl.wrapHue (c.toHsl.hue + (a + b)) := by
      rw [Hsl.wrapHue_wrapHue_add, add_assoc]
    calc adjustHue b (adjustHue a c)
        = ofHsl { (adjustHue a c).toHsl with hue := (adjustHue a c).toHsl.hue + b }
            (adjustHue a c).alpha := rfl
      _ = ofHsl ⟨Hsl.wrapHue (c.toHsl.hue + a) + b, c.toHsl.saturation, c.toHsl.lightness⟩
            c.alpha := by rw [hc.toHsl_adjustHue hgrey, halpha]
      _ = adjustHue (a + b) c := ofHsl_congr hturns _ _ _

theorem InGamut.complement_complement (hc : c.InGamut) : complement (complement c) = c := by
  have hturn : Hsl.wrapHue (c.toHsl.hue + (180 + 180)) = Hsl.wrapHue c.toHsl.hue := by
    have h360 : c.toHsl.hue + (180 + 180) = c.toHsl.hue + 360 * (1 : ℤ) := by norm_num
    rw [h360, Hsl.wrapHue_add_turns]
  calc complement (complement c) = adjustHue (180 + 180) c := hc.adjustHue_adjustHue 180 180
    _ = ofHsl c.toHsl c.alpha := ofHsl_congr hturn _ _ _
    _ = c := hc.ofHsl_toHsl

/-- The grey of a color shows its lightness and nothing else. -/
theorem InGamut.toHsl_grayscale (hc : c.InGamut) :
    (grayscale c).toHsl = ⟨0, 0, c.toHsl.lightness⟩ :=
  toHsl_ofHsl_grey (by norm_num) hc.toHsl_mem.2.2 (.inl rfl) _

theorem InGamut.grayscale_grayscale (hc : c.InGamut) : grayscale (grayscale c) = grayscale c := by
  have halpha : (grayscale c).alpha = c.alpha := hc.alpha_ofHsl _
  calc grayscale (grayscale c)
      = ofHsl { (grayscale c).toHsl with saturation := 0 } (grayscale c).alpha := rfl
    _ = ofHsl ⟨0, 0, c.toHsl.lightness⟩ c.alpha := by rw [hc.toHsl_grayscale, halpha]
    _ = grayscale c := ofHsl_grey _ _ hc.toHsl_mem.2.2 _

/-- Each edit changes the component that it names, up to the ends of its range, and no other one
    of a color that neither is a grey nor becomes one. An added saturation shows in greys too,
    except for black and white, which have no room for it. A turned color shows the turned hue and
    is the same otherwise, turns add up, opposite colors are opposite to each other, and the grey
    of a grey is the grey itself. No edit changes the opacity. -/
theorem InGamut.hsl_edits (hc : c.InGamut) {x : ℚ} (hx : x ∈ Set.Icc 0 100) (a b : ℚ) :
    (lighten x c).toHsl.lightness = min 100 (c.toHsl.lightness + x) ∧
    (darken x c).toHsl.lightness = max 0 (c.toHsl.lightness - x) ∧
    (∀ edited ∈ [lighten x c, darken x c],
      ¬c.IsGrey → edited.toHsl.lightness ∈ Set.Ioo 0 100 →
        edited.toHsl.hue = c.toHsl.hue ∧ edited.toHsl.saturation = c.toHsl.saturation) ∧
    ((c.IsGrey → c.red ≠ 0 ∧ c.red ≠ 255) →
      (saturate x c).toHsl.saturation = min 100 (c.toHsl.saturation + x)) ∧
    (desaturate x c).toHsl.saturation = max 0 (c.toHsl.saturation - x) ∧
    (∀ edited ∈ [saturate x c, desaturate x c],
      ¬c.IsGrey → 0 < edited.toHsl.saturation →
        edited.toHsl.hue = c.toHsl.hue ∧ edited.toHsl.lightness = c.toHsl.lightness) ∧
    (c.IsGrey → adjustHue a c = c) ∧
    (¬c.IsGrey → (adjustHue a c).toHsl =
      ⟨Hsl.wrapHue (c.toHsl.hue + a), c.toHsl.saturation, c.toHsl.lightness⟩) ∧
    adjustHue b (adjustHue a c) = adjustHue (a + b) c ∧
    complement (complement c) = c ∧
    grayscale (grayscale c) = grayscale c ∧
    (grayscale c).toHsl.lightness = c.toHsl.lightness ∧
    ∀ edited ∈ [lighten x c, darken x c, saturate x c, desaturate x c, adjustHue a c,
      complement c, grayscale c], edited.alpha = c.alpha := by
  obtain ⟨_, hsaturation, hlightness⟩ := hc.toHsl_mem
  obtain ⟨hlighter, hlighter'⟩ := hc.edit_lightness (lighten x c) (percent_mem _) rfl
  obtain ⟨hdarker, hdarker'⟩ := hc.edit_lightness (darken x c) (percent_mem _) rfl
  obtain ⟨hricher, hricher'⟩ := hc.edit_saturation (saturate x c) (percent_mem _) rfl
  obtain ⟨hpaler, hpaler'⟩ := hc.edit_saturation (desaturate x c) (percent_mem _) rfl
  rw [percent_add hlightness.1 hx.1] at hlighter
  rw [percent_sub hlightness.2 hx.1] at hdarker
  rw [percent_add hsaturation.1 hx.1] at hricher
  rw [percent_sub hsaturation.2 hx.1] at hpaler
  have hshown : (desaturate x c).toHsl.saturation = max 0 (c.toHsl.saturation - x) := by
    by_cases hroom : c.toHsl.lightness ∈ Set.Ioo 0 100
    · exact hpaler (.inl hroom)
    · -- Black and white have no saturation to lose.
      have hgrey : c.IsGrey := by
        by_contra h
        exact hroom (hc.toHsl_of_not_isGrey h).2
      refine hpaler (.inr (max_eq_left ?_))
      rw [hgrey.toHsl_eq]
      linarith [hx.1]
  refine ⟨hlighter, hdarker, ?_, fun h => hricher (.inl (hc.lightness_mem h)), hshown, ?_,
    fun h => hc.adjustHue_of_isGrey h a, fun h => hc.toHsl_adjustHue h a,
    hc.adjustHue_adjustHue a b, hc.complement_complement, hc.grayscale_grayscale,
    by rw [hc.toHsl_grayscale], ?_⟩
  · simp only [List.forall_mem_cons]
    exact ⟨hlighter', hdarker', by simp⟩
  · simp only [List.forall_mem_cons]
    exact ⟨hricher', hpaler', by simp⟩
  · simp only [List.forall_mem_cons]
    refine ⟨?_, ?_, ?_, ?_, ?_, ?_, ?_, by simp⟩ <;> exact hc.alpha_ofHsl _

/-- Steel blue lightened by a tenth is half light, with the same hue and saturation. -/
theorem lighten_steel :
    (lighten 10 (⟨51, 102, 153, 1⟩ : Color ℚ)).toHsl.lightness = 50 ∧
      (lighten 10 (⟨51, 102, 153, 1⟩ : Color ℚ)).toHsl.hue = 210 ∧
      (lighten 10 (⟨51, 102, 153, 1⟩ : Color ℚ)).toHsl.saturation = 50 := by
  have hsteel : (⟨51, 102, 153, 1⟩ : Color ℚ).InGamut := by
    constructor <;> norm_num
  have hcolored : ¬(⟨51, 102, 153, 1⟩ : Color ℚ).IsGrey := by norm_num [IsGrey]
  have hshown : (⟨51, 102, 153, 1⟩ : Color ℚ).toHsl = ⟨210, 50, 40⟩ := by decide +kernel
  obtain ⟨hlighter, -, hkeeps, -⟩ := hsteel.hsl_edits (x := 10) (by norm_num) 0 0
  have hhalf : (lighten 10 (⟨51, 102, 153, 1⟩ : Color ℚ)).toHsl.lightness = 50 := by
    rw [hlighter, hshown]
    norm_num
  have hmem : (lighten 10 (⟨51, 102, 153, 1⟩ : Color ℚ)).toHsl.lightness ∈ Set.Ioo 0 100 := by
    rw [hhalf]
    norm_num
  rw [hshown] at hkeeps
  exact ⟨hhalf, hkeeps _ (.head _) hcolored hmem⟩

end Color

end StyleScript
