-- SUMMARY: How far the text of a number is from the number.
import Mathlib.Data.List.TakeWhile
import StyleScript.Decimal.Positional
import StyleScript.Proofs.DoubleArithmetic
import StyleScript.Proofs.ShortestDecimals

/-!
# Formatted numbers

A number is rounded to places by scaling it with a power of ten, rounding it to a whole number and
dividing it again. Both the product and the quotient are rounded, which costs a unit in the last
place of the number at most, as long as the product has bits for a fraction. Then the quotient is
the double nearest to a decimal of that many places, and this decimal is what is written.

Of larger numbers the product is whole already, and the same operations only lose digits. Of the
largest ones the product is infinite, and so is the text.

Main statement: the text of a finite number is a plain numeral for a rational that is as near as
the number of places and the unit of the number ask for, if the number is scaled to less than
`2 ^ 52`. If it is scaled to more, the numeral is two units off at most. And if it is scaled to what
is too large for a double, the text is that of an infinity.
-/

namespace StyleScript

/-! ## Numerals -/

namespace Decimal

/-- The rational that digits stand for, with an optional fraction after a point. -/
def magnitude? (cs : List Char) : Option ℚ :=
  let whole := cs.takeWhile Char.isDigit
  if whole = [] then none
  else
    match cs.dropWhile Char.isDigit with
    | [] => some (Nat.ofDigitChars 10 whole 0)
    | '.' :: fraction =>
      if fraction = [] ∨ ¬fraction.all Char.isDigit then none
      else
        some (Nat.ofDigitChars 10 whole 0 +
          Nat.ofDigitChars 10 fraction 0 / 10 ^ fraction.length)
    | _ => none

/-- The rational that a plain numeral stands for. A minus is written before what is not zero. -/
def numeral? : List Char → Option ℚ
  | '-' :: cs => (magnitude? cs).bind fun q => if q = 0 then none else some (-q)
  | cs => magnitude? cs

variable {cs whole fraction : List Char} {q : ℚ}

theorem magnitude?_whole (hne : whole ≠ []) (hall : ∀ c ∈ whole, c.isDigit = true) :
    magnitude? whole = some (Nat.ofDigitChars 10 whole 0 : ℚ) := by
  have htake : whole.takeWhile Char.isDigit = whole := List.takeWhile_eq_self_iff.2 hall
  have hdrop : whole.dropWhile Char.isDigit = [] := List.dropWhile_eq_nil_iff.2 hall
  rw [magnitude?, htake, hdrop, if_neg hne]

theorem magnitude?_fraction (hne : whole ≠ []) (hall : ∀ c ∈ whole, c.isDigit = true)
    (hne' : fraction ≠ []) (hall' : ∀ c ∈ fraction, c.isDigit = true) :
    magnitude? (whole ++ '.' :: fraction) =
      some (Nat.ofDigitChars 10 whole 0 +
        Nat.ofDigitChars 10 fraction 0 / 10 ^ fraction.length : ℚ) := by
  have htake : (whole ++ '.' :: fraction).takeWhile Char.isDigit = whole := by
    rw [List.takeWhile_append_of_pos hall]
    exact List.append_nil whole
  have hdrop : (whole ++ '.' :: fraction).dropWhile Char.isDigit = '.' :: fraction :=
    List.dropWhile_append_of_pos hall
  have hfraction : ¬(fraction = [] ∨ ¬fraction.all Char.isDigit = true) := by
    rw [List.all_eq_true]
    exact not_or.2 ⟨hne', not_not.2 hall'⟩
  rw [magnitude?, htake, hdrop, if_neg hne]
  exact if_neg hfraction

theorem isDigit_of_mem_digits {n : ℕ} : ∀ c ∈ digits n, c.isDigit = true := fun _ hc =>
  Nat.isDigit_of_mem_toDigits (by decide) (by decide) hc

theorem ofDigitChars_digits (n : ℕ) : Nat.ofDigitChars 10 (digits n) 0 = n :=
  Nat.ofDigitChars_ten_toDigits

/-- Digits behind zeros are as many as they should be, and stand for the same number. -/
theorem padded_digits {n k : ℕ} (hk : 0 < k) (hn : n < 10 ^ k) :
    let padded := List.replicate (k - (digits n).length) '0' ++ digits n
    padded.length = k ∧ (∀ c ∈ padded, c.isDigit = true) ∧ Nat.ofDigitChars 10 padded 0 = n := by
  have hlength : (digits n).length ≤ k := (Nat.length_toDigits_le_iff (by decide) hk).2 hn
  refine ⟨?_, fun c hc => ?_, ?_⟩
  · rw [List.length_append, List.length_replicate]
    omega
  · rcases List.mem_append.1 hc with hzero | hdigit
    · rw [List.eq_of_mem_replicate hzero]
      rfl
    · exact isDigit_of_mem_digits c hdigit
  · rw [Nat.ofDigitChars_append, Nat.ofDigitChars_replicate_zero, mul_zero, ofDigitChars_digits]

/-- What is written in full is a numeral for its value. -/
theorem magnitude?_positional (c : ℕ) (g : ℤ) :
    magnitude? (positional c g) = some (c * 10 ^ g : ℚ) := by
  have hne (n : ℕ) : digits n ≠ [] := Nat.toDigits_ne_nil
  rw [positional]
  split
  · rename_i hg
    obtain ⟨k, rfl⟩ := Int.eq_ofNat_of_zero_le hg
    rw [magnitude?_whole (hne _) isDigit_of_mem_digits, ofDigitChars_digits]
    simp
  · rename_i hg
    obtain ⟨k, rfl⟩ : ∃ k : ℕ, g = -k := ⟨g.natAbs, by omega⟩
    simp only [neg_neg, Int.toNat_natCast, Nat.pow_eq, List.append_assoc, List.cons_append]
    obtain ⟨hlength, hall, hvalue⟩ :=
      padded_digits (by omega : 0 < k) (Nat.mod_lt c (by positivity : 0 < 10 ^ k))
    rw [magnitude?_fraction (hne _) isDigit_of_mem_digits
        (List.append_ne_nil_of_right_ne_nil _ (hne _)) hall,
      hlength, hvalue, ofDigitChars_digits, zpow_neg, zpow_natCast]
    have hparts : (10 : ℚ) ^ k * (c / 10 ^ k : ℕ) + (c % 10 ^ k : ℕ) = c := by
      exact_mod_cast Nat.div_add_mod c (10 ^ k)
    rw [← hparts]
    field_simp

/-- The magnitude with a sign. -/
def signed (negative : Bool) (q : ℚ) : ℚ := if negative then -q else q

@[simp] theorem signed_zero (b : Bool) : signed b 0 = 0 := by
  cases b <;> simp [signed]

theorem abs_signed {v : ℚ} (hv : 0 ≤ v) (b : Bool) : |signed b v| = v := by
  cases b
  · exact abs_of_nonneg hv
  · rw [signed, if_pos rfl, abs_neg, abs_of_nonneg hv]

theorem abs_signed_sub (b : Bool) (p q : ℚ) : |signed b p - signed b q| = |p - q| := by
  cases b
  · rfl
  · rw [signed, signed, if_pos rfl, if_pos rfl, neg_sub_neg, abs_sub_comm]

/-- A numeral for what is not zero can have a minus. -/
theorem numeral?_signed (h : magnitude? cs = some q) (hq : q ≠ 0) (b : Bool) :
    numeral? (if b then '-' :: cs else cs) = some (signed b q) := by
  cases b with
  | true => simp [numeral?, h, hq, signed]
  | false =>
    rw [if_neg Bool.false_ne_true, numeral?.eq_2]
    · exact h
    · rintro cs rfl
      cases h

end Decimal

/-! ## Values -/

namespace Binary64

open Decimal

/-- The rational that a double stands for, or zero if it stands for none. -/
def value (x : Float) : ℚ :=
  match parts x with
  | .finite negative m e => signed negative (m * 2 ^ e)
  | _ => 0

/-- The unit in the last place of a double. -/
def ulp (x : Float) : ℚ :=
  match parts x with
  | .finite _ m e => if m = 0 then 2 ^ (-1074 : ℤ) else 2 ^ e
  | _ => 0

variable {x : Float} {b : Bool} {m : ℕ} {e : ℤ}

theorem exists_parts (hx : isFinite x = true) : ∃ b m e, parts x = .finite b m e := by
  unfold isFinite at hx
  split at hx
  · exact ⟨_, _, _, ‹_›⟩
  · cases hx

theorem beq_zero_of_zero (h : parts x = .finite b 0 e) : (x == 0) = true := by
  rw [beq_iff, unpack_of_parts_zero h, unpack_zero]
  rfl

theorem beq_zero_of_pos (h : parts x = .finite b m e) (hm : 0 < m) : (x == 0) = false := by
  rw [Bool.eq_false_iff, Ne, beq_iff, unpack_of_parts h hm, unpack_zero]
  cases b <;> nofun

theorem beq_zero_of_infinite (h : parts x = .infinite b) : (x == 0) = false := by
  rw [Bool.eq_false_iff, Ne, beq_iff, unpack_of_parts_infinite h, unpack_zero]
  cases b <;> nofun

theorem stands_of_value_pos (h : 0 < value x) : Stands x false (value x) := by
  unfold value at h ⊢
  split at h
  · rename_i b m e hparts
    cases b with
    | false => exact ⟨m, e, hparts, rfl⟩
    | true =>
      have hnonneg : (0 : ℚ) ≤ m * 2 ^ e := by positivity
      exact absurd h (not_lt.2 (neg_nonpos.2 hnonneg))
  · exact absurd h (lt_irrefl 0)

/-- The factors for numbers of places are exact, up to sixteen places. -/
theorem stands_factor {q : ℕ} (hq : q ≤ 16) :
    Stands (Float.ofNat (Nat.pow 10 q)) false (10 ^ q) := by
  have hcomputed : ∀ q < 17, value (Float.ofNat (Nat.pow 10 q)) = 10 ^ q := by decide +kernel
  have hvalue := hcomputed q (by omega)
  have hpos : 0 < value (Float.ofNat (Nat.pow 10 q)) := by
    rw [hvalue]
    positivity
  exact hvalue ▸ stands_of_value_pos hpos

end Binary64

/-! ## Texts -/

namespace Decimal

open Binary64

variable {places : ℕ} {x : Float} {b : Bool} {m : ℕ} {e : ℤ}

theorem numeral?_format_zero (h : parts (toPlaces places x) = .finite b 0 e) :
    numeral? (format places x).toList = some 0 := by
  rw [format, if_pos (beq_zero_of_zero h)]
  rfl

theorem numeral?_format_of_pos (h : parts (toPlaces places x) = .finite b m e) (hm : 0 < m) :
    numeral? (format places x).toList =
      some (signed b ((shortest m e).1 * 10 ^ (shortest m e).2)) := by
  have hpos : (0 : ℚ) < (shortest m e).1 * 10 ^ (shortest m e).2 := by
    have hm' : (1 : ℚ) ≤ m := by exact_mod_cast hm
    exact (mul_pos (by linarith) (by positivity)).trans_le (contains_shortest hm e).half_below
  have hspell : spell (toPlaces places x) =
      if b then '-' :: positional (shortest m e).1 (shortest m e).2
      else positional (shortest m e).1 (shortest m e).2 := by
    rw [spell, h]
    dsimp only
    rw [if_neg hm.ne']
  rw [format, beq_zero_of_pos h hm, if_neg Bool.false_ne_true, text, String.toList_ofList, hspell]
  exact numeral?_signed (magnitude?_positional _ _) hpos.ne' b

theorem format_of_infinite (h : parts (toPlaces places x) = .infinite b) :
    format places x = if b then "-inf" else "inf" := by
  rw [format, beq_zero_of_infinite h, if_neg Bool.false_ne_true, text, spell, h]
  cases b <;> rfl

/-! ## Scaling -/

/-- The error of a scaled number, divided again. -/
theorem abs_div_sub_le {s v f d : ℚ} (hf : 0 < f) (h : |s - v * f| ≤ d) : |s / f - v| ≤ d / f := by
  have hdivide : s / f - v = (s - v * f) / f := by rw [sub_div, mul_div_cancel_right₀ _ hf.ne']
  rw [hdivide, abs_div, abs_of_pos hf]
  exact div_le_div_of_nonneg_right h hf.le

theorem one_le_factor (places : ℕ) : (1 : ℚ) ≤ 10 ^ min places 16 := one_le_pow₀ (by norm_num)

theorem factor_le (places : ℕ) : (10 : ℚ) ^ min places 16 ≤ 10 ^ 16 :=
  pow_le_pow_right₀ (by norm_num) (min_le_right _ _)

/-- A number is not scaled to zero. -/
theorem exists_product (hx : parts x = .finite b m e) (hm : 0 < m) (places : ℕ) :
    ∃ n g, Rounds (m * 2 ^ e * 10 ^ min places 16) n g ∧ 0 < n ∧ (m * 2 ^ e : ℚ) ≤ n * 2 ^ g ∧
      parts (x * Float.ofNat (Nat.pow 10 (min places 16))) = .rounded b n g := by
  have hm' : (0 : ℚ) < m := by exact_mod_cast hm
  have hv : (0 : ℚ) < m * 2 ^ e := by positivity
  obtain ⟨n, g, hrounds, hparts⟩ :=
    Stands.mul ⟨m, e, hx, rfl⟩ (stands_factor (min_le_right places 16)) hv (by positivity)
  obtain ⟨hc, -⟩ := canonical_of_parts hx hm
  have hkept : (m * 2 ^ e : ℚ) ≤ n * 2 ^ g :=
    hrounds.ge_of_ge hc.lt.le hc.least (le_mul_of_one_le_right hv.le (one_le_factor places))
  have hn : n ≠ 0 := by
    rintro rfl
    rw [Nat.cast_zero, zero_mul] at hkept
    linarith
  exact ⟨n, g, hrounds, Nat.pos_of_ne_zero hn, hkept, by rw [hparts, Bool.xor_false]⟩

/-- The double that is rounded to a whole number, if it is not too large for a double. -/
theorem exists_scaled (hx : parts x = .finite b m e) (hm : 0 < m) (places : ℕ)
    (hlt : (m * 2 ^ e * 10 ^ min places 16 : ℚ) < overflow) :
    ∃ s : ℚ, Stands (x * Float.ofNat (Nat.pow 10 (min places 16))) b s ∧ 0 < s ∧ s < overflow ∧
      |s - m * 2 ^ e * 10 ^ min places 16| ≤ 2 ^ e * 10 ^ min places 16 ∧
      ((m * 2 ^ e * 10 ^ min places 16 : ℚ) < 2 ^ 52 → s ≤ 2 ^ 52) ∧
      ((2 : ℚ) ^ 52 ≤ m * 2 ^ e * 10 ^ min places 16 → 2 ^ 52 ≤ s) := by
  have hm' : (0 : ℚ) < m := by exact_mod_cast hm
  have hv : (0 : ℚ) < m * 2 ^ e := by positivity
  obtain ⟨n, g, hrounds, hn, hkept, hparts⟩ := exists_product hx hm places
  have hg := hrounds.le_iff_lt.2 hlt
  rw [Parts.rounded_of_pos hn hg] at hparts
  have htop : (2 : ℚ) ^ 52 = (2 ^ 52 : ℕ) * 2 ^ (0 : ℤ) := by norm_num
  refine ⟨n * 2 ^ g, ⟨n, g, hparts, rfl⟩, hv.trans_le hkept, ?_,
    Rounds.abs_sub_le_mul (canonical_of_parts hx hm).1 (one_le_factor places) hrounds,
    fun hsmall => ?_, fun hlarge => ?_⟩
  · exact hrounds.toCanonical.lt_overflow hg
  · rw [htop] at hsmall ⊢
    exact hrounds.le_of_le (by decide) (by decide) hsmall.le
  · rw [htop] at hlarge ⊢
    exact hrounds.ge_of_ge (by decide) (by decide) hlarge

/-- What is divided by the factor again is neither zero nor too large. -/
theorem exists_quotient {X : Float} {s : ℚ} (hX : Stands X b s) (hs : 1 ≤ s) (hlt : s < overflow)
    (places : ℕ) :
    ∃ n g, Rounds (s / 10 ^ min places 16) n g ∧ 0 < n ∧ g ≤ 971 ∧
      parts (X / Float.ofNat (Nat.pow 10 (min places 16))) = .finite b n g := by
  have hfactor := one_le_factor places
  have hfactor' : (0 : ℚ) < 10 ^ min places 16 := by positivity
  obtain ⟨n, g, hrounds, hparts⟩ := Stands.div hX (stands_factor (min_le_right places 16))
    (by linarith) (by positivity)
  rw [Bool.xor_false] at hparts
  have hg : g ≤ 971 := hrounds.le_iff_lt.2 ((div_le_self (by linarith) hfactor).trans_lt hlt)
  have hleast : ((1 : ℕ) : ℚ) * 2 ^ (-54 : ℤ) ≤ s / 10 ^ min places 16 := by
    rw [le_div_iff₀ hfactor']
    calc ((1 : ℕ) : ℚ) * 2 ^ (-54 : ℤ) * 10 ^ min places 16
      _ ≤ ((1 : ℕ) : ℚ) * 2 ^ (-54 : ℤ) * 10 ^ 16 :=
          mul_le_mul_of_nonneg_left (factor_le places) (by positivity)
      _ ≤ 1 := by norm_num
      _ ≤ s := hs
  have hkept := hrounds.ge_of_ge (by decide) (by decide) hleast
  have hn : 0 < n := by
    refine Nat.pos_of_ne_zero ?_
    rintro rfl
    rw [Nat.cast_zero, zero_mul] at hkept
    have : (0 : ℚ) < ((1 : ℕ) : ℚ) * 2 ^ (-54 : ℤ) := by positivity
    linarith
  exact ⟨n, g, hrounds, hn, hg, by rw [hparts, Parts.rounded_of_pos hn hg]⟩

/-- A number that is scaled to less than `2 ^ 52` is written to its places. -/
theorem format_of_small (hx : parts x = .finite b m e) (hm : 0 < m)
    (hsmall : (m * 2 ^ e * 10 ^ min places 16 : ℚ) < 2 ^ 52) :
    ∃ t, numeral? (format places x).toList = some (signed b t) ∧
      |t - m * 2 ^ e| ≤ 1 / 2 / 10 ^ min places 16 + 2 ^ e := by
  have hfactor : (0 : ℚ) < 10 ^ min places 16 := by positivity
  have hover : (2 : ℚ) ^ 52 < overflow := by linarith [two_pow_lt_overflow]
  obtain ⟨s, hscaled, hs, -, herror, hle, -⟩ :=
    exists_scaled hx hm places (hsmall.trans hover)
  -- the scaled number is rounded to a whole one
  obtain ⟨r, hr, hnear, hwhole⟩ : ∃ r : ℕ, r ≤ 2 ^ 52 ∧ |r - s| ≤ 1 / 2 ∧
      Stands (roundHalfAway (x * Float.ofNat (Nat.pow 10 (min places 16)))) b r := by
    obtain ⟨hbelow, habove⟩ := stands_roundHalfAway hscaled
    rcases (hle hsmall).lt_or_eq with hlt | heq
    · exact hbelow hlt
    · exact ⟨2 ^ 52, le_rfl, by rw [heq]; norm_num, by exact_mod_cast heq ▸ habove heq.ge⟩
  have hbound :
      |(r : ℚ) / 10 ^ min places 16 - m * 2 ^ e| ≤ 1 / 2 / 10 ^ min places 16 + 2 ^ e := by
    have hsum : |(r : ℚ) - m * 2 ^ e * 10 ^ min places 16| ≤ 1 / 2 + 2 ^ e * 10 ^ min places 16 :=
      (abs_sub_le _ s _).trans (add_le_add hnear herror)
    simpa only [add_div, mul_div_cancel_right₀ _ hfactor.ne'] using abs_div_sub_le hfactor hsum
  refine ⟨r / 10 ^ min places 16, ?_, hbound⟩
  rcases Nat.eq_zero_or_pos r with rfl | hpos
  · rw [Nat.cast_zero] at hwhole
    obtain ⟨f, hzero⟩ := hwhole.exists_zero
    rw [numeral?_format_zero (parts_zero_div hzero (stands_factor (min_le_right places 16))
      (by positivity)), Nat.cast_zero, zero_div, signed_zero]
  · have hone : (1 : ℚ) ≤ r := by exact_mod_cast hpos
    have hr' : (r : ℚ) ≤ 2 ^ 52 := by exact_mod_cast hr
    obtain ⟨n, g, hrounds, hn, hg, hparts⟩ :=
      exists_quotient hwhole hone (hr'.trans_lt hover) places
    rw [numeral?_format_of_pos hparts hn,
      shortest_of_places hr (min_le_right places 16) hrounds hn hg]

/-- A number that is scaled to `2 ^ 52` or more, but to a double, loses two units at most. -/
theorem format_of_large (hx : parts x = .finite b m e) (hm : 0 < m)
    (hlarge : (2 : ℚ) ^ 52 ≤ m * 2 ^ e * 10 ^ min places 16)
    (hlt : (m * 2 ^ e * 10 ^ min places 16 : ℚ) < overflow) :
    ∃ t, numeral? (format places x).toList = some (signed b t) ∧ |t - m * 2 ^ e| ≤ 2 * 2 ^ e := by
  have hfactor : (0 : ℚ) < 10 ^ min places 16 := by positivity
  obtain ⟨s, hscaled, hs, hfinite, herror, -, hge⟩ := exists_scaled hx hm places hlt
  have hwhole := (stands_roundHalfAway hscaled).2 (hge hlarge)
  have hone : 1 ≤ s := le_trans (by norm_num) (hge hlarge)
  obtain ⟨n, g, hrounds, hn, hg, hparts⟩ := exists_quotient hwhole hone hfinite places
  refine ⟨_, numeral?_format_of_pos hparts hn, ?_⟩
  have hc := (canonical_of_parts hx hm).1
  have hmantissa := hc.lt
  -- the quotient is a unit off at most, and so is the double that it is rounded to
  have hquotient : |s / 10 ^ min places 16 - m * 2 ^ e| ≤ 2 ^ e := by
    simpa only [mul_div_cancel_right₀ _ hfactor.ne'] using abs_div_sub_le hfactor herror
  obtain ⟨hbelow, habove⟩ := abs_le.1 hquotient
  have hhigh : (n * 2 ^ g : ℚ) ≤ (m + 1 : ℕ) * 2 ^ e :=
    hrounds.le_of_le (by omega) hc.least (by push_cast; linarith)
  have hlow : ((m - 1 : ℕ) * 2 ^ e : ℚ) ≤ n * 2 ^ g :=
    hrounds.ge_of_ge (by omega) hc.least (by rw [Nat.cast_sub hm]; push_cast; linarith)
  rw [Nat.cast_sub hm] at hlow
  push_cast at hlow hhigh
  have hdouble := hc.unit_le hrounds.toCanonical hhigh
  have hshortest := contains_shortest hn g
  have hnear := hshortest.half_below
  have hnear' := hshortest.le_high
  rw [abs_le]
  constructor <;> linarith

/-- A number that is too large when it is scaled is written as infinity. -/
theorem format_of_overflow (hx : parts x = .finite b m e) (hm : 0 < m)
    (hover : overflow ≤ (m * 2 ^ e * 10 ^ min places 16 : ℚ)) :
    format places x = if b then "-inf" else "inf" := by
  obtain ⟨n, g, hrounds, hn, -, hparts⟩ := exists_product hx hm places
  have hg : ¬g ≤ 971 := fun hg => absurd (hrounds.le_iff_lt.1 hg) (not_lt.2 hover)
  rw [Parts.rounded, if_neg hn.ne', if_neg hg] at hparts
  have hwhole : roundHalfAway (x * Float.ofNat (Nat.pow 10 (min places 16))) =
      x * Float.ofNat (Nat.pow 10 (min places 16)) := by
    rw [roundHalfAway, mapWhole, hparts]
  have hinfinite : parts (toPlaces places x) = .infinite b := by
    rw [toPlaces, hwhole, parts_infinite_div hparts (stands_factor (min_le_right places 16))
      (by positivity), Bool.xor_false]
  exact format_of_infinite hinfinite

/-- The scaling of a zero leaves it a zero. -/
theorem parts_toPlaces_zero (hx : parts x = .finite b 0 e) (places : ℕ) :
    parts (toPlaces places x) = .finite ((b ^^ false) ^^ false) 0 0 := by
  have hfactor := stands_factor (min_le_right places 16)
  have hscaled := parts_zero_mul hx hfactor (by positivity)
  have hwhole : roundHalfAway (x * Float.ofNat (Nat.pow 10 (min places 16))) =
      x * Float.ofNat (Nat.pow 10 (min places 16)) := by
    simp only [roundHalfAway, mapWhole, hscaled, if_pos le_rfl]
  rw [toPlaces, hwhole, parts_zero_div hscaled hfactor (by positivity)]

/-- Both zeros are written alike. -/
theorem format_of_zero (hx : parts x = .finite b 0 e) (places : ℕ) :
    numeral? (format places x).toList = some 0 :=
  numeral?_format_zero (parts_toPlaces_zero hx places)

/-! ## Formatted numbers -/

/-- The text of a finite number is a plain numeral, as near to the number as its places and its
    unit ask for, if the number is scaled to less than `2 ^ 52`. If it is scaled to more, the
    numeral is two units off at most, unless the scaled number is infinite, and so the text. -/
theorem format_near (places : ℕ) (hx : isFinite x = true) :
    (|value x| * 10 ^ min places 16 < 2 ^ 52 →
      ∃ t, numeral? (format places x).toList = some t ∧
        |t - value x| ≤ 1 / 2 / 10 ^ min places 16 + ulp x) ∧
    (2 ^ 52 ≤ |value x| * 10 ^ min places 16 → |value x| * 10 ^ min places 16 < overflow →
      ∃ t, numeral? (format places x).toList = some t ∧ |t - value x| ≤ 2 * ulp x) ∧
    (overflow ≤ |value x| * 10 ^ min places 16 →
      format places x = if value x < 0 then "-inf" else "inf") := by
  obtain ⟨b, m, e, hparts⟩ := exists_parts hx
  have hvalue : value x = signed b (m * 2 ^ e) := by rw [value, hparts]
  rcases Nat.eq_zero_or_pos m with rfl | hm
  · have hzero : value x = 0 := by rw [hvalue, Nat.cast_zero, zero_mul, signed_zero]
    have hulp : 0 ≤ ulp x := by
      rw [ulp, hparts]
      positivity
    rw [hzero, abs_zero, zero_mul]
    refine ⟨fun _ => ⟨0, format_of_zero hparts places, ?_⟩, fun hlarge => ?_, fun hover => ?_⟩
    · rw [sub_zero, abs_zero]
      positivity
    · exact absurd hlarge (by norm_num)
    · exact absurd hover (not_le.2 ((by positivity : (0 : ℚ) < 2 ^ 53).trans two_pow_lt_overflow))
  have hm' : (0 : ℚ) < m := by exact_mod_cast hm
  have hpos : (0 : ℚ) < m * 2 ^ e := by positivity
  have hulp : ulp x = 2 ^ e := by
    rw [ulp, hparts]
    exact if_neg hm.ne'
  rw [hulp, hvalue, abs_signed hpos.le]
  refine ⟨fun hsmall => ?_, fun hlarge hlt => ?_, fun hover => ?_⟩
  · obtain ⟨t, ht, hnear⟩ := format_of_small hparts hm hsmall
    exact ⟨_, ht, by rwa [abs_signed_sub]⟩
  · obtain ⟨t, ht, hnear⟩ := format_of_large hparts hm hlarge hlt
    exact ⟨_, ht, by rwa [abs_signed_sub]⟩
  · rw [format_of_overflow hparts hm hover]
    cases b
    · exact (if_neg (not_lt.2 hpos.le)).symm
    · exact (if_pos (neg_neg_iff_pos.2 hpos)).symm

/-- A third with five places, and a number that has more digits than a double keeps when it is
    scaled. -/
theorem format_near_third :
    (∃ t, numeral? (format 5 (1 / 3)).toList = some t ∧
      |t - value (1 / 3)| ≤ 1 / 2 / 10 ^ min 5 16 + ulp (1 / 3)) ∧
    ∃ t, numeral? (format 5 1e300).toList = some t ∧ |t - value 1e300| ≤ 2 * ulp 1e300 :=
  ⟨(format_near 5 (by decide +kernel)).1 (by decide +kernel),
    (format_near 5 (by decide +kernel)).2.1 (by decide +kernel) (by decide +kernel)⟩

/-- A large number is not written as a numeral at all, and a smaller one as a numeral that is too
    far from it. -/
theorem format_not_near :
    (isFinite 1e308 = true ∧
      ¬∃ t, numeral? (format 5 1e308).toList = some t ∧
        |t - value 1e308| ≤ 1 / 2 / 10 ^ min 5 16 + ulp 1e308) ∧
    isFinite 6.286766103122175e19 = true ∧
      ¬∃ t, numeral? (format 14 6.286766103122175e19).toList = some t ∧
        |t - value 6.286766103122175e19| ≤ 1 / 2 / 10 ^ min 14 16 + ulp 6.286766103122175e19 := by
  have hinfinite : numeral? (format 5 1e308).toList = none := by decide +kernel
  have hnumeral : numeral? (format 14 6.286766103122175e19).toList = some 62867661031221760000 := by
    decide +kernel
  refine ⟨⟨by decide +kernel, ?_⟩, by decide +kernel, ?_⟩
  · rintro ⟨t, ht, -⟩
    rw [hinfinite] at ht
    cases ht
  · rintro ⟨t, ht, hle⟩
    rw [hnumeral] at ht
    cases ht
    revert hle
    decide +kernel

end Decimal

end StyleScript
