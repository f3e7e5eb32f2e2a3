-- SUMMARY: Rounding drops bits and still finds the double whose interval holds the magnitude.
import Mathlib.Algebra.Order.Field.Power
import Mathlib.Data.Rat.Cast.Order
import Mathlib.Tactic.Linarith
import Mathlib.Tactic.Positivity
import Mathlib.Tactic.Ring
import StyleScript.Decimal.Shortest
import StyleScript.Proofs.Doubles

/-!
# Rounded doubles

A magnitude is rounded by dropping bits. How many are kept depends on its leading bit; those that
are dropped are remembered as two, which tell what was dropped from a half and from nothing. What
is left is the double whose interval holds the magnitude. From this alone follow the other
properties: rounding moves by half a unit at most, it crosses no double, and it keeps the doubles
themselves.

Main statement: a mantissa with what is known of its dropped bits is rounded to the double nearest
to the magnitude that they describe.
-/

namespace StyleScript

/-! ## Intervals -/

namespace Decimal.Interval

/-- What rounds to a double. The ends are included when the mantissa is even. -/
def Contains (i : Interval) (y : ℚ) : Prop :=
  if i.closed then i.low * 2 ^ i.unit ≤ y ∧ y ≤ i.high * 2 ^ i.unit
  else i.low * 2 ^ i.unit < y ∧ y < i.high * 2 ^ i.unit

variable {m : ℕ} {e : ℤ} {y : ℚ}

theorem quarters_mul (k : ℚ) (e : ℤ) : 4 * k * (2 : ℚ) ^ (e - 2) = k * 2 ^ e := by
  rw [zpow_sub₀ two_ne_zero]
  norm_num
  ring

theorem high_ofParts : ((ofParts m e).high : ℚ) * 2 ^ (ofParts m e).unit = (m + 1 / 2) * 2 ^ e := by
  rw [← quarters_mul (m + 1 / 2)]
  simp only [ofParts]
  push_cast
  ring

/-- The lower end, where doubles lie as dense below as above. -/
theorem low_ofParts (hpos : 0 < m) (h : ¬(m = 2 ^ 52 ∧ -1074 < e)) :
    ((ofParts m e).low : ℚ) * 2 ^ (ofParts m e).unit = (m - 1 / 2) * 2 ^ e := by
  rw [← quarters_mul (m - 1 / 2)]
  simp only [ofParts, Nat.pow_eq, if_neg h]
  rw [Nat.cast_sub (by omega)]
  push_cast
  ring

/-- The lower end at a power of two. -/
theorem low_ofParts_of_eq (h : m = 2 ^ 52 ∧ -1074 < e) :
    ((ofParts m e).low : ℚ) * 2 ^ (ofParts m e).unit = (m - 1 / 4) * 2 ^ e := by
  rw [← quarters_mul (m - 1 / 4)]
  simp only [ofParts, Nat.pow_eq, if_pos h]
  rw [Nat.cast_sub (by omega)]
  push_cast
  ring

theorem low_ofParts_zero : ((ofParts 0 e).low : ℚ) * 2 ^ (ofParts 0 e).unit = 0 := by
  simp [ofParts]

theorem contains_of_lt (hlow : ((ofParts m e).low : ℚ) * 2 ^ (ofParts m e).unit ≤ y)
    (hhigh : y ≤ (m + 1 / 2) * 2 ^ e)
    (heven : y = (ofParts m e).low * 2 ^ (ofParts m e).unit ∨ y = (m + 1 / 2) * 2 ^ e → m % 2 = 0) :
    (ofParts m e).Contains y := by
  rw [Contains, high_ofParts]
  have hclosed : (ofParts m e).closed = (m % 2 == 0) := rfl
  split
  · exact ⟨hlow, hhigh⟩
  · rename_i hodd
    rw [hclosed, beq_iff_eq] at hodd
    exact ⟨lt_of_le_of_ne hlow fun h => hodd (heven (.inl h.symm)),
      lt_of_le_of_ne hhigh fun h => hodd (heven (.inr h))⟩

variable (h : (ofParts m e).Contains y)
include h

theorem Contains.low_le : ((ofParts m e).low : ℚ) * 2 ^ (ofParts m e).unit ≤ y := by
  unfold Contains at h
  split at h
  · exact h.1
  · exact h.1.le

theorem Contains.le_high : y ≤ (m + 1 / 2) * 2 ^ e := by
  rw [← high_ofParts]
  unfold Contains at h
  split at h
  · exact h.2
  · exact h.2.le

theorem Contains.lt_high (hodd : m % 2 = 1) : y < (m + 1 / 2) * 2 ^ e := by
  rw [Contains, if_neg (by simp [ofParts, hodd]), high_ofParts] at h
  exact h.2

/-- The lower end is at most half a unit below. -/
theorem Contains.half_below : (m - 1 / 2) * 2 ^ e ≤ y := by
  have hunit : (0 : ℚ) < 2 ^ e := by positivity
  have hlow := h.low_le
  rcases Nat.eq_zero_or_pos m with rfl | hpos
  · rw [low_ofParts_zero] at hlow
    push_cast
    linarith
  · by_cases heq : m = 2 ^ 52 ∧ -1074 < e
    · rw [low_ofParts_of_eq heq] at hlow
      linarith
    · rwa [low_ofParts hpos heq] at hlow

/-- The end itself is not rounded to an odd mantissa. -/
theorem Contains.half_lt (hodd : m % 2 = 1) : (m - 1 / 2) * 2 ^ e < y := by
  have hlow : ((ofParts m e).low : ℚ) * 2 ^ (ofParts m e).unit < y := by
    rw [Contains, if_neg (by simp [ofParts, hodd])] at h
    exact h.1
  rwa [low_ofParts (by omega) (by omega)] at hlow

/-- Above the bottom of the range it is at most a quarter of a unit below the least mantissa. -/
theorem Contains.quarter_below (hfull : 2 ^ 52 ≤ m) (he : -1074 < e) :
    (2 ^ 52 - 1 / 4) * 2 ^ e ≤ y := by
  have hunit : (0 : ℚ) < 2 ^ e := by positivity
  rcases hfull.eq_or_lt with rfl | hlt
  · have hlow := h.low_le
    rw [low_ofParts_of_eq ⟨rfl, he⟩] at hlow
    exact_mod_cast hlow
  · have hm : (2 : ℚ) ^ 52 + 1 ≤ m := by exact_mod_cast hlt
    exact le_trans (mul_le_mul_of_nonneg_right (by linarith) hunit.le) h.half_below

end Decimal.Interval

namespace Binary64

open Float.Model Float.Model.UnpackedFloat

/-! ## Nearest whole numbers -/

/-- A whole number that none is nearer to a rational than. Of two it is the even one. -/
structure Nearest (r : ℕ) (z : ℚ) : Prop where
  below : r - 1 / 2 ≤ z
  above : z ≤ r + 1 / 2
  even : z = r - 1 / 2 ∨ z = r + 1 / 2 → r % 2 = 0

/-- The mantissa is the whole part of a rational, and the residual bits tell its fraction from a
    half and from zero. -/
structure Describes (em : ExtendedMantissa) (z : ℚ) : Prop where
  le : em.mantissa ≤ z
  lt : z < em.mantissa + 1
  half : em.roundBit = true ↔ em.mantissa + 1 / 2 ≤ z
  odd : em.stickyBit = true ↔ z ≠ em.mantissa ∧ z ≠ em.mantissa + 1 / 2

variable {em : ExtendedMantissa} {z : ℚ}

/-- Shifting halves what is described. -/
theorem Describes.shiftRightOne (h : Describes em z) : Describes em.shiftRightOne (z / 2) := by
  obtain ⟨m, round, sticky⟩ := em
  obtain ⟨hle, hlt, hhalf, hodd⟩ := h
  dsimp only at hle hlt hhalf hodd
  have hexact : (round || sticky) = true ↔ z ≠ m := by
    rw [Bool.or_eq_true, hhalf, hodd]
    constructor
    · rintro (h | ⟨h, -⟩) rfl
      · linarith
      · exact h rfl
    · intro h
      by_cases hge : (m : ℚ) + 1 / 2 ≤ z
      · exact .inl hge
      · exact .inr ⟨h, fun heq => hge heq.ge⟩
  have hm : (m : ℚ) = 2 * (m / 2 : ℕ) + (m % 2 : ℕ) := by
    exact_mod_cast (Nat.div_add_mod m 2).symm
  rcases Nat.mod_two_eq_zero_or_one m with hparity | hparity <;> rw [hparity] at hm <;>
    push_cast at hm <;>
    refine ⟨?_, ?_, ?_, ?_⟩ <;>
    simp only [ExtendedMantissa.shiftRightOne, hparity, hexact, bne_self_eq_false, Nat.reduceBNe,
      Bool.false_eq_true, false_iff, true_iff, not_le]
  · linarith
  · linarith
  · linarith
  · -- a fraction below a half stays below a quarter
    exact ⟨fun h => ⟨fun heq => h (by linarith), fun heq => by linarith⟩,
      fun h heq => h.1 (by linarith)⟩
  · linarith
  · linarith
  · linarith
  · exact ⟨fun h => ⟨fun heq => by linarith, fun heq => h (by linarith)⟩,
      fun h heq => h.2 (by linarith)⟩

theorem Describes.shiftRight (h : Describes em z) (n : ℕ) : Describes (em >>> n) (z / 2 ^ n) := by
  induction n with
  | zero => rwa [pow_zero, div_one]
  | succ n ih =>
    rw [pow_succ, ← div_div]
    exact ih.shiftRightOne

/-- The rounded mantissa is nearest to what is described. -/
theorem Describes.nearest (h : Describes em z) : Nearest em.roundedMantissa z := by
  obtain ⟨m, round, sticky⟩ := em
  obtain ⟨hle, hlt, hhalf, hodd⟩ := h
  dsimp only at hle hlt hhalf hodd
  cases round <;> cases sticky <;>
    simp only [true_iff, Bool.false_eq_true, false_iff, not_le, not_and_or, not_not]
      at hhalf hodd <;>
    simp only [ExtendedMantissa.roundedMantissa, ExtendedMantissa.accuracy,
      Accuracy.roundToNearestEven]
  · have hz : z = m := hodd.resolve_right hhalf.ne
    refine ⟨by linarith, by linarith, ?_⟩
    rintro (h | h) <;> linarith
  · refine ⟨by linarith, by linarith, ?_⟩
    rintro (h | h) <;> linarith
  · have hz : z = m + 1 / 2 := hodd.resolve_left (by linarith)
    rcases Nat.mod_two_eq_zero_or_one m with hparity | hparity
    · rw [hparity]
      exact ⟨by push_cast; linarith, by push_cast; linarith, fun _ => by omega⟩
    · rw [hparity]
      exact ⟨by push_cast; linarith, by push_cast; linarith, fun _ => by omega⟩
  · have hz : (m : ℚ) + 1 / 2 < z := lt_of_le_of_ne hhalf (Ne.symm hodd.2)
    refine ⟨by push_cast; linarith, by push_cast; linarith, ?_⟩
    push_cast
    rintro (h | h) <;> linarith

/-! ## Rounding a magnitude -/

/-- The double `m * 2 ^ e` is the one that a magnitude rounds to. Nothing is said of how large the
    exponent is. -/
structure Rounds (y : ℚ) (m : ℕ) (e : ℤ) : Prop extends Canonical m e where
  contains : (Decimal.Interval.ofParts m e).Contains y

variable {y : ℚ} {m n : ℕ} {e f : ℤ} {s t : Sign}

/-- The nearest mantissa is that of the nearest double, if it is one. -/
theorem Rounds.of_nearest (hc : Canonical m e) (hy : 0 ≤ y)
    (hfull : 2 ^ 52 * 2 ^ e ≤ y ∨ e = -1074) (h : Nearest m (y / 2 ^ e)) : Rounds y m e := by
  have hunit : (0 : ℚ) < 2 ^ e := by positivity
  obtain ⟨hbelow, habove, heven⟩ := h
  rw [le_div_iff₀ hunit] at hbelow
  rw [div_le_iff₀ hunit] at habove
  rw [div_eq_iff hunit.ne', div_eq_iff hunit.ne'] at heven
  refine ⟨hc, Decimal.Interval.contains_of_lt ?_ habove ?_⟩
  · rcases Nat.eq_zero_or_pos m with rfl | hpos
    · rwa [Decimal.Interval.low_ofParts_zero]
    · by_cases heq : m = 2 ^ 52 ∧ -1074 < e
      · -- below the least mantissa there would be one bit more
        rw [Decimal.Interval.low_ofParts_of_eq heq]
        have hge := hfull.resolve_right (by omega)
        have hm : (m : ℚ) = 2 ^ 52 := by exact_mod_cast heq.1
        rw [hm]
        linarith
      · rwa [Decimal.Interval.low_ofParts hpos heq]
  · rintro (hlow | hhigh)
    · rcases Nat.eq_zero_or_pos m with rfl | hpos
      · rfl
      · by_cases heq : m = 2 ^ 52 ∧ -1074 < e
        · rw [heq.1]
          rfl
        · rw [Decimal.Interval.low_ofParts hpos heq] at hlow
          exact heven (.inl hlow)
    · exact heven (.inr hhigh)

/-- One bit too many is carried into the exponent. -/
theorem Rounds.of_carry (hleast : -1074 ≤ e) (hlt : y < 2 ^ 53 * 2 ^ e)
    (h : Nearest (2 ^ 53) (y / 2 ^ e)) : Rounds y (2 ^ 52) (e + 1) := by
  have hunit : (0 : ℚ) < 2 ^ e := by positivity
  have hdouble : (2 : ℚ) ^ (e + 1) = 2 * 2 ^ e := by rw [zpow_add₀ two_ne_zero, zpow_one, mul_comm]
  have hbelow := (le_div_iff₀ hunit).1 h.below
  push_cast at hbelow
  refine ⟨⟨by decide, by omega, .inl le_rfl⟩, Decimal.Interval.contains_of_lt ?_ ?_ fun _ => rfl⟩
  · rw [Decimal.Interval.low_ofParts_of_eq ⟨rfl, by omega⟩, hdouble]
    push_cast
    linarith
  · rw [hdouble]
    push_cast
    linarith

/-- A double of a sign, a mantissa and an exponent, which is a zero when the mantissa is. -/
def finiteOrZero (s : Sign) (m : ℕ) (e : ℤ) : UnpackedFloat :=
  if h : m = 0 then .zero s else .finite s m e (Nat.pos_of_ne_zero h)

theorem shiftToTargetExponent_eq {accuracy : Accuracy}
    (hn : (max ((m.log2 : ℤ) + 1 + e - 53) (-1074) - e).toNat = n) :
    shiftToTargetExponent .binary64 m e accuracy =
      (ExtendedMantissa.ofMantissaAndAccuracy m accuracy >>> n, e + n) := by
  subst hn
  rfl

/-- A mantissa that was rounded has its bits, or is carried. -/
theorem shiftToTargetExponent_rounded (hleast : -1074 ≤ e) (hle : m ≤ 2 ^ 53) :
    shiftToTargetExponent .binary64 m e .exact =
      if m < 2 ^ 53 then (⟨m, false, false⟩, e) else (⟨2 ^ 52, false, false⟩, e + 1) := by
  split
  · rename_i hlt
    have hbits : m.log2 < 53 := by
      rcases Nat.eq_zero_or_pos m with rfl | hpos
      · decide
      · exact (Nat.log2_lt hpos.ne').2 hlt
    rw [shiftToTargetExponent_eq (n := 0) (by omega), Nat.cast_zero, add_zero]
    rfl
  · obtain rfl : m = 2 ^ 53 := by omega
    rw [shiftToTargetExponent_eq (n := 1) (by rw [Nat.log2_two_pow]; omega)]
    rfl

/-- At the exponent that is aimed at there are 53 bits at most. -/
theorem lt_of_target (hz : z < m + 1) (htarget : m.log2 + 1 + e - 53 ≤ f) :
    z * 2 ^ e < 2 ^ 53 * 2 ^ f := by
  have hbits : (m : ℚ) + 1 ≤ 2 ^ (m.log2 + 1) := by exact_mod_cast Nat.lt_log2_self
  calc z * 2 ^ e < 2 ^ (m.log2 + 1) * 2 ^ e :=
        mul_lt_mul_of_pos_right (hz.trans_le hbits) (by positivity)
    _ = 2 ^ (((m.log2 + 1 : ℕ) : ℤ) + e) := by rw [zpow_add₀ two_ne_zero, zpow_natCast]
    _ ≤ 2 ^ (53 + f) := zpow_le_zpow_right₀ one_le_two (by push_cast; omega)
    _ = 2 ^ 53 * 2 ^ f := by rw [zpow_add₀ two_ne_zero 53]; rfl

/-- There are no fewer, if the exponent was not kept from falling below the least one. -/
theorem le_of_target (hm : 0 < m) (hz : m ≤ z) (htarget : f = m.log2 + 1 + e - 53) :
    2 ^ 52 * 2 ^ f ≤ z * 2 ^ e := by
  have hbits : (2 : ℚ) ^ m.log2 ≤ m := by exact_mod_cast Nat.log2_self_le hm.ne'
  calc (2 : ℚ) ^ 52 * 2 ^ f = 2 ^ (52 + f) := by rw [zpow_add₀ two_ne_zero 52]; rfl
    _ = 2 ^ ((m.log2 : ℤ) + e) := by congr 1; omega
    _ = 2 ^ m.log2 * 2 ^ e := by rw [zpow_add₀ two_ne_zero, zpow_natCast]
    _ ≤ z * 2 ^ e := mul_le_mul_of_nonneg_right (hbits.trans hz) (by positivity)

/-- What is described is rounded to the nearest double. -/
theorem rounds_roundWithAccuracy {accuracy : Accuracy}
    (hz : Describes (.ofMantissaAndAccuracy m accuracy) z)
    (hle : e ≤ max (m.log2 + 1 + e - 53) (-1074)) (s : Sign) :
    ∃ k g, Rounds (z * 2 ^ e) k g ∧
      roundWithAccuracy .binary64 s m e accuracy = finiteOrZero s k g := by
  obtain ⟨n, hn⟩ : ∃ n : ℕ, max ((m.log2 : ℤ) + 1 + e - 53) (-1074) = e + n :=
    ⟨_, by rw [Int.toNat_of_nonneg (sub_nonneg.2 hle)]; ring⟩
  have hleast : -1074 ≤ e + n := hn ▸ le_max_right _ _
  have hunit : (0 : ℚ) < 2 ^ (e + n) := by positivity
  have hscale : z * 2 ^ e / 2 ^ (e + n : ℤ) = z / 2 ^ n := by
    rw [zpow_add₀ two_ne_zero, zpow_natCast, mul_comm z, mul_div_mul_left _ _ (by positivity)]
  have hnearest := (hz.shiftRight n).nearest
  rw [← hscale] at hnearest
  have hmantissa : (ExtendedMantissa.ofMantissaAndAccuracy m accuracy).mantissa = m := by
    rcases accuracy with _ | _ | _ | _ <;> rfl
  have hbelow : (m : ℚ) ≤ z := hmantissa ▸ hz.le
  have habove : z < m + 1 := hmantissa ▸ hz.lt
  have hlt : z * 2 ^ e < 2 ^ 53 * 2 ^ (e + n) := lt_of_target habove (by omega)
  have hfull : 2 ^ 52 * 2 ^ (e + n) ≤ z * 2 ^ e ∨ e + n = -1074 := by
    refine or_iff_not_imp_right.2 fun hbottom => ?_
    have hpos : m ≠ 0 := by
      rintro rfl
      rw [Nat.log2_zero] at hn
      omega
    exact le_of_target (Nat.pos_of_ne_zero hpos) hbelow (by omega)
  have hfirst : shiftToTargetExponent .binary64 m e accuracy = _ :=
    shiftToTargetExponent_eq (n := n) (by omega)
  rw [roundWithAccuracy, hfirst]
  dsimp only
  generalize (ExtendedMantissa.ofMantissaAndAccuracy m accuracy >>> n).roundedMantissa = r at *
  have hr : r ≤ 2 ^ 53 := by
    have hlarge : z * 2 ^ e / 2 ^ (e + n) < 2 ^ 53 := (div_lt_iff₀ hunit).2 hlt
    have hr : (r : ℚ) < 2 ^ 53 + 1 := by linarith [hnearest.below]
    exact Nat.lt_succ_iff.1 (by exact_mod_cast hr)
  rw [shiftToTargetExponent_rounded hleast hr]
  by_cases hcarry : r < 2 ^ 53
  · rw [if_pos hcarry]
    refine ⟨r, e + n, .of_nearest ⟨hcarry, hleast, ?_⟩
        (mul_nonneg (hbelow.trans' m.cast_nonneg) (by positivity)) hfull hnearest, rfl⟩
    refine hfull.imp_left fun hfull => ?_
    have hr : (2 : ℚ) ^ 52 < r + 1 := by linarith [hnearest.above, (le_div_iff₀ hunit).2 hfull]
    exact Nat.lt_succ_iff.1 (by exact_mod_cast hr)
  · obtain rfl : r = 2 ^ 53 := by omega
    rw [if_neg hcarry]
    exact ⟨2 ^ 52, e + n + 1, .of_carry hleast hlt hnearest, rfl⟩

/-! ## What rounding keeps -/

/-- The least magnitude that is too large for a double: the middle between the greatest double and
    the next power of two. -/
def overflow : ℚ := (2 ^ 53 - 1 / 2) * 2 ^ 971

theorem Canonical.lt_overflow (hc : Canonical m e) (he : e ≤ 971) : (m * 2 ^ e : ℚ) < overflow := by
  have hm : (m : ℚ) < 2 ^ 53 - 1 / 2 := by
    have hm' : (m : ℚ) + 1 ≤ 2 ^ 53 := by exact_mod_cast hc.lt
    linarith
  calc (m * 2 ^ e : ℚ) < (2 ^ 53 - 1 / 2) * 2 ^ e := mul_lt_mul_of_pos_right hm (by positivity)
    _ ≤ (2 ^ 53 - 1 / 2) * 2 ^ (971 : ℤ) :=
      mul_le_mul_of_nonneg_left (zpow_le_zpow_right₀ one_le_two he) (by norm_num)
    _ = overflow := by rw [overflow, zpow_ofNat]

/-- Mantissas and exponents are in the order of what they stand for. -/
theorem Canonical.lt_iff (hm : Canonical m e) (hn : Canonical n f) :
    (m * 2 ^ e : ℚ) < n * 2 ^ f ↔ e < f ∨ e = f ∧ m < n := by
  have hlt {m n : ℕ} {e f : ℤ} (hm : Canonical m e) (hn : Canonical n f) (hef : e < f) :
      (m * 2 ^ e : ℚ) < n * 2 ^ f := by
    have hleast := hm.least
    have hn' : (2 : ℚ) ^ 52 ≤ n := by exact_mod_cast hn.full.resolve_right (by omega)
    calc (m * 2 ^ e : ℚ) < 2 ^ 53 * 2 ^ e :=
          mul_lt_mul_of_pos_right (by exact_mod_cast hm.lt) (by positivity)
      _ = 2 ^ 52 * 2 ^ (e + 1) := by rw [zpow_add_one₀ two_ne_zero]; ring
      _ ≤ n * 2 ^ f :=
          mul_le_mul hn' (zpow_le_zpow_right₀ one_le_two (by omega)) (by positivity) n.cast_nonneg
  rcases lt_trichotomy e f with hef | rfl | hfe
  · exact iff_of_true (hlt hm hn hef) (.inl hef)
  · rw [mul_lt_mul_iff_left₀ (by positivity), Nat.cast_lt]
    simp
  · exact iff_of_false (hlt hn hm hfe).not_gt (by omega)

/-- Up to the next double the unit is doubled at most. -/
theorem Canonical.unit_le (hm : Canonical m e) (hn : Canonical n f)
    (hle : (n * 2 ^ f : ℚ) ≤ (m + 1) * 2 ^ e) : (2 : ℚ) ^ f ≤ 2 * 2 ^ e := by
  have hunit : (0 : ℚ) < 2 ^ e := by positivity
  by_cases hf : f ≤ e + 1
  · have hdouble : (2 : ℚ) ^ (e + 1) = 2 * 2 ^ e := by rw [zpow_add_one₀ two_ne_zero, mul_comm]
    exact (zpow_le_zpow_right₀ one_le_two hf).trans_eq hdouble
  · have hleast := hm.least
    have hn' : (2 : ℚ) ^ 52 ≤ n := by exact_mod_cast hn.full.resolve_right (by omega)
    have hstep : 4 * (2 : ℚ) ^ e ≤ 2 ^ f :=
      calc 4 * (2 : ℚ) ^ e = 2 ^ (e + 2) := by rw [zpow_add₀ two_ne_zero, mul_comm]; norm_num
        _ ≤ 2 ^ f := zpow_le_zpow_right₀ one_le_two (by omega)
    have hlarge : 2 ^ 52 * (4 * (2 : ℚ) ^ e) ≤ n * 2 ^ f :=
      mul_le_mul hn' hstep (by positivity) n.cast_nonneg
    have hm' : (m : ℚ) + 1 ≤ 2 ^ 53 := by exact_mod_cast hm.lt
    linarith [mul_le_mul_of_nonneg_right hm' hunit.le]

namespace Rounds

variable {v : ℚ}

/-- Rounding does not move a magnitude above a double that it is not above. -/
theorem le_of_le (h : Rounds v m e) (hn : n ≤ 2 ^ 53) (hf : -1074 ≤ f) (hle : v ≤ n * 2 ^ f) :
    (m * 2 ^ e : ℚ) ≤ n * 2 ^ f := by
  by_contra hlt
  rw [not_le] at hlt
  have hbelow := h.contains.half_below.trans hle
  rcases le_or_gt e f with hef | hfe
  · -- the double is one of the same unit, and so at least a unit below
    obtain ⟨k, rfl⟩ : ∃ k : ℕ, f = e + k := ⟨(f - e).toNat, by omega⟩
    have hunit : (0 : ℚ) < 2 ^ e := by positivity
    rw [zpow_add₀ two_ne_zero, zpow_natCast, mul_comm (2 ^ e : ℚ), ← mul_assoc] at hlt hbelow
    have hm : n * 2 ^ k + 1 ≤ m := by exact_mod_cast lt_of_mul_lt_mul_right hlt hunit.le
    have hm' : (n * 2 ^ k : ℚ) + 1 ≤ m := by exact_mod_cast hm
    linarith [le_of_mul_le_mul_right hbelow hunit]
  · -- the double has too few bits to be near
    obtain ⟨k, rfl⟩ : ∃ k : ℕ, e = f + 1 + k := ⟨(e - f - 1).toNat, by omega⟩
    have hunit : (0 : ℚ) < 2 ^ f := by positivity
    have hm : 2 ^ 52 ≤ m := h.full.resolve_right (by omega)
    have hquarter := (h.contains.quarter_below hm (by omega)).trans hle
    have hdouble : (2 : ℚ) ^ (f + 1 + k) = 2 * 2 ^ k * 2 ^ f := by
      rw [zpow_add₀ two_ne_zero, zpow_add_one₀ two_ne_zero, zpow_natCast]
      ring
    rw [hdouble, ← mul_assoc] at hlt hbelow hquarter
    have hlt' := lt_of_mul_lt_mul_right hlt hunit.le
    have hbelow' := le_of_mul_le_mul_right hbelow hunit
    have hquarter' := le_of_mul_le_mul_right hquarter hunit
    have hn' : (n : ℚ) ≤ 2 ^ 53 := by exact_mod_cast hn
    cases k with
    | zero =>
      have h1 : (n : ℚ) < 2 * m := by linarith
      have h2 : (2 : ℚ) * m < n + 2 := by linarith
      have h3 : (2 : ℚ) ^ 53 < n + 1 := by linarith
      have h1' : n < 2 * m := by exact_mod_cast h1
      have h2' : 2 * m < n + 2 := by exact_mod_cast h2
      have h3' : 2 ^ 53 < n + 1 := by exact_mod_cast h3
      omega
    | succ k =>
      have hpow : (2 : ℚ) ≤ 2 ^ (k + 1) := le_self_pow₀ one_le_two k.succ_ne_zero
      linarith

/-- Rounding does not move a magnitude below a double that it is not below. -/
theorem ge_of_ge (h : Rounds v m e) (hn : n ≤ 2 ^ 53) (hf : -1074 ≤ f) (hle : n * 2 ^ f ≤ v) :
    (n * 2 ^ f : ℚ) ≤ m * 2 ^ e := by
  rcases le_or_gt e f with hef | hfe
  · by_contra hlt
    rw [not_le] at hlt
    have habove := hle.trans h.contains.le_high
    obtain ⟨k, rfl⟩ : ∃ k : ℕ, f = e + k := ⟨(f - e).toNat, by omega⟩
    have hunit : (0 : ℚ) < 2 ^ e := by positivity
    rw [zpow_add₀ two_ne_zero, zpow_natCast, mul_comm (2 ^ e : ℚ), ← mul_assoc] at hlt habove
    have hm : m + 1 ≤ n * 2 ^ k := by exact_mod_cast lt_of_mul_lt_mul_right hlt hunit.le
    have hm' : (m : ℚ) + 1 ≤ n * 2 ^ k := by exact_mod_cast hm
    linarith [le_of_mul_le_mul_right habove hunit]
  · have hm : 2 ^ 52 ≤ m := h.full.resolve_right (by omega)
    calc (n * 2 ^ f : ℚ) ≤ 2 ^ 53 * 2 ^ f :=
          mul_le_mul_of_nonneg_right (by exact_mod_cast hn) (by positivity)
      _ = 2 ^ 52 * 2 ^ (f + 1) := by rw [zpow_add_one₀ two_ne_zero]; ring
      _ ≤ m * 2 ^ e := mul_le_mul (by exact_mod_cast hm) (zpow_le_zpow_right₀ one_le_two (by omega))
          (by positivity) m.cast_nonneg

/-- What a double stands for is not moved. -/
theorem eq_of_eq (h : Rounds (n * 2 ^ f) m e) (hn : n ≤ 2 ^ 53) (hf : -1074 ≤ f) :
    (m * 2 ^ e : ℚ) = n * 2 ^ f :=
  le_antisymm (h.le_of_le hn hf le_rfl) (h.ge_of_ge hn hf le_rfl)

/-- No magnitude rounds to a second, greater double: the middle between two neighbours rounds to
    the even one. -/
theorem not_below (h : Rounds y m e) (h' : Rounds y n f) : ¬(m * 2 ^ e : ℚ) < n * 2 ^ f := by
  intro hlt
  have hunit : (0 : ℚ) < 2 ^ e := by positivity
  have habove := h.contains.le_high
  have hnext : (n * 2 ^ f : ℚ) ≤ (m + 1 : ℕ) * 2 ^ e :=
    h'.le_of_le h.lt h.least (habove.trans (by push_cast; linarith))
  rcases (h.toCanonical.lt_iff h'.toCanonical).1 hlt with hef | ⟨rfl, hmn⟩
  · -- the greatest mantissa of a unit, which is odd, and the least one of the next
    have hleast := h.least
    have hn : 2 ^ 52 ≤ n := h'.full.resolve_right (by omega)
    have hdouble : 2 * (2 : ℚ) ^ e ≤ 2 ^ f := by
      rw [mul_comm, ← zpow_add_one₀ two_ne_zero]
      exact zpow_le_zpow_right₀ one_le_two (by omega)
    have hn' : (2 : ℚ) ^ 52 ≤ n := by exact_mod_cast hn
    have hm : (2 ^ 53 : ℚ) * 2 ^ e ≤ (m + 1 : ℕ) * 2 ^ e :=
      calc (2 ^ 53 : ℚ) * 2 ^ e = 2 ^ 52 * (2 * 2 ^ e) := by ring
        _ ≤ n * 2 ^ f := mul_le_mul hn' hdouble (by positivity) n.cast_nonneg
        _ ≤ (m + 1 : ℕ) * 2 ^ e := hnext
    have hlast : 2 ^ 53 ≤ m + 1 := by exact_mod_cast le_of_mul_le_mul_right hm hunit
    have hm' : (m : ℚ) + 1 ≤ 2 ^ 53 := by exact_mod_cast h.lt
    have hbelow := h'.contains.quarter_below hn (by omega)
    have hstrict := h.contains.lt_high (by have := h.lt; omega)
    linarith [mul_le_mul_of_nonneg_right hm' hunit.le]
  · have hn : n = m + 1 := by
      have hle : n ≤ m + 1 := by exact_mod_cast le_of_mul_le_mul_right hnext hunit
      omega
    subst hn
    have hmiddle : ((m + 1 : ℕ) - 1 / 2 : ℚ) = m + 1 / 2 := by push_cast; ring
    rcases Nat.mod_two_eq_zero_or_one m with heven | hodd
    · have hbelow := h'.contains.half_lt (by omega)
      rw [hmiddle] at hbelow
      exact absurd habove (not_le.2 hbelow)
    · have hbelow := h'.contains.half_below
      rw [hmiddle] at hbelow
      exact absurd hbelow (not_le.2 (h.contains.lt_high hodd))

/-- A magnitude rounds to one double. -/
theorem unique (h : Rounds y m e) (h' : Rounds y n f) : m = n ∧ e = f := by
  have hlt := (h.toCanonical.lt_iff h'.toCanonical).not.1 (h.not_below h')
  have hgt := (h'.toCanonical.lt_iff h.toCanonical).not.1 (h'.not_below h)
  omega

/-- Rounding moves a magnitude by half a unit at most. -/
theorem abs_sub_le (h : Rounds v m e) : |m * 2 ^ e - v| ≤ 2 ^ e / 2 := by
  rw [abs_le]
  constructor <;> linarith [h.contains.half_below, h.contains.le_high]

/-- A multiple of a double is rounded by the same multiple of its unit at most. -/
theorem abs_sub_le_mul {w : ℚ} (hc : Canonical m e) (hw : 1 ≤ w)
    (h : Rounds (m * 2 ^ e * w) n f) : |n * 2 ^ f - m * 2 ^ e * w| ≤ 2 ^ e * w := by
  refine h.abs_sub_le.trans ?_
  have hunit : (0 : ℚ) < 2 ^ e := by positivity
  have hm : (m : ℚ) + 1 ≤ 2 ^ 53 := by exact_mod_cast hc.lt
  rcases lt_or_eq_of_le h.least with hf | hf
  · have hquarter := h.contains.quarter_below (h.full.resolve_right hf.ne') hf
    have hbound : m * 2 ^ e * w ≤ (2 ^ 53 - 1) * (2 ^ e * w) := by
      rw [mul_assoc]
      exact mul_le_mul_of_nonneg_right (by linarith) (by positivity)
    linarith [mul_pos hunit (by linarith : 0 < w)]
  · have hle : (2 : ℚ) ^ f ≤ 2 ^ e := zpow_le_zpow_right₀ one_le_two (hf ▸ hc.least)
    have hmul : (2 : ℚ) ^ e ≤ 2 ^ e * w := le_mul_of_one_le_right hunit.le hw
    linarith

/-- A magnitude is rounded to a finite double if it is not too large. -/
theorem le_iff_lt (h : Rounds v m e) : e ≤ 971 ↔ v < overflow := by
  have hunit : (0 : ℚ) < 2 ^ e := by positivity
  constructor
  · intro he
    -- the greatest mantissa is odd, so the middle above it is not rounded to it
    have hlt : v < (2 ^ 53 - 1 / 2) * 2 ^ e := by
      rcases (Nat.le_sub_one_of_lt h.lt).eq_or_lt with hm | hm
      · have hlast : (m : ℚ) + 1 / 2 = 2 ^ 53 - 1 / 2 := by rw [hm]; norm_num
        exact hlast ▸ h.contains.lt_high (by rw [hm]; rfl)
      · have hm' : (m : ℚ) + 2 ≤ 2 ^ 53 := by exact_mod_cast (by omega : m + 2 ≤ 2 ^ 53)
        exact h.contains.le_high.trans_lt (mul_lt_mul_of_pos_right (by linarith) hunit)
    calc v < (2 ^ 53 - 1 / 2) * 2 ^ e := hlt
      _ ≤ (2 ^ 53 - 1 / 2) * 2 ^ (971 : ℤ) :=
        mul_le_mul_of_nonneg_left (zpow_le_zpow_right₀ one_le_two he) (by norm_num)
      _ = overflow := by rw [overflow, zpow_ofNat]
  · intro hv
    by_contra he
    have hm : 2 ^ 52 ≤ m := h.full.resolve_right (by omega)
    have hlarge : overflow ≤ v :=
      calc overflow = (2 ^ 52 - 1 / 4) * 2 ^ (972 : ℤ) := by
            rw [overflow, zpow_ofNat, pow_succ (2 : ℚ) 971]
            generalize (2 : ℚ) ^ 971 = p
            ring
        _ ≤ (2 ^ 52 - 1 / 4) * 2 ^ e :=
          mul_le_mul_of_nonneg_left (zpow_le_zpow_right₀ one_le_two (by omega)) (by norm_num)
        _ ≤ v := h.contains.quarter_below hm (by omega)
    exact absurd hv (not_lt.2 hlarge)

end Rounds

end Binary64

end StyleScript
