-- SUMMARY: Which doubles count as whole numbers: differences, order and tolerance in rationals.
import StyleScript.Proofs.Comparisons
import StyleScript.Proofs.Failures
import StyleScript.Proofs.FormattedNumbers

/-!
# Whole doubles

A number counts as whole when it is closer than the tolerance to the whole number that it is rounded
to. The difference is computed on doubles, and so is the comparison with the tolerance, which is
not a tenth to the tenth itself but the double next to it. Neither matters: from one half on a
double and its rounding are multiples of `2 ^ -53`, so that their difference is exact, and no such
multiple lies between the tolerance and what it stands for.

Main statement: the whole number other than zero that a number stands for is the one that is closer
to it than a tenth to the tenth.
-/

namespace StyleScript

namespace Binary64

open Float.Model

variable {x y : Float} {b c : Bool} {m n : ℕ} {e f : ℤ} {v w : ℚ}

/-! ## Magnitudes -/

/-- The magnitude without its sign. -/
theorem Stands.abs (h : Stands x b v) : Stands x.abs false v := by
  obtain ⟨m, e, hparts, rfl⟩ := h
  have habs : x.abs = Float.ofModel (pack x.toModel.unpack.abs) := rfl
  rcases Nat.eq_zero_or_pos m with rfl | hm
  · rw [habs, unpack_of_parts_zero hparts]
    exact ⟨0, 0, by cases b <;> rfl, by simp⟩
  · obtain ⟨hc, he⟩ := canonical_of_parts hparts hm
    have hfinite : (UnpackedFloat.finite (signOf b) m e hm).abs = finiteOrZero .positive m e := by
      rw [finiteOrZero, dif_neg hm.ne']
      rfl
    rw [habs, unpack_of_parts hparts hm, hfinite]
    exact ⟨m, e, by rw [parts_finiteOrZero hc, Parts.rounded_of_pos hm he]; rfl, rfl⟩

/-- Doubles without a sign are in the order of what they stand for. -/
theorem Stands.lt_iff (hx : Stands x false v) (hy : Stands y false w) : x < y ↔ v < w := by
  obtain ⟨m, e, hx, rfl⟩ := hx
  obtain ⟨n, f, hy, rfl⟩ := hy
  rw [Binary64.lt_iff]
  rcases Nat.eq_zero_or_pos m with rfl | hm <;> rcases Nat.eq_zero_or_pos n with rfl | hn
  · rw [unpack_of_parts_zero hx, unpack_of_parts_zero hy]
    simp [UnpackedFloat.compare]
  · have hn' : (0 : ℚ) < n * 2 ^ f := mul_pos (by exact_mod_cast hn) (by positivity)
    rw [unpack_of_parts_zero hx, unpack_of_parts hy hn]
    exact iff_of_true rfl (by simpa using hn')
  · have hm' : (0 : ℚ) < m * 2 ^ e := mul_pos (by exact_mod_cast hm) (by positivity)
    rw [unpack_of_parts hx hm, unpack_of_parts_zero hy]
    exact iff_of_false nofun (by simpa using hm'.le)
  · rw [unpack_of_parts hx hm, unpack_of_parts hy hn,
      (canonical_of_parts hx hm).1.lt_iff (canonical_of_parts hy hn).1]
    change some ((compare e f).then (compare m n)) = some .lt ↔ _
    rw [Option.some.injEq, Ordering.then_eq_lt, Int.compare_eq_lt, Int.compare_eq_eq,
      Nat.compare_eq_lt]

/-- What is above zero has no minus. -/
theorem Stands.pos_iff (h : Stands x b v) (hv : 0 < v) : 0 < x ↔ b = false := by
  obtain ⟨m, e, hparts, rfl, hm⟩ := h.exists_pos hv
  rw [Binary64.lt_iff, unpack_zero, unpack_of_parts hparts hm]
  cases b
  · exact iff_of_true rfl rfl
  · exact iff_of_false nofun nofun

/-! ## Differences -/

/-- A whole number of units is packed as it is assembled. -/
theorem assemble_normalize (d g : ℤ) :
    Float.ofModel (pack (UnpackedFloat.normalize .binary64 d g .positive)) =
      assemble (decide (d < 0)) d.natAbs g := by
  rw [assemble, UnpackedFloat.normalize]
  rcases lt_trichotomy d 0 with hd | rfl | hd
  · rw [Int.compare_eq_lt.2 hd, decide_eq_true hd, if_neg (by omega)]
    have hnat : (-d).toNat = d.natAbs := by omega
    rw [hnat]
    rfl
  · rfl
  · rw [Int.compare_eq_gt.2 hd, decide_eq_false hd.not_gt, if_neg (by omega)]
    have hnat : d.toNat = d.natAbs := by omega
    rw [hnat]
    rfl

/-- The difference of two doubles of one sign, as a mantissa with the lesser exponent. -/
theorem exists_sub (hx : parts x = .finite b m e) (hy : parts y = .finite b n f) (hm : 0 < m)
    (hn : 0 < n) : ∃ (c : Bool) (k : ℕ) (g : ℤ), x - y = assemble c k g ∧
      |(m * 2 ^ e : ℚ) - n * 2 ^ f| = k * 2 ^ g := by
  obtain ⟨i, hi⟩ : ∃ i : ℕ, e = min e f + i := ⟨(e - min e f).toNat, by omega⟩
  obtain ⟨j, hj⟩ : ∃ j : ℕ, f = min e f + j := ⟨(f - min e f).toNat, by omega⟩
  have hsub : x - y = Float.ofModel (pack (UnpackedFloat.sub .binary64 x.toModel.unpack
      y.toModel.unpack)) := rfl
  rw [unpack_of_parts hx hm, unpack_of_parts hy hn] at hsub
  have hunits : (e - min e f).toNat = i ∧ (f - min e f).toNat = j := by omega
  simp only [UnpackedFloat.sub, UnpackedFloat.decreaseExponent, hunits.1, hunits.2,
    Nat.shiftLeft_eq] at hsub
  rw [assemble_normalize] at hsub
  generalize min e f = g at hi hj hsub
  refine ⟨_, _, _, hsub, ?_⟩
  have hvalue : (m * 2 ^ e : ℚ) - n * 2 ^ f = (m * 2 ^ i - n * 2 ^ j : ℤ) * 2 ^ g := by
    rw [hi, hj, zpow_add₀ two_ne_zero, zpow_add₀ two_ne_zero, zpow_natCast, zpow_natCast]
    push_cast
    ring
  rw [hvalue, abs_mul, abs_of_pos (by positivity : (0 : ℚ) < 2 ^ g), ← Int.cast_abs,
    Int.abs_eq_natAbs, Int.cast_natCast]
  congr 2
  cases b with
  | false => rfl
  | true =>
    change _ = (-((m * 2 ^ i : ℕ) : ℤ) - -((n * 2 ^ j : ℕ) : ℤ)).natAbs
    rw [neg_sub_neg, ← Int.natAbs_neg, neg_sub]
    push_cast
    rfl

/-- The difference of two doubles of one sign is exact if a double can stand for it. -/
theorem Stands.abs_sub (hx : Stands x b v) (hy : Stands y b w) (hv : 0 < v) (hw : 0 < w)
    (hn : n ≤ 2 ^ 53) (hf : -1074 ≤ f) (hvalue : |v - w| = n * 2 ^ f) (hlt : |v - w| < overflow) :
    Stands (x - y).abs false |v - w| := by
  obtain ⟨m, e, hpartsx, rfl, hm⟩ := hx.exists_pos hv
  obtain ⟨k, g, hpartsy, rfl, hk⟩ := hy.exists_pos hw
  obtain ⟨c, d, h, hsub, hdifference⟩ := exists_sub hpartsx hpartsy hm hk
  rw [hdifference] at hvalue hlt ⊢
  rw [hsub]
  rcases Nat.eq_zero_or_pos d with rfl | hd
  · rw [Nat.cast_zero, zero_mul]
    exact (stands_assemble_zero c h).abs
  · exact (stands_assemble c hd hn hf hvalue hlt).abs

/-! ## The tolerance -/

theorem stands_tolerance : Stands tolerance false (7737125245533627 * 2 ^ (-86 : ℤ)) :=
  ⟨7737125245533627, -86, by decide +kernel, by norm_num⟩

/-- A bound between two neighbours among the multiples of `2 ^ -53` tells them apart. -/
theorem lt_iff_le_of_between {z k : ℕ} {bound : ℚ} (hlow : k * 2 ^ (-53 : ℤ) < bound)
    (hhigh : bound ≤ (k + 1) * 2 ^ (-53 : ℤ)) : (z * 2 ^ (-53 : ℤ) : ℚ) < bound ↔ z ≤ k := by
  have hunit : (0 : ℚ) < 2 ^ (-53 : ℤ) := by positivity
  constructor
  · intro h
    have hlt : (z : ℚ) < k + 1 := lt_of_mul_lt_mul_right (h.trans_le hhigh) hunit.le
    exact Nat.lt_succ_iff.1 (by exact_mod_cast hlt)
  · intro h
    exact (mul_le_mul_of_nonneg_right (by exact_mod_cast h) hunit.le).trans_lt hlow

/-- No multiple of `2 ^ -53` lies between the tolerance and a tenth to the tenth. -/
theorem lt_tolerance_iff {z : ℕ} :
    (z * 2 ^ (-53 : ℤ) : ℚ) < 7737125245533627 * 2 ^ (-86 : ℤ) ↔
      (z * 2 ^ (-53 : ℤ) : ℚ) < 1 / 10 ^ 10 :=
  (lt_iff_le_of_between (k := 900719) (by norm_num) (by norm_num)).trans
    (lt_iff_le_of_between (by norm_num) (by norm_num)).symm

/-- From one half on a double is a multiple of `2 ^ -53`. -/
theorem Stands.exists_multiple (h : Stands x b v) (hv : 1 / 2 ≤ v) :
    ∃ z : ℕ, v = z * 2 ^ (-53 : ℤ) := by
  obtain ⟨m, e, hparts, rfl, hm⟩ := h.exists_pos (by linarith)
  have he : -53 ≤ e := by
    by_contra hlt
    have hsmall : (m * 2 ^ e : ℚ) < 1 / 2 :=
      calc (m * 2 ^ e : ℚ) < 2 ^ 53 * 2 ^ e :=
            mul_lt_mul_of_pos_right (by exact_mod_cast (canonical_of_parts hparts hm).1.lt)
              (by positivity)
        _ ≤ 2 ^ 53 * 2 ^ (-54 : ℤ) :=
            mul_le_mul_of_nonneg_left (zpow_le_zpow_right₀ one_le_two (by omega)) (by positivity)
        _ = 1 / 2 := by norm_num
    linarith
  obtain ⟨k, rfl⟩ : ∃ k : ℕ, e = k + -53 := ⟨(e + 53).toNat, by omega⟩
  refine ⟨m * 2 ^ k, ?_⟩
  rw [zpow_add₀ two_ne_zero, zpow_natCast]
  push_cast
  ring

end Binary64

namespace Number

open Binary64

variable {n : Number} {b : Bool} {v : ℚ} {k : ℤ}

/-- A number is near a whole number when it is finite and closer to it than a tenth to the
    tenth. -/
def IsNear (n : Number) (k : ℤ) : Prop :=
  isFinite n.value = true ∧ |Binary64.value n.value - k| < 1 / 10 ^ 10

/-- From one half on, the difference to the rounded number is compared without an error. -/
theorem isInteger_iff {r : ℕ} (hx : Stands n.value b v)
    (hround : Stands (roundHalfAway n.value) b r) (hr : 0 < r) (hnear : |r - v| ≤ 1 / 2) :
    n.isInteger = true ↔ |v - r| < 1 / 10 ^ 10 := by
  have hr' : (1 : ℚ) ≤ r := by exact_mod_cast hr
  have hv : 1 / 2 ≤ v := by linarith [(abs_le.1 hnear).2]
  obtain ⟨y, hy⟩ := hx.exists_multiple hv
  obtain ⟨z, hz⟩ : ∃ z : ℕ, |v - r| = z * 2 ^ (-53 : ℤ) := by
    have hunit : (2 : ℚ) ^ 53 * 2 ^ (-53 : ℤ) = 1 := by norm_num
    have hwhole : (r : ℚ) = (r * 2 ^ 53 : ℕ) * 2 ^ (-53 : ℤ) := by
      rw [Nat.cast_mul, Nat.cast_pow, Nat.cast_ofNat, mul_assoc, hunit, mul_one]
    refine ⟨((y : ℤ) - (r * 2 ^ 53 : ℕ)).natAbs, ?_⟩
    rw [hwhole, hy, ← sub_mul, abs_mul, abs_of_pos (by positivity : (0 : ℚ) < 2 ^ (-53 : ℤ))]
    congr 1
    rw [Nat.cast_natAbs]
    push_cast
    rfl
  have hsmall : |v - r| ≤ 1 / 2 := abs_sub_comm (r : ℚ) v ▸ hnear
  have hbits : z ≤ 2 ^ 53 := by
    rw [hz] at hsmall
    have hle : (z * 2 ^ (-53 : ℤ) : ℚ) ≤ 2 ^ 53 * 2 ^ (-53 : ℤ) := hsmall.trans (by norm_num)
    exact_mod_cast le_of_mul_le_mul_right hle (by positivity)
  have hdifference := hx.abs_sub hround (by linarith) (by linarith) hbits (by decide) hz
    (hsmall.trans_lt (by linarith [two_pow_lt_overflow]))
  have hinteger : n.isInteger = true ↔
      (n.value - roundHalfAway n.value).abs < tolerance := decide_eq_true_iff
  rw [hinteger, hdifference.lt_iff stands_tolerance, hz, lt_tolerance_iff]

/-- What a finite number is rounded to, once as a double and once as an integer. -/
theorem exists_rounding (h : isFinite n.value = true) :
    ∃ (b : Bool) (v : ℚ) (r : ℕ), Stands n.value b v ∧ Binary64.value n.value = Decimal.signed b v ∧
      nearestInt? n.value = some (if b then -(r : ℤ) else r) ∧
      Stands (roundHalfAway n.value) b r ∧ |r - v| ≤ 1 / 2 := by
  obtain ⟨b, m, e, hparts⟩ := exists_parts h
  have hx : Stands n.value b (m * 2 ^ e) := ⟨m, e, hparts, rfl⟩
  obtain ⟨r, hint, hround, hnear, -⟩ := exists_nearestInt? hx
  exact ⟨b, _, r, hx, by rw [Binary64.value, hparts], hint, hround, hnear⟩

/-- What is not finite is no whole number. -/
theorem isInteger_of_not_finite (h : isFinite n.value = false) : n.isInteger = false :=
  not_near_of_not_finite h

/-- A number that is half a unit at most from one whole number is near no other. -/
theorem eq_of_abs_sub_lt {q : ℚ} {i k : ℤ} (hi : |q - i| ≤ 1 / 2) (hk : |q - k| < 1 / 10 ^ 10) :
    i = k := by
  have hlt : |((i - k : ℤ) : ℚ)| < 1 := by
    push_cast
    calc |(i : ℚ) - k| ≤ |i - q| + |q - k| := abs_sub_le ..
      _ < 1 / 2 + 1 / 2 := by
        rw [abs_sub_comm]
        exact add_lt_add_of_le_of_lt hi (hk.trans (by norm_num))
      _ = 1 := by norm_num
  have hzero : |i - k| < 1 := by exact_mod_cast hlt
  exact sub_eq_zero.1 (Int.abs_lt_one_iff.1 hzero)

/-- A number stands for the whole number other than zero that it is near to. -/
theorem position_eq_iff (hk : k ≠ 0) : n.position = k ↔ n.IsNear k := by
  unfold position IsNear
  cases hfinite : isFinite n.value with
  | false =>
    rw [isInteger_of_not_finite hfinite]
    exact iff_of_false hk.symm fun h => Bool.false_ne_true h.1
  | true =>
    obtain ⟨b, v, r, hx, hvalue, hint, hround, hnear⟩ := exists_rounding hfinite
    obtain ⟨i, hi⟩ : ∃ i : ℤ, i = if b then -(r : ℤ) else r := ⟨_, rfl⟩
    have hsigned : (i : ℚ) = Decimal.signed b r := by
      rw [hi, Decimal.signed]
      split <;> push_cast <;> rfl
    rw [hvalue, and_iff_right rfl, hint, Option.getD_some, ← hi]
    have hnear' : |Decimal.signed b v - i| ≤ 1 / 2 := by
      rw [hsigned, Decimal.abs_signed_sub, abs_sub_comm]
      exact hnear
    rcases Nat.eq_zero_or_pos r with rfl | hr
    · have hzero : i = 0 := by rw [hi]; split <;> rfl
      rw [hzero, ite_self]
      exact iff_of_false hk.symm fun h => hk (eq_of_abs_sub_lt hnear' h ▸ hzero)
    · have hinteger := isInteger_iff hx hround hr hnear
      rw [← Decimal.abs_signed_sub b, ← hsigned] at hinteger
      constructor
      · intro h
        by_cases hwhole : n.isInteger = true
        · rw [if_pos hwhole] at h
          exact h ▸ hinteger.1 hwhole
        · rw [if_neg hwhole] at h
          exact absurd h.symm hk
      · intro h
        have hik := eq_of_abs_sub_lt hnear' h
        rw [if_pos (hinteger.2 (hik ▸ h)), hik]

example : (unitless 2.00000000005).position = 2 ∧ (unitless 2.0000000002).position = 0 := by
  decide +kernel

end Number

end StyleScript
