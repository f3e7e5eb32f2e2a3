-- SUMMARY: Products and quotients of doubles are the doubles nearest to them.
import Mathlib
import StyleScript.Proofs.RoundedDoubles

/-!
# Arithmetic of doubles

Products and quotients are computed on mantissas and exponents, with enough bits for the rounding
that follows, and then packed. What is packed is unpacked again as it was, unless it is too large
for a double and therefore infinite.

Main statement: the product and the quotient of two doubles are those that the exact ones are
rounded to, and below `2 ^ 52` a double is rounded to a whole number nearest to it.
-/

namespace StyleScript.Binary64

open Float.Model Float.Model.UnpackedFloat

variable {m n k : ℕ} {e f g : ℤ} {s : Sign}

/-! ## Packing -/

/-- The parts of a rounded magnitude with a sign. What is too large is infinite. -/
def Parts.rounded (negative : Bool) (m : ℕ) (e : ℤ) : Parts :=
  if m = 0 then .finite negative 0 0
  else if e ≤ 971 then .finite negative m e
  else .infinite negative

theorem unpack_packComponents (s : Sign) {exponent : BitVec 11} (mantissa : BitVec 52)
    (hlast : exponent ≠ -1#_) :
    UnpackedFloat.unpack .binary64 (packComponents .binary64 s exponent mantissa) =
      if exponent = 0#_ then finiteOrZero s mantissa.toNat (-1074)
      else finiteOrZero s (1#1 ++ mantissa).toNat (exponent.toNat - 1075) := by
  have hbias : Format.binary64.exponentBias = 1023 := rfl
  simp only [UnpackedFloat.unpack, unpackSign_packComponents, unpackExponent_packComponents,
    unpackMantissa_packComponents, Sign.ofBitVec_toBitVec]
  rw [if_neg hlast]
  by_cases hfirst : exponent = 0#_
  · rw [if_pos hfirst, if_pos hfirst, finiteOrZero]
    by_cases hzero : mantissa = 0#_
    · rw [dif_pos hzero, dif_pos (by rw [hzero]; rfl)]
    · have hpos : mantissa.toNat ≠ 0 := fun h => hzero (BitVec.eq_of_toNat_eq h)
      rw [dif_neg hzero, dif_neg hpos, hfirst, hbias]
      rfl
  · have hfull : (1#1 ++ mantissa).toNat ≠ 0 := by
      rw [BitVec.toNat_append]
      exact (Nat.lt_of_lt_of_le (by decide) Nat.left_le_or).ne'
    rw [if_neg hfirst, if_neg hfirst, finiteOrZero, dif_neg hfull, hbias]
    rfl

/-- A canonical mantissa is packed whole, but for a first bit that all mantissas have. -/
theorem pack_finiteOrZero (hc : Canonical m e) (hpos : 0 < m) (s : Sign) :
    UnpackedFloat.pack .binary64 (finiteOrZero s m e) =
      if e ≤ 971 then
        packComponents .binary64 s (if 2 ^ 52 ≤ m then BitVec.ofNat 11 (e + 1075).toNat else 0#11)
          (BitVec.ofNat 52 m)
      else packedInfinity .binary64 s := by
  have hbiased : e + Format.binary64.exponentBias + (52 : ℕ) = e + 1075 := by
    rw [show Format.binary64.exponentBias = 1023 from rfl]
    omega
  have hfull : m.log2 + 1 = Format.binary64.mantissaBits ↔ 2 ^ 52 ≤ m := by
    rw [show Format.binary64.mantissaBits = 52 + 1 from rfl, Nat.add_right_cancel_iff,
      Nat.log2_eq_iff hpos.ne', and_iff_left hc.lt]
  have hleast := hc.least
  simp only [finiteOrZero, dif_neg hpos.ne', UnpackedFloat.pack, hbiased, hfull]
  by_cases hrange : e ≤ 971
  · rw [if_neg (by omega), if_pos hrange]
    split <;> rfl
  · rw [if_pos (by omega), if_neg hrange]

/-- What is unpacked is what was packed. -/
theorem parts_finiteOrZero (hc : Canonical m e) (s : Sign) :
    parts (Float.ofModel (pack (finiteOrZero s m e))) = .rounded (negativeSign s) m e := by
  rcases Nat.eq_zero_or_pos m with rfl | hpos
  · rw [finiteOrZero, dif_pos rfl]
    cases s <;> rfl
  have hunpack : (Float.ofModel (pack (finiteOrZero s m e))).toModel.unpack =
      UnpackedFloat.unpack .binary64 (UnpackedFloat.pack .binary64 (finiteOrZero s m e)) :=
    rfl
  have hfinite : finiteOrZero s m e = .finite s m e hpos := dif_neg hpos.ne'
  have hlt := hc.lt
  have hleast := hc.least
  rw [parts, hunpack, pack_finiteOrZero hc hpos, Parts.rounded, if_neg hpos.ne']
  by_cases hrange : e ≤ 971
  swap
  · rw [if_neg hrange, if_neg hrange]
    cases s <;> rfl
  rw [if_pos hrange, if_pos hrange]
  by_cases hfull : 2 ^ 52 ≤ m
  · have hmantissa : (1#1 ++ BitVec.ofNat 52 m).toNat = m := by
      rw [BitVec.toNat_append, ← Nat.shiftLeft_add_eq_or_of_lt (BitVec.isLt _), BitVec.toNat_ofNat,
        BitVec.toNat_ofNat, Nat.shiftLeft_eq]
      omega
    have hexponent : (BitVec.ofNat 11 (e + 1075).toNat).toNat = (e + 1075).toNat := by
      rw [BitVec.toNat_ofNat, Nat.mod_eq_of_lt (by omega)]
    have hlast : BitVec.ofNat 11 (e + 1075).toNat ≠ -1#_ := by
      intro h
      have hall : (BitVec.ofNat 11 (e + 1075).toNat).toNat = 2047 := by rw [h]; rfl
      omega
    have hfirst : BitVec.ofNat 11 (e + 1075).toNat ≠ 0#_ := by
      intro h
      have hnone : (BitVec.ofNat 11 (e + 1075).toNat).toNat = 0 := by rw [h]; rfl
      omega
    have he : ((e + 1075).toNat : ℤ) - 1075 = e := by omega
    rw [if_pos hfull, unpack_packComponents s _ hlast, if_neg hfirst, hmantissa, hexponent, he,
      hfinite]
  · obtain rfl := hc.full.resolve_left hfull
    have hmantissa : (BitVec.ofNat 52 m).toNat = m := by
      rw [BitVec.toNat_ofNat, Nat.mod_eq_of_lt (by omega)]
    rw [if_neg hfull, unpack_packComponents s _ (by decide), if_pos rfl, hmantissa, hfinite]

/-! ## Taking apart -/

variable {x y : Float} {b c : Bool} {v w : ℚ}

theorem unpack_of_parts (h : parts x = .finite b m e) (hpos : 0 < m) :
    x.toModel.unpack = .finite (signOf b) m e hpos := by
  unfold parts at h
  split at h
  · cases h
  · cases h
  · cases h
    exact absurd hpos (lt_irrefl 0)
  · rename_i hx
    cases h
    rw [hx, signOf_negativeSign]

theorem unpack_of_parts_zero (h : parts x = .finite b 0 e) :
    x.toModel.unpack = .zero (signOf b) := by
  unfold parts at h
  split at h
  · cases h
  · cases h
  · rename_i hx
    cases h
    rw [hx, signOf_negativeSign]
  · rename_i hpos _
    cases h
    exact absurd hpos (lt_irrefl 0)

theorem unpack_of_parts_infinite (h : parts x = .infinite b) :
    x.toModel.unpack = .infinity (signOf b) := by
  unfold parts at h
  split at h
  · cases h
  · rename_i hx
    cases h
    rw [hx, signOf_negativeSign]
  · cases h
  · cases h

theorem canonical_of_parts (h : parts x = .finite b m e) (hpos : 0 < m) :
    Canonical m e ∧ e ≤ 971 :=
  canonical_of_unpack (unpack_of_parts h hpos)

theorem Parts.rounded_of_pos (hm : 0 < m) (he : e ≤ 971) :
    Parts.rounded b m e = .finite b m e := by
  rw [Parts.rounded, if_neg hm.ne', if_pos he]

/-- A double is finite, with a sign and a magnitude. -/
def Stands (x : Float) (b : Bool) (v : ℚ) : Prop :=
  ∃ m e, parts x = .finite b m e ∧ (m * 2 ^ e : ℚ) = v

theorem Stands.exists_pos (h : Stands x b v) (hv : 0 < v) :
    ∃ m e, parts x = .finite b m e ∧ (m * 2 ^ e : ℚ) = v ∧ 0 < m := by
  obtain ⟨m, e, hparts, rfl⟩ := h
  refine ⟨m, e, hparts, rfl, Nat.pos_of_ne_zero ?_⟩
  rintro rfl
  simp at hv

/-- The magnitude is zero when the mantissa is. -/
theorem Stands.exists_zero (h : Stands x b 0) : ∃ e, parts x = .finite b 0 e := by
  obtain ⟨m, e, hparts, hzero⟩ := h
  have hm : m = 0 := by
    rcases mul_eq_zero.1 hzero with hm | hunit
    · exact_mod_cast hm
    · exact absurd hunit (zpow_ne_zero e two_ne_zero)
  exact ⟨e, hm ▸ hparts⟩

/-! ## Products and quotients -/

theorem describes_exact (m : ℕ) : Describes (.ofMantissaAndAccuracy m .exact) m := by
  refine ⟨le_rfl, lt_add_one _, ?_, ?_⟩ <;> simp [ExtendedMantissa.ofMantissaAndAccuracy]

theorem describes_fraction {r d : ℕ} (q : ℕ) (hlt : r < d) :
    Describes (.ofMantissaAndAccuracy q (accuracyOfFraction r d)) (q + r / d) := by
  rcases Nat.eq_zero_or_pos r with rfl | hpos
  · simpa [accuracyOfFraction] using describes_exact q
  have hd : (0 : ℚ) < d := by exact_mod_cast hpos.trans hlt
  have habove : (0 : ℚ) < r / d := div_pos (by exact_mod_cast hpos) hd
  have hbelow : (r : ℚ) / d < 1 := (div_lt_one hd).2 (by exact_mod_cast hlt)
  have hfraction : ((q : ℚ) + r / d ≠ q ∧ (q : ℚ) + r / d ≠ q + 1 / 2) ↔ 2 * r ≠ d := by
    rw [and_iff_right (by linarith), Ne, add_right_inj, div_eq_div_iff hd.ne' two_ne_zero, one_mul,
      mul_comm, not_iff_not]
    exact_mod_cast Iff.rfl
  have hhalf : (q : ℚ) + 1 / 2 ≤ q + r / d ↔ d ≤ 2 * r := by
    rw [add_le_add_iff_left, div_le_div_iff₀ two_pos hd, one_mul, mul_comm]
    exact_mod_cast Iff.rfl
  have hparts : ExtendedMantissa.ofMantissaAndAccuracy q (accuracyOfFraction r d) =
      ⟨q, decide (d ≤ 2 * r), decide (2 * r ≠ d)⟩ := by
    rw [accuracyOfFraction, if_neg hpos.ne']
    cases hcompare : compare (2 * r) d with
    | lt =>
      have h := Nat.compare_eq_lt.1 hcompare
      simp [ExtendedMantissa.ofMantissaAndAccuracy, h, h.ne]
    | eq => simp [ExtendedMantissa.ofMantissaAndAccuracy, Nat.compare_eq_eq.1 hcompare]
    | gt =>
      have h := Nat.compare_eq_gt.1 hcompare
      simp [ExtendedMantissa.ofMantissaAndAccuracy, h.le, h.ne']
  rw [hparts]
  exact ⟨le_add_of_nonneg_right habove.le, add_lt_add_right hbelow _,
    by rw [decide_eq_true_iff, hhalf], by rw [decide_eq_true_iff, hfraction]⟩

theorem mul_eq (x y : Float) :
    x * y = Float.ofModel (pack (UnpackedFloat.mul .binary64 x.toModel.unpack y.toModel.unpack)) :=
  rfl

theorem div_eq (x y : Float) :
    x / y = Float.ofModel (pack (UnpackedFloat.div .binary64 x.toModel.unpack y.toModel.unpack)) :=
  rfl

/-- A product has the bits that are kept. -/
theorem product_le_target (hx : Canonical m e) (hy : Canonical n f) (hm : 0 < m) (hn : 0 < n) :
    e + f ≤ max ((m * n).log2 + 1 + (e + f) - 53) (-1074) := by
  have hbits (h : 2 ^ 52 ≤ m ∨ 2 ^ 52 ≤ n) : 52 ≤ (m * n).log2 := by
    refine (Nat.le_log2 (Nat.mul_pos hm hn).ne').2 ?_
    rcases h with h | h
    · exact h.trans (Nat.le_mul_of_pos_right m hn)
    · exact h.trans (Nat.le_mul_of_pos_left n hm)
  rcases hx.full with h | hbottom
  · have := hbits (.inl h)
    omega
  rcases hy.full with h | hbottom'
  · have := hbits (.inr h)
    omega
  · omega

/-- The product of two doubles is rounded. -/
theorem Stands.mul (hx : Stands x b v) (hy : Stands y c w) (hv : 0 < v) (hw : 0 < w) :
    ∃ k g, Rounds (v * w) k g ∧ parts (x * y) = .rounded (b ^^ c) k g := by
  obtain ⟨m, e, hpartsx, rfl, hm⟩ := hx.exists_pos hv
  obtain ⟨n, f, hpartsy, rfl, hn⟩ := hy.exists_pos hw
  have hsign : negativeSign (signOf b * signOf c) = (b ^^ c) := by cases b <;> cases c <;> rfl
  have hmul : x * y = Float.ofModel (pack (roundWithAccuracy .binary64 (signOf b * signOf c)
      (m * n) (e + f) .exact)) := by
    rw [mul_eq, unpack_of_parts hpartsx hm, unpack_of_parts hpartsy hn]
    rfl
  obtain ⟨k, g, hrounds, hround⟩ := rounds_roundWithAccuracy (describes_exact (m * n))
    (product_le_target (canonical_of_parts hpartsx hm).1 (canonical_of_parts hpartsy hn).1 hm hn)
    (signOf b * signOf c)
  refine ⟨k, g, ?_, ?_⟩
  · have hvalue : (m * 2 ^ e * (n * 2 ^ f) : ℚ) = (m * n : ℕ) * 2 ^ (e + f) := by
      rw [zpow_add₀ two_ne_zero, Nat.cast_mul]
      ring
    rwa [hvalue]
  · rw [hmul, hround, parts_finiteOrZero hrounds.toCanonical, hsign]

/-- A dividend that is shifted so far gives a quotient with the bits that are kept. -/
theorem quotient_le_target {shift : ℕ} {target : ℤ} (hm : 0 < m) (hn : 0 < n)
    (h : 53 + n.log2 ≤ m.log2 + shift ∨ target ≤ -1074) :
    target ≤ max ((m * 2 ^ shift / n).log2 + 1 + target - 53) (-1074) := by
  rcases h with hshift | hbottom
  swap
  · omega
  have hbits : 2 ^ 52 ≤ m * 2 ^ shift / n := by
    rw [Nat.le_div_iff_mul_le hn]
    calc 2 ^ 52 * n ≤ 2 ^ 52 * 2 ^ (n.log2 + 1) := Nat.mul_le_mul_left _ Nat.lt_log2_self.le
      _ = 2 ^ (52 + (n.log2 + 1)) := (Nat.pow_add ..).symm
      _ ≤ 2 ^ (m.log2 + shift) := Nat.pow_le_pow_right two_pos (by omega)
      _ = 2 ^ m.log2 * 2 ^ shift := Nat.pow_add ..
      _ ≤ m * 2 ^ shift := Nat.mul_le_mul_right _ (Nat.log2_self_le hm.ne')
  have hlog : 52 ≤ (m * 2 ^ shift / n).log2 := (Nat.le_log2 (by omega)).2 hbits
  omega

/-- A quotient with its remainder. -/
theorem cast_div_add_mod (a : ℕ) (hn : 0 < n) : ((a / n : ℕ) : ℚ) + (a % n : ℕ) / n = a / n := by
  have hn' : (n : ℚ) ≠ 0 := by exact_mod_cast hn.ne'
  have hdivision : (n : ℚ) * (a / n : ℕ) + (a % n : ℕ) = a := by exact_mod_cast Nat.div_add_mod a n
  rw [← hdivision]
  field_simp

/-- The quotient of two doubles is rounded. -/
theorem Stands.div (hx : Stands x b v) (hy : Stands y c w) (hv : 0 < v) (hw : 0 < w) :
    ∃ k g, Rounds (v / w) k g ∧ parts (x / y) = .rounded (b ^^ c) k g := by
  obtain ⟨m, e, hpartsx, rfl, hm⟩ := hx.exists_pos hv
  obtain ⟨n, f, hpartsy, rfl, hn⟩ := hy.exists_pos hw
  have hsign : negativeSign (signOf b / signOf c) = (b ^^ c) := by cases b <;> cases c <;> rfl
  obtain ⟨target, htarget⟩ : ∃ target : ℤ, min (e - f)
      (max ((m.log2 + 1 + e : ℤ) - (n.log2 + 1 + f) - 53) (-1074)) = target := ⟨_, rfl⟩
  obtain ⟨shift, hshift⟩ : ∃ shift : ℕ, e - f = target + shift :=
    ⟨(e - f - target).toNat, by omega⟩
  have hcore : divCore .binary64 m e n f =
      (m * 2 ^ shift / n, target, accuracyOfFraction (m * 2 ^ shift % n) n) := by
    have hamount : (e - f - target).toNat = shift := by omega
    have hexponent : min (e - f) (Format.binary64.targetExponent
        (totalExponent m e - totalExponent n f)) = target :=
      htarget
    simp only [divCore, hexponent, hamount, Nat.shiftLeft_eq]
  have hdiv : x / y = Float.ofModel (pack (roundWithAccuracy .binary64 (signOf b / signOf c)
      (m * 2 ^ shift / n) target (accuracyOfFraction (m * 2 ^ shift % n) n))) := by
    rw [div_eq, unpack_of_parts hpartsx hm, unpack_of_parts hpartsy hn]
    simp only [UnpackedFloat.div, hcore]
  have hle : target ≤ max ((m * 2 ^ shift / n).log2 + 1 + target - 53) (-1074) :=
    quotient_le_target hm hn (by omega)
  obtain ⟨k, g, hrounds, hround⟩ := rounds_roundWithAccuracy
    (describes_fraction (m * 2 ^ shift / n) (Nat.mod_lt (m * 2 ^ shift) hn))
    hle (signOf b / signOf c)
  refine ⟨k, g, ?_, ?_⟩
  · have hvalue : (m * 2 ^ e / (n * 2 ^ f) : ℚ) =
        ((m * 2 ^ shift / n : ℕ) + (m * 2 ^ shift % n : ℕ) / n) * 2 ^ target := by
      have hexponent : e = target + shift + f := by omega
      rw [cast_div_add_mod _ hn, hexponent, zpow_add₀ two_ne_zero, zpow_add₀ two_ne_zero,
        zpow_natCast]
      push_cast
      field_simp
    rwa [hvalue]
  · rw [hdiv, hround, parts_finiteOrZero hrounds.toCanonical, hsign]

/-- What is zero stays zero in a product with a number. -/
theorem parts_zero_mul (hx : parts x = .finite b 0 e) (hy : Stands y c w) (hw : 0 < w) :
    parts (x * y) = .finite (b ^^ c) 0 0 := by
  obtain ⟨n, f, hy, -, hn⟩ := hy.exists_pos hw
  rw [mul_eq, unpack_of_parts_zero hx, unpack_of_parts hy hn]
  change parts (Float.ofModel (pack (.zero (signOf b * signOf c)))) = _
  cases b <;> cases c <;> rfl

theorem parts_zero_div (hx : parts x = .finite b 0 e) (hy : Stands y c w) (hw : 0 < w) :
    parts (x / y) = .finite (b ^^ c) 0 0 := by
  obtain ⟨n, f, hy, -, hn⟩ := hy.exists_pos hw
  rw [div_eq, unpack_of_parts_zero hx, unpack_of_parts hy hn]
  change parts (Float.ofModel (pack (.zero (signOf b / signOf c)))) = _
  cases b <;> cases c <;> rfl

theorem parts_infinite_div (hx : parts x = .infinite b) (hy : Stands y c w) (hw : 0 < w) :
    parts (x / y) = .infinite (b ^^ c) := by
  obtain ⟨n, f, hy, -, hn⟩ := hy.exists_pos hw
  rw [div_eq, unpack_of_parts_infinite hx, unpack_of_parts hy hn]
  change parts (Float.ofModel (pack (.infinity (signOf b / signOf c)))) = _
  cases b <;> cases c <;> rfl

/-! ## Whole numbers -/

/-- A double that is assembled from a mantissa and an exponent is rounded. -/
theorem parts_assemble (b : Bool) (hm : 0 < m) (e : ℤ) :
    ∃ k g, Rounds (m * 2 ^ e) k g ∧ parts (assemble b m e) = .rounded b k g := by
  obtain ⟨shift, hshift⟩ : ∃ shift : ℕ,
      (e - max ((m.log2 : ℤ) + 1 + e - 53) (-1074)).toNat = shift := ⟨_, rfl⟩
  have hlog : (m * 2 ^ shift).log2 = m.log2 + shift := by
    rw [Nat.log2_eq_iff (by positivity), Nat.pow_succ', Nat.pow_add, ← mul_assoc, ← Nat.pow_succ']
    exact ⟨Nat.mul_le_mul_right _ (Nat.log2_self_le hm.ne'),
      Nat.mul_lt_mul_of_pos_right Nat.lt_log2_self (by positivity)⟩
  have hassemble : assemble b m e = Float.ofModel (pack (roundWithAccuracy .binary64 (signOf b)
      (m * 2 ^ shift) (e - shift) .exact)) := by
    have hamount : (e - Format.binary64.targetExponent (totalExponent m e)).toNat = shift := hshift
    rw [assemble, if_neg hm.ne']
    simp only [UnpackedFloat.round, decreaseExponent, hamount, Nat.shiftLeft_eq]
  have hle : e - shift ≤ max ((m * 2 ^ shift).log2 + 1 + (e - shift) - 53) (-1074) := by
    rw [hlog]
    omega
  obtain ⟨k, g, hrounds, hround⟩ := rounds_roundWithAccuracy (describes_exact (m * 2 ^ shift))
    hle (signOf b)
  refine ⟨k, g, ?_, ?_⟩
  · have hvalue : (m * 2 ^ e : ℚ) = (m * 2 ^ shift : ℕ) * 2 ^ (e - shift) := by
      rw [zpow_sub₀ two_ne_zero, zpow_natCast]
      push_cast
      field_simp
    rwa [hvalue]
  · rw [hassemble, hround, parts_finiteOrZero hrounds.toCanonical, negativeSign_signOf]

/-- What a double can stand for is assembled exactly. -/
theorem stands_assemble (b : Bool) {r : ℕ} (hr : 0 < r) (hn : n ≤ 2 ^ 53)
    (hf : -1074 ≤ f) (hvalue : (r * 2 ^ e : ℚ) = n * 2 ^ f) (hlt : (r * 2 ^ e : ℚ) < overflow) :
    Stands (assemble b r e) b (r * 2 ^ e) := by
  obtain ⟨k, g, hrounds, hparts⟩ := parts_assemble b hr e
  have hg := hrounds.le_iff_lt.2 hlt
  have hpos : (0 : ℚ) < r * 2 ^ e := mul_pos (by exact_mod_cast hr) (by positivity)
  rw [hvalue] at hrounds
  have hexact := hrounds.eq_of_eq hn hf
  rw [← hvalue] at hexact
  have hk : k ≠ 0 := by
    rintro rfl
    rw [Nat.cast_zero, zero_mul] at hexact
    exact hpos.ne hexact
  exact ⟨k, g, by rw [hparts, Parts.rounded_of_pos (Nat.pos_of_ne_zero hk) hg], hexact⟩

theorem two_pow_lt_overflow : (2 : ℚ) ^ 53 < overflow := by
  have hc : Canonical (2 ^ 52) 1 := ⟨by decide, by decide, .inl le_rfl⟩
  calc (2 : ℚ) ^ 53 = (2 ^ 52 : ℕ) * 2 ^ (1 : ℤ) := by norm_num
    _ < overflow := hc.lt_overflow (by decide)

theorem stands_assemble_zero (b : Bool) (e : ℤ) : Stands (assemble b 0 e) b 0 := by
  rw [assemble, if_pos rfl]
  exact ⟨0, 0, by cases b <;> rfl, by simp⟩

theorem stands_whole (b : Bool) {r : ℕ} (hr : r ≤ 2 ^ 53) : Stands (assemble b r 0) b r := by
  rcases Nat.eq_zero_or_pos r with rfl | hpos
  · exact_mod_cast stands_assemble_zero b 0
  · have hr' : (r : ℚ) ≤ 2 ^ 53 := by exact_mod_cast hr
    have hvalue : (r * 2 ^ (0 : ℤ) : ℚ) = r := by rw [zpow_zero, mul_one]
    have hstands := stands_assemble (f := 0) b hpos hr (by decide) rfl
      (by rw [hvalue]; exact hr'.trans_lt two_pow_lt_overflow)
    rwa [hvalue] at hstands

/-- The whole number that is nearest to a fraction. -/
theorem abs_nearest_sub_le (m : ℕ) {d : ℕ} (hd : 0 < d) :
    |(((2 * m + d) / (2 * d) : ℕ) : ℚ) - m / d| ≤ 1 / 2 := by
  have hd' : (0 : ℚ) < d := by exact_mod_cast hd
  have hbelow := Nat.div_mul_le_self (2 * m + d) (2 * d)
  have habove := Nat.lt_mul_div_succ (2 * m + d) (by omega : 0 < 2 * d)
  generalize (2 * m + d) / (2 * d) = r at hbelow habove
  rw [← Nat.cast_le (α := ℚ)] at hbelow
  rw [← Nat.cast_lt (α := ℚ)] at habove
  push_cast at hbelow habove
  have hle : (r - 1 / 2 : ℚ) ≤ m / d := by
    rw [le_div_iff₀ hd']
    linarith
  have hge : (m / d : ℚ) ≤ r + 1 / 2 := by
    rw [div_le_iff₀ hd']
    linarith
  exact abs_le.2 ⟨by linarith, by linarith⟩

/-- A double is rounded to a whole number nearest to it. From `2 ^ 52` on it is whole already. -/
theorem exists_nearestInt? (h : Stands x b v) :
    ∃ r : ℕ, nearestInt? x = some (if b then -(r : ℤ) else r) ∧ Stands (roundHalfAway x) b r ∧
      |r - v| ≤ 1 / 2 ∧ (2 ^ 52 ≤ v → r = v) := by
  obtain ⟨m, e, hparts, rfl⟩ := h
  rcases Nat.eq_zero_or_pos m with rfl | hm
  · have hzero : parts x = .finite b 0 0 := by
      rw [parts, unpack_of_parts_zero hparts]
      simp
    have hwhole : roundHalfAway x = x := by
      simp only [roundHalfAway, mapWhole, hzero, if_pos le_rfl]
    refine ⟨0, by simp [nearestInt?, hzero], ?_, by norm_num, by norm_num⟩
    rw [hwhole]
    exact ⟨0, 0, hzero, by norm_num⟩
  obtain ⟨⟨hlt, hleast, hfull⟩, -⟩ := canonical_of_parts hparts hm
  by_cases he : 0 ≤ e
  · have hwhole : roundHalfAway x = x := by simp only [roundHalfAway, mapWhole, hparts, if_pos he]
    obtain ⟨k, rfl⟩ := Int.eq_ofNat_of_zero_le he
    have hvalue : ((m * 2 ^ k : ℕ) : ℚ) = m * 2 ^ (k : ℤ) := by push_cast [zpow_natCast]; rfl
    refine ⟨m * 2 ^ k, ?_, by rw [hwhole, hvalue]; exact ⟨m, k, hparts, rfl⟩,
      by rw [hvalue]; norm_num, fun _ => hvalue⟩
    simp only [nearestInt?, hparts, if_pos he, Int.toNat_natCast, Nat.pow_eq]
  · obtain ⟨k, rfl⟩ : ∃ k : ℕ, e = -(k + 1) := ⟨(-e - 1).toNat, by omega⟩
    have hdenominator : (-(-((k : ℤ) + 1))).toNat = k + 1 := by omega
    have hwhole : roundHalfAway x =
        assemble b ((2 * m + Nat.pow 2 (k + 1)) / (2 * Nat.pow 2 (k + 1))) 0 := by
      rw [roundHalfAway, mapWhole, hparts]
      dsimp only
      rw [if_neg he, hdenominator]
    have hvalue : (m * 2 ^ (-((k : ℤ) + 1)) : ℚ) = m / (2 ^ (k + 1) : ℕ) := by
      rw [zpow_neg, div_eq_mul_inv, Nat.cast_pow, Nat.cast_ofNat, ← zpow_natCast, Nat.cast_succ]
    have hnear := abs_nearest_sub_le m (Nat.two_pow_pos (k + 1))
    have hsmall : (m * 2 ^ (-((k : ℤ) + 1)) : ℚ) < 2 ^ 52 :=
      calc (m * 2 ^ (-((k : ℤ) + 1)) : ℚ) ≤ m * 2 ^ (-1 : ℤ) :=
            mul_le_mul_of_nonneg_left (zpow_le_zpow_right₀ one_le_two (by omega)) m.cast_nonneg
        _ < 2 ^ 53 * 2 ^ (-1 : ℤ) :=
            mul_lt_mul_of_pos_right (by exact_mod_cast hlt) (by positivity)
        _ = 2 ^ 52 := by norm_num
    have hint : nearestInt? x = some (if b then
        -(((2 * m + 2 ^ (k + 1)) / (2 * 2 ^ (k + 1)) : ℕ) : ℤ)
        else ((2 * m + 2 ^ (k + 1)) / (2 * 2 ^ (k + 1)) : ℕ)) := by
      simp only [nearestInt?, hparts, if_neg he, hdenominator, Nat.pow_eq]
    rw [← hvalue] at hnear
    rw [hwhole, Nat.pow_eq]
    generalize (2 * m + 2 ^ (k + 1)) / (2 * 2 ^ (k + 1)) = r at hnear hint
    have hr : r ≤ 2 ^ 52 := by
      have hlt' : (r : ℚ) < 2 ^ 52 + 1 := by linarith [(abs_le.1 hnear).2]
      exact Nat.lt_succ_iff.1 (by exact_mod_cast hlt')
    exact ⟨r, hint, stands_whole b (hr.trans (by decide)), hnear,
      fun hlarge => absurd hlarge (not_le.2 hsmall)⟩

/-- Below `2 ^ 52` the nearest whole number is no larger than that. -/
theorem stands_roundHalfAway (h : Stands x b v) :
    (v < 2 ^ 52 → ∃ r : ℕ, r ≤ 2 ^ 52 ∧ |r - v| ≤ 1 / 2 ∧ Stands (roundHalfAway x) b r) ∧
      (2 ^ 52 ≤ v → Stands (roundHalfAway x) b v) := by
  obtain ⟨r, -, hwhole, hnear, hlarge⟩ := exists_nearestInt? h
  refine ⟨fun hsmall => ⟨r, ?_, hnear, hwhole⟩, fun hle => hlarge hle ▸ hwhole⟩
  have hlt : (r : ℚ) < 2 ^ 52 + 1 := by linarith [(abs_le.1 hnear).2]
  exact Nat.lt_succ_iff.1 (by exact_mod_cast hlt)

end StyleScript.Binary64
