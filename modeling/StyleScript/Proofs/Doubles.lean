-- SUMMARY: The order of doubles, and the whole numbers near those from `0` to `255`.
import Mathlib.Algebra.Group.Nat.Defs
import Mathlib.Tactic.SplitIfs
import StyleScript.Color.Text

/-!
# Doubles in a range

The order of doubles is not total: nothing is above or below the double that is not a number,
which is not even equal to itself. Of two others one is at most the other. So a double that was
moved into a range of doubles is in it, whatever it was.

A double from `0` to `255` rounds to a whole number of the same range, which is a byte.
-/

namespace StyleScript.Binary64

open Float.Model

/-! ## The order -/

theorem compare_parts_swap (m₁ m₂ : Nat) (e₁ e₂ : Int) :
    (compare e₂ e₁).then (compare m₂ m₁) = ((compare e₁ e₂).then (compare m₁ m₂)).swap := by
  rw [Ordering.swap_then, ← Std.OrientedOrd.eq_swap, ← Std.OrientedOrd.eq_swap]

/-- The comparison from the other side. -/
theorem compare_swap (a b : UnpackedFloat) : b.compare a = (a.compare b).map Ordering.swap := by
  rcases a with ⟨_ | _⟩ | _ | ⟨_ | _⟩ | ⟨_ | _, m, e, _⟩ <;>
    rcases b with ⟨_ | _⟩ | _ | ⟨_ | _⟩ | ⟨_ | _, n, f, _⟩ <;>
    first
    | rfl
    | exact congrArg some (compare_parts_swap m n e f)
    | exact congrArg (fun o => some o.swap) (compare_parts_swap m n e f)

theorem compare_nan (a : UnpackedFloat) : a.compare .notANumber = none := by
  rcases a with ⟨_ | _⟩ | _ | ⟨_ | _⟩ | ⟨_ | _, _, _, _⟩ <;> rfl

/-- Only what is not a number cannot be compared. -/
theorem compare_eq_none {a b : UnpackedFloat} (h : a.compare b = none) :
    a = .notANumber ∨ b = .notANumber := by
  rcases a with ⟨_ | _⟩ | _ | ⟨_ | _⟩ | ⟨_ | _, m, e, _⟩ <;>
    rcases b with ⟨_ | _⟩ | _ | ⟨_ | _⟩ | ⟨_ | _, n, f, _⟩ <;>
    first
    | exact .inl rfl
    | exact .inr rfl
    | cases h

variable {x y : Float}

theorem le_iff :
    x ≤ y ↔ (x.toModel.unpack.compare y.toModel.unpack).any (·.isLE) = true := by
  change decide (x.toModel ≤ y.toModel) = true ↔ _
  rw [decide_eq_true_iff]
  rfl

theorem lt_iff : x < y ↔ x.toModel.unpack.compare y.toModel.unpack = some .lt := by
  change decide (x.toModel < y.toModel) = true ↔ _
  rw [decide_eq_true_iff]
  change ((_ == _) = true) ↔ _
  rw [beq_iff_eq]

theorem beq_iff : (x == y) = true ↔ x.toModel.unpack.compare y.toModel.unpack = some .eq := by
  change ((x.toModel.unpack.compare y.toModel.unpack == some .eq) = true) ↔ _
  rw [beq_iff_eq]

/-- A double that equals itself can be compared. -/
theorem not_nan_of_beq (h : (x == x) = true) : x.toModel.unpack ≠ .notANumber := by
  intro hnan
  rw [beq_iff, hnan] at h
  cases h

theorem le_of_not_lt (hx : (x == x) = true) (hy : (y == y) = true) (h : ¬y < x) : x ≤ y := by
  rw [lt_iff, compare_swap] at h
  rw [le_iff]
  cases ho : x.toModel.unpack.compare y.toModel.unpack with
  | none => exact ((compare_eq_none ho).elim (not_nan_of_beq hx) (not_nan_of_beq hy)).elim
  | some o =>
    rw [ho] at h
    cases o with
    | lt => rfl
    | eq => rfl
    | gt => exact absurd rfl h

/-- What something is at most is a number. -/
theorem isNaN_of_le (h : x ≤ y) : y.isNaN = false := by
  change y.toModel.unpack.isNaN = false
  rw [le_iff] at h
  cases hy : y.toModel.unpack with
  | notANumber =>
    rw [hy, compare_nan] at h
    cases h
  | _ => rfl

/-- A double that was moved into a range is in it, whatever it was. -/
theorem clamp_between {low high : Float} (hlow : (low == low) = true) (hhigh : (high == high) = true)
    (hle : low ≤ high) (x : Float) :
    low ≤ Scalar.clamp low high x ∧ Scalar.clamp low high x ≤ high := by
  have hrefl {y : Float} (hy : (y == y) = true) : y ≤ y := by rw [le_iff, beq_iff.1 hy]; rfl
  unfold Scalar.clamp Scalar.limit
  split_ifs with hx hbelow habove
  · exact ⟨hrefl hlow, hle⟩
  · exact ⟨hle, hrefl hhigh⟩
  · exact ⟨le_of_not_lt hlow hx hbelow, le_of_not_lt hx hhigh habove⟩
  · exact ⟨hrefl hlow, hle⟩

/-! ## Mantissas and exponents -/

/-- A mantissa and an exponent that a double has: all bits of the mantissa are used, except at the
    bottom of the range. -/
structure Canonical (m : Nat) (e : Int) : Prop where
  lt : m < 2 ^ 53
  least : -1074 ≤ e
  full : 2 ^ 52 ≤ m ∨ e = -1074

theorem canonical_of_unpack {s : UnpackedFloat.Sign} {m : Nat} {e : Int} {hm : 0 < m}
    (h : x.toModel.unpack = .finite s m e hm) : Canonical m e ∧ e ≤ 971 := by
  unfold Float.Model.unpack UnpackedFloat.unpack at h
  dsimp only at h
  have hbias : Format.binary64.exponentBias = 1023 := rfl
  by_cases hlast : @UnpackedFloat.unpackExponent .binary64 x.toModel.toBits.toBitVec = -1#_
  · -- infinities and what is not a number
    rw [if_pos hlast] at h
    by_cases hzero : @UnpackedFloat.unpackMantissa .binary64 x.toModel.toBits.toBitVec = 0#_
    · rw [if_pos hzero] at h
      cases h
    · rw [if_neg hzero] at h
      cases h
  rw [if_neg hlast] at h
  by_cases hfirst : @UnpackedFloat.unpackExponent .binary64 x.toModel.toBits.toBitVec = 0#_
  · rw [if_pos hfirst] at h
    by_cases hzero : @UnpackedFloat.unpackMantissa .binary64 x.toModel.toBits.toBitVec = 0#_
    · rw [dif_pos hzero] at h
      cases h
    · rw [dif_neg hzero] at h
      cases h
      rw [hfirst, hbias]
      exact ⟨⟨Nat.lt_trans (BitVec.isLt _) (by decide), by decide, .inr (by decide)⟩, by decide⟩
  · rw [if_neg hfirst] at h
    cases h
    generalize @UnpackedFloat.unpackExponent .binary64 x.toModel.toBits.toBitVec = exponent at *
    generalize @UnpackedFloat.unpackMantissa .binary64 x.toModel.toBits.toBitVec = mantissa at *
    rw [hbias]
    have hpositive := mt BitVec.eq_of_toNat_eq hfirst
    have hbelow := mt BitVec.eq_of_toNat_eq hlast
    simp only [BitVec.toNat_ofNat, BitVec.toNat_neg] at hpositive hbelow
    have hbits : exponent.toNat < 2 ^ 11 := exponent.isLt
    have hfull : 2 ^ 52 ≤ (1#1 ++ mantissa).toNat := by
      rw [BitVec.toNat_append]
      exact Nat.left_le_or
    exact ⟨⟨BitVec.isLt _, by omega, .inl hfull⟩, by omega⟩

/-! ## Rounding to a byte -/

theorem unpack_zero : (0 : Float).toModel.unpack = .zero .positive := rfl

theorem unpack_last :
    (255 : Float).toModel.unpack = .finite .positive (255 * 2 ^ 45) (-45) (by decide) :=
  rfl

/-- A double from `0` to `255` is a zero or a fraction of a denominator of at least `2 ^ 45`. -/
theorem parts_between (hlow : 0 ≤ x) (hhigh : x ≤ 255) :
    (∃ s, x.toModel.unpack = .zero s) ∨
      ∃ m e hm, x.toModel.unpack = .finite .positive m e hm ∧
        (e < -45 ∧ m < 2 ^ 53 ∨ e = -45 ∧ m ≤ 255 * 2 ^ 45) := by
  rw [le_iff, unpack_zero] at hlow
  rw [le_iff, unpack_last] at hhigh
  cases hx : x.toModel.unpack with
  | infinity s =>
    rw [hx] at hlow hhigh
    cases s with
    | negative => cases hlow
    | positive => cases hhigh
  | notANumber =>
    rw [hx] at hlow
    cases hlow
  | zero s => exact .inl ⟨s, rfl⟩
  | finite s m e hm =>
    rw [hx] at hlow hhigh
    cases s with
    | negative => cases hlow
    | positive =>
      refine .inr ⟨m, e, hm, rfl, ?_⟩
      have hmantissa := (canonical_of_unpack hx).1.lt
      dsimp only [UnpackedFloat.compare, Option.any_some] at hhigh
      simp only [Ordering.isLE_then_iff_and, Int.isLE_compare, Nat.isLE_compare,
        Int.compare_eq_lt] at hhigh
      omega

/-- The double of a whole number that is a byte, of either sign if it is zero. -/
theorem toUInt8_assemble : ∀ k < 256, (assemble false k 0).toUInt8 = UInt8.ofNat k := by
  -- computed for each byte: the number is rounded to a double on the way
  decide +kernel

/-- The rounded fraction of a mantissa and an exponent in the range is a byte. -/
theorem nearest_lt {m : Nat} {e : Int}
    (h : e < -45 ∧ m < 2 ^ 53 ∨ e = -45 ∧ m ≤ 255 * 2 ^ 45) :
    (2 * m + Nat.pow 2 (-e).toNat) / (2 * Nat.pow 2 (-e).toNat) < 256 := by
  have hpos : 0 < 2 * Nat.pow 2 (-e).toNat := Nat.mul_pos Nat.two_pos (Nat.two_pow_pos _)
  rw [Nat.div_lt_iff_lt_mul hpos]
  obtain ⟨he, hm⟩ | ⟨rfl, hm⟩ := h
  · have hpow : 2 ^ 46 ≤ Nat.pow 2 (-e).toNat := Nat.pow_le_pow_right Nat.two_pos (by omega)
    omega
  · have hpow : Nat.pow 2 (- -45 : Int).toNat = 2 ^ 45 := rfl
    omega

/-- A double from `0` to `255` rounds to the nearest whole number, a half upwards, and that is a
    byte. -/
theorem toByte_between (hlow : 0 ≤ x) (hhigh : x ≤ 255) :
    ∃ k : Nat, k < 256 ∧ nearestInt? x = some (k : Int) ∧ (toByte x).toNat = k := by
  obtain ⟨s, hx⟩ | ⟨m, e, hm, hx, hrange⟩ := parts_between hlow hhigh
  · have hparts : parts x = .finite (negativeSign s) 0 0 := by rw [parts, hx]
    have hwhole : roundHalfAway x = x := by simp [roundHalfAway, mapWhole, hparts]
    have hbyte : x.toUInt8 = 0 := by
      change x.toModel.unpack.toUInt8 = 0
      rw [hx]
      rfl
    refine ⟨0, by decide, by simp [nearestInt?, hparts], ?_⟩
    rw [toByte, hwhole, hbyte]
    rfl
  · have hparts : parts x = .finite false m e := by rw [parts, hx]; rfl
    have he : ¬0 ≤ e := by omega
    have hlt := nearest_lt hrange
    refine ⟨_, hlt, ?_, ?_⟩
    · simp only [nearestInt?, hparts, if_neg he, Bool.false_eq_true, if_false]
    rw [toByte, roundHalfAway, mapWhole, hparts]
    simp only [if_neg he]
    rw [toUInt8_assemble _ hlt, UInt8.toNat_ofNat_of_lt' hlt]

end StyleScript.Binary64
