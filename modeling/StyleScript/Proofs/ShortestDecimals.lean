-- SUMMARY: The shortest decimal of a double lies in its interval, and no coarser one does.
import Mathlib.Tactic.FieldSimp
import StyleScript.Proofs.RoundedDoubles

/-!
# Shortest decimals

The search goes from coarse grids to finer ones. On each grid it tries the two points around the
double only. This is enough, because the interval of the double has no gaps: if there is any point
of the grid in it, one of the two is.

Main statement: the shortest decimal is in the interval of the double, and every decimal in the
interval is on the same grid or on a finer one. So a decimal with few digits is the shortest one of
the double that it is rounded to.
-/

namespace StyleScript.Decimal

namespace Interval

/-! ## Grids -/

variable {i : Interval} {c d : ℕ} {g : ℤ} {y z w : ℚ}

theorem Contains.of_between (hy : i.Contains y) (hz : i.Contains z) (hyw : y ≤ w) (hwz : w ≤ z) :
    i.Contains w := by
  unfold Contains at hy hz ⊢
  split at hy <;> rename_i hclosed
  · rw [if_pos hclosed] at hz ⊢
    exact ⟨hy.1.trans hyw, hwz.trans hz.2⟩
  · rw [if_neg hclosed] at hz ⊢
    exact ⟨hy.1.trans_le hyw, hwz.trans_lt hz.2⟩

/-- Multiplying out the negative power in one of two factors. -/
theorem zpow_mul_toNat {a : ℚ} (ha : a ≠ 0) (z : ℤ) : a ^ z * a ^ (-z).toNat = a ^ z.toNat := by
  rcases le_total 0 z with hz | hz
  · obtain ⟨k, rfl⟩ := Int.eq_ofNat_of_zero_le hz
    simp
  · obtain ⟨k, rfl⟩ : ∃ k : ℕ, z = -k := ⟨z.natAbs, by omega⟩
    simp [ha]

/-- Points and bounds are multiplied by the same factor for a comparison. -/
theorem exists_scale (i : Interval) (g : ℤ) :
    ∃ s : ℚ, 0 < s ∧ (∀ c : ℕ, ((c * i.pointFactor g : ℕ) : ℚ) = c * 10 ^ g * s) ∧
      ∀ k : ℕ, ((k * i.boundFactor g : ℕ) : ℚ) = k * 2 ^ i.unit * s := by
  refine ⟨10 ^ (-g).toNat * 2 ^ (-i.unit).toNat, by positivity, fun c => ?_, fun k => ?_⟩
  · rw [pointFactor, Nat.cast_mul, Nat.cast_mul, Nat.pow_eq, Nat.pow_eq, Nat.cast_pow, Nat.cast_pow,
      Nat.cast_ofNat, Nat.cast_ofNat, ← zpow_mul_toNat (by norm_num) g]
    ring
  · rw [boundFactor, Nat.cast_mul, Nat.cast_mul, Nat.pow_eq, Nat.pow_eq, Nat.cast_pow, Nat.cast_pow,
      Nat.cast_ofNat, Nat.cast_ofNat, ← zpow_mul_toNat (by norm_num) i.unit]
    ring

/-- A point of a grid is compared with the interval as it lies in it. -/
theorem holds_iff : i.holds c g = true ↔ i.Contains (c * 10 ^ g) := by
  obtain ⟨s, hs, hpoint, hbound⟩ := i.exists_scale g
  rw [holds, Contains]
  split
  · rw [Bool.and_eq_true, decide_eq_true_iff, decide_eq_true_iff, ← Nat.cast_le (α := ℚ),
      ← Nat.cast_le (α := ℚ), hpoint, hbound, hbound, mul_le_mul_iff_left₀ hs,
      mul_le_mul_iff_left₀ hs]
  · rw [Bool.and_eq_true, decide_eq_true_iff, decide_eq_true_iff, ← Nat.cast_lt (α := ℚ),
      ← Nat.cast_lt (α := ℚ), hpoint, hbound, hbound, mul_lt_mul_iff_left₀ hs,
      mul_lt_mul_iff_left₀ hs]

theorem contains_of_meet? (h : i.meet? g = some c) : i.Contains (c * 10 ^ g) := by
  rw [← holds_iff]
  unfold meet? at h
  dsimp only at h
  split at h
  · split at h <;> cases h <;> assumption
  · cases h
    assumption
  · cases h
    assumption
  · cases h

/-- A grid that has a point in the interval has one next to the double. -/
theorem meet?_ne_none (hmid : i.Contains (i.mid * 2 ^ i.unit)) (hd : i.Contains (d * 10 ^ g)) :
    i.meet? g ≠ none := by
  obtain ⟨s, hs, hpoint, hbound⟩ := i.exists_scale g
  have hgrid : (0 : ℚ) < 10 ^ g := by positivity
  have hfactor : 0 < i.pointFactor g := Nat.mul_pos (Nat.pow_pos (by decide)) (Nat.two_pow_pos _)
  intro hnone
  simp only [meet?] at hnone
  have hbelow := Nat.div_mul_le_self (i.mid * i.boundFactor g) (i.pointFactor g)
  have habove := Nat.lt_mul_div_succ (i.mid * i.boundFactor g) hfactor
  generalize i.mid * i.boundFactor g / i.pointFactor g = below at hnone hbelow habove
  rw [← Nat.cast_le (α := ℚ), hpoint, hbound, mul_le_mul_iff_left₀ hs] at hbelow
  rw [mul_comm (i.pointFactor g), ← Nat.cast_lt (α := ℚ), hpoint, hbound,
    mul_lt_mul_iff_left₀ hs] at habove
  have hnext : i.holds below g = true ∨ i.holds (below + 1) g = true := by
    rcases Nat.lt_or_ge below d with hlt | hle
    · have hd' : (((below + 1 : ℕ) : ℚ) * 10 ^ g) ≤ d * 10 ^ g :=
        mul_le_mul_of_nonneg_right (by exact_mod_cast hlt) hgrid.le
      exact .inr (holds_iff.2 (hmid.of_between hd habove.le hd'))
    · have hd' : (d * 10 ^ g : ℚ) ≤ below * 10 ^ g :=
        mul_le_mul_of_nonneg_right (by exact_mod_cast hle) hgrid.le
      exact .inl (holds_iff.2 (hd.of_between hmid hd' hbelow))
  split at hnone
  · split at hnone <;> cases hnone
  · cases hnone
  · cases hnone
  · simp_all

theorem search_eq_some {tries : ℕ} {top : ℤ} (h : i.search tries top = some (c, g)) :
    i.meet? g = some c ∧ g ≤ top ∧ ∀ g', g < g' → g' ≤ top → i.meet? g' = none := by
  induction tries generalizing top with
  | zero => cases h
  | succ tries ih =>
    rw [search] at h
    split at h
    · cases h
      exact ⟨‹_›, le_rfl, fun g' hlt hle => by omega⟩
    · obtain ⟨hmeet, hle, hnone⟩ := ih h
      refine ⟨hmeet, by omega, fun g' hlt hle' => ?_⟩
      rcases hle'.eq_or_lt with rfl | hlt'
      · assumption
      · exact hnone g' hlt (by omega)

theorem search_eq_none {tries : ℕ} {top : ℤ} (h : i.search tries top = none) {g' : ℤ}
    (hle : g' ≤ top) (hlt : top < g' + tries) : i.meet? g' = none := by
  induction tries generalizing top with
  | zero => omega
  | succ tries ih =>
    rw [search] at h
    split at h
    · cases h
    · rcases hle.eq_or_lt with rfl | hlt'
      · assumption
      · exact ih h (by omega) (by push_cast at hlt; omega)

end Interval

/-! ## Shortest decimals -/

variable {m c : ℕ} {e g : ℤ}

theorem mid_ofParts :
    ((Interval.ofParts m e).mid : ℚ) * 2 ^ (Interval.ofParts m e).unit = m * 2 ^ e := by
  rw [← Interval.quarters_mul (m : ℚ)]
  simp [Interval.ofParts]

/-- A double is in its own interval. -/
theorem contains_mid (hpos : 0 < m) (e : ℤ) : (Interval.ofParts m e).Contains (m * 2 ^ e) := by
  have hunit : (0 : ℚ) < 2 ^ e := by positivity
  have hlow : ((Interval.ofParts m e).low : ℚ) * 2 ^ (Interval.ofParts m e).unit < m * 2 ^ e := by
    by_cases heq : m = 2 ^ 52 ∧ -1074 < e
    · rw [Interval.low_ofParts_of_eq heq]
      linarith
    · rw [Interval.low_ofParts hpos heq]
      linarith
  refine Interval.contains_of_lt hlow.le (by linarith) ?_
  rintro (h | h) <;> linarith

/-- Either the search ends with the shortest decimal, or the double itself is it. -/
theorem shortest_cases (m : ℕ) (e : ℤ) :
    (Interval.ofParts m e).search ((topPower m e - min e 0).toNat + 1) (topPower m e) =
        some (shortest m e) ∨
      (Interval.ofParts m e).search ((topPower m e - min e 0).toNat + 1) (topPower m e) = none ∧
        (shortest m e).2 = min e 0 ∧
        ((shortest m e).1 * 10 ^ (shortest m e).2 : ℚ) = m * 2 ^ e := by
  cases hsearch :
      (Interval.ofParts m e).search ((topPower m e - min e 0).toNat + 1) (topPower m e) with
  | some d => exact .inl (by simp only [shortest, hsearch, Option.getD_some])
  | none =>
    have hshortest : shortest m e = (m * Nat.pow 5 (-e).toNat * Nat.pow 2 e.toNat, min e 0) := by
      simp only [shortest, hsearch, Option.getD_none]
    refine .inr ⟨rfl, by rw [hshortest], ?_⟩
    rw [hshortest]
    rcases le_total 0 e with he | he
    · obtain ⟨k, rfl⟩ := Int.eq_ofNat_of_zero_le he
      simp
    · obtain ⟨k, rfl⟩ : ∃ k : ℕ, e = -k := ⟨e.natAbs, by omega⟩
      have hten : (10 : ℚ) ^ k = 5 ^ k * 2 ^ k := by rw [← mul_pow]; norm_num
      simp only [neg_neg, Int.toNat_natCast, Int.toNat_neg_natCast, Nat.pow_eq, pow_zero, mul_one,
        min_eq_left he, zpow_neg, zpow_natCast, hten]
      push_cast
      field_simp

/-- The shortest decimal is in the interval of the double. -/
theorem contains_shortest (hpos : 0 < m) (e : ℤ) :
    (Interval.ofParts m e).Contains ((shortest m e).1 * 10 ^ (shortest m e).2) := by
  rcases shortest_cases m e with hsearch | ⟨-, -, hexact⟩
  · exact Interval.contains_of_meet? (Interval.search_eq_some hsearch).1
  · rw [hexact]
    exact contains_mid hpos e

/-- Powers of two are below the powers of ten that the search begins with. The fraction for the
    decimal logarithm of two is close enough for all exponents of doubles. -/
theorem two_zpow_le {b : ℤ} (hlow : -1074 ≤ b) (hhigh : b ≤ 1024) :
    (2 : ℚ) ^ b ≤ 10 ^ (b * 1233 / 4096 + 2) := by
  rcases le_total 0 b with hb | hb
  · -- `28 / 93` is above the logarithm
    refine le_of_pow_le_pow_left₀ (n := 93) (by decide) (by positivity) ?_
    calc ((2 : ℚ) ^ b) ^ 93 = (2 ^ 93) ^ b := by rw [← zpow_natCast, ← zpow_natCast, zpow_comm]
      _ ≤ (10 ^ 28) ^ b := zpow_le_zpow_left₀ hb (by norm_num) (by norm_num)
      _ = 10 ^ (28 * b) := by rw [zpow_mul]; rfl
      _ ≤ 10 ^ ((b * 1233 / 4096 + 2) * 93) := zpow_le_zpow_right₀ (by norm_num) (by omega)
      _ = (10 ^ (b * 1233 / 4096 + 2)) ^ 93 := by rw [zpow_mul]; rfl
  · -- `59 / 196` is below it
    refine le_of_pow_le_pow_left₀ (n := 196) (by decide) (by positivity) ?_
    calc ((2 : ℚ) ^ b) ^ 196 = ((2 ^ 196) ^ (-b))⁻¹ := by
          rw [zpow_neg, inv_inv, ← zpow_natCast, ← zpow_natCast, zpow_comm]
      _ ≤ ((10 ^ 59) ^ (-b))⁻¹ :=
        inv_anti₀ (by positivity) (zpow_le_zpow_left₀ (by omega) (by norm_num) (by norm_num))
      _ = 10 ^ (59 * b) := by rw [zpow_neg, inv_inv, zpow_mul]; rfl
      _ ≤ 10 ^ ((b * 1233 / 4096 + 2) * 196) := zpow_le_zpow_right₀ (by norm_num) (by omega)
      _ = (10 ^ (b * 1233 / 4096 + 2)) ^ 196 := by rw [zpow_mul]; rfl

theorem le_topPower (hpos : 0 < m) (hlow : -1074 ≤ e) (hhigh : m.log2 + 1 + e ≤ 1024)
    (hc : (Interval.ofParts m e).Contains (c * 10 ^ g)) : g ≤ topPower m e := by
  have hunit : (0 : ℚ) < 2 ^ e := by positivity
  have hgrid : (0 : ℚ) < 10 ^ g := by positivity
  have hm : (1 : ℚ) ≤ m := by exact_mod_cast hpos
  have hc' : (1 : ℚ) ≤ c := by
    have hlarge : (0 : ℚ) < c * 10 ^ g :=
      (mul_pos (by linarith) hunit).trans_le hc.half_below
    exact_mod_cast (mul_pos_iff_of_pos_right hgrid).1 hlarge
  have hbits : (m : ℚ) + 1 ≤ 2 ^ (m.log2 + 1) := by exact_mod_cast Nat.lt_log2_self
  have hlt : (10 : ℚ) ^ g < 10 ^ (topPower m e + 1) :=
    calc (10 : ℚ) ^ g ≤ c * 10 ^ g := le_mul_of_one_le_left hgrid.le hc'
      _ ≤ (m + 1 / 2) * 2 ^ e := hc.le_high
      _ < 2 ^ (m.log2 + 1) * 2 ^ e := mul_lt_mul_of_pos_right (by linarith) hunit
      _ = 2 ^ ((m.log2 : ℤ) + 1 + e) := by
        rw [zpow_add₀ two_ne_zero, zpow_add_one₀ two_ne_zero, pow_succ, zpow_natCast]
      _ ≤ 10 ^ (topPower m e + 1) := by
        have htop : topPower m e + 1 = ((m.log2 : ℤ) + 1 + e) * 1233 / 4096 + 2 := by
          simp only [topPower]
          omega
        rw [htop]
        exact two_zpow_le (by omega) hhigh
  exact Int.lt_add_one_iff.1 ((zpow_lt_zpow_iff_right₀ (by norm_num)).1 hlt)

/-- All decimals in the interval are on the grid of the shortest one or on finer ones. -/
theorem le_shortest (hpos : 0 < m) (hlow : -1074 ≤ e) (hhigh : m.log2 + 1 + e ≤ 1024)
    (hc : (Interval.ofParts m e).Contains (c * 10 ^ g)) : g ≤ (shortest m e).2 := by
  have hg := le_topPower hpos hlow hhigh hc
  have hmeet : (Interval.ofParts m e).meet? g ≠ none :=
    Interval.meet?_ne_none (by rw [mid_ofParts]; exact contains_mid hpos e) hc
  by_contra hlt
  rcases shortest_cases m e with hsearch | ⟨hsearch, hbottom, -⟩
  · exact hmeet ((Interval.search_eq_some hsearch).2.2 g (not_le.1 hlt) hg)
  · exact hmeet (Interval.search_eq_none hsearch hg (by push_cast; omega))

/-! ## Decimals with few digits -/

open Binary64 (Rounds)

/-- What rounds to one double is less than a step of a decimal grid apart, if the grid is not finer
    than the doubles. -/
theorem abs_sub_mul_lt_one {y z factor : ℚ} (hy : Rounds y m e)
    (hz : (Interval.ofParts m e).Contains z) (hfactor : 0 < factor) (hlarge : factor ≤ 10 ^ 16)
    (hsmall : y * factor ≤ 2 ^ 52) : |z - y| * factor < 1 := by
  have hunit : (0 : ℚ) < 2 ^ e := by positivity
  have hwidth : |z - y| ≤ 2 ^ e := by
    rw [abs_le]
    constructor <;>
      linarith [hz.half_below, hz.le_high, hy.contains.half_below, hy.contains.le_high]
  have hwidth' := mul_le_mul_of_nonneg_right hwidth hfactor.le
  rcases lt_or_eq_of_le hy.least with he | he
  · have hm : 2 ^ 52 ≤ m := hy.full.resolve_right he.ne'
    rcases hm.eq_or_lt with rfl | hlt
    · -- the interval is shorter below a power of two
      have hbelow := hy.contains.quarter_below le_rfl he
      have hshort : |z - y| ≤ 3 / 4 * 2 ^ e := by
        have habove := hy.contains.le_high
        have habove' := hz.le_high
        push_cast at habove habove'
        rw [abs_le]
        constructor <;> linarith [hz.quarter_below le_rfl he]
      have hbelow' := mul_le_mul_of_nonneg_right hbelow hfactor.le
      have hshort' := mul_le_mul_of_nonneg_right hshort hfactor.le
      linarith
    · have hm' : (2 : ℚ) ^ 52 + 1 ≤ m := by exact_mod_cast hlt
      have hbelow : (2 ^ 52 + 1 / 2) * 2 ^ e ≤ y :=
        (mul_le_mul_of_nonneg_right (by linarith) hunit.le).trans hy.contains.half_below
      have hbelow' := mul_le_mul_of_nonneg_right hbelow hfactor.le
      linarith
  · have hleast : (2 : ℚ) ^ e ≤ 2 ^ (-54 : ℤ) := zpow_le_zpow_right₀ one_le_two (by omega)
    calc |z - y| * factor ≤ 2 ^ e * factor := hwidth'
      _ ≤ 2 ^ (-54 : ℤ) * 10 ^ 16 := mul_le_mul hleast hlarge hfactor.le (by positivity)
      _ < 1 := by norm_num

/-- The shortest decimal for a number of places that is rounded is this number itself. -/
theorem shortest_of_places {r q : ℕ} (hr : r ≤ 2 ^ 52) (hq : q ≤ 16)
    (h : Rounds (r / 10 ^ q) m e) (hm : 0 < m) (he : e ≤ 971) :
    ((shortest m e).1 * 10 ^ (shortest m e).2 : ℚ) = r / 10 ^ q := by
  have hfactor : (0 : ℚ) < 10 ^ q := by positivity
  have hgrid : (r / 10 ^ q : ℚ) = r * 10 ^ (-(q : ℤ)) := by
    rw [zpow_neg, zpow_natCast, div_eq_mul_inv]
  have hcoarse : -(q : ℤ) ≤ (shortest m e).2 := by
    have hbits : m.log2 < 53 := (Nat.log2_lt hm.ne').2 h.lt
    exact le_shortest hm h.least (by omega) (hgrid ▸ h.contains)
  obtain ⟨k, hk⟩ : ∃ k : ℕ, (shortest m e).2 = k - q := ⟨((shortest m e).2 + q).toNat, by omega⟩
  have hwhole : ((shortest m e).1 * 10 ^ (shortest m e).2 : ℚ) * 10 ^ q =
      ((shortest m e).1 * 10 ^ k : ℕ) := by
    rw [hk, zpow_sub₀ (by norm_num), zpow_natCast, zpow_natCast]
    push_cast
    field_simp
  have hnear := abs_sub_mul_lt_one h (contains_shortest hm e) hfactor
    (pow_le_pow_right₀ (by norm_num) hq) (by rw [div_mul_cancel₀ _ hfactor.ne']; exact_mod_cast hr)
  -- both are whole on the grid of the places, and less than a step apart
  rw [← abs_of_pos hfactor, ← abs_mul, sub_mul, hwhole, abs_of_pos hfactor,
    div_mul_cancel₀ _ hfactor.ne'] at hnear
  rw [eq_div_iff hfactor.ne', hwhole]
  generalize (shortest m e).1 * 10 ^ k = n at hnear
  obtain ⟨hbelow, habove⟩ := abs_lt.1 hnear
  have hle : (r : ℚ) < n + 1 := by linarith
  have hge : (n : ℚ) < r + 1 := by linarith
  have hle' : r < n + 1 := by exact_mod_cast hle
  have hge' : n < r + 1 := by exact_mod_cast hge
  rw [Nat.le_antisymm (Nat.lt_succ_iff.1 hge') (Nat.lt_succ_iff.1 hle')]

end StyleScript.Decimal
