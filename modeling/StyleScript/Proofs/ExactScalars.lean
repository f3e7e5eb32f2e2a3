-- SUMMARY: Color arithmetic on the rationals in the terms of ordered fields, and rationals that notice a division by zero.
import Mathlib.Algebra.Order.Floor.Ring
import Mathlib.Data.Rat.Floor
import Mathlib.Tactic.Linarith
import Mathlib.Tactic.Ring
import StyleScript.Color.Hsl

/-!
# Exact scalars

On the rationals the operations of scalars are those of an ordered field: moving into a range
is a maximum of a minimum, and a wrapped hue is the fraction of a turn.

Division by zero is defined on the rationals, so a law about them does not tell whether a
zero was divided by. The checked rationals do: there the quotient by zero is undefined, and
so is all that is computed from it. A computation with a defined result has divided by no
zero.
-/

namespace StyleScript

namespace Scalar

theorem larger_exact (x y : ℚ) : larger x y = max x y := by
  unfold larger
  rw [if_pos (beq_self_eq_true y)]
  split_ifs with h
  · exact (max_eq_left h.le).symm
  · exact (max_eq_right (not_lt.1 h)).symm

theorem smaller_exact (x y : ℚ) : smaller x y = min x y := by
  unfold smaller
  rw [if_pos (beq_self_eq_true y)]
  split_ifs with h
  · exact (min_eq_left h.le).symm
  · exact (min_eq_right (not_lt.1 h)).symm

theorem limit_exact {low high : ℚ} (hle : low ≤ high) (x : ℚ) :
    limit low high x = max low (min high x) := by
  unfold limit
  split_ifs with h h'
  · rw [max_eq_left ((min_le_right high x).trans h.le)]
  · rw [min_eq_left h'.le, max_eq_right hle]
  · rw [min_eq_right (not_lt.1 h'), max_eq_right (not_lt.1 h)]

theorem clamp_exact {low high : ℚ} (hle : low ≤ high) (x : ℚ) :
    clamp low high x = max low (min high x) := by
  unfold clamp
  rw [if_pos (beq_self_eq_true x), limit_exact hle]

/-- What is in a range stays where it is. -/
theorem clamp_of_mem {low high x : ℚ} (hx : x ∈ Set.Icc low high) : clamp low high x = x := by
  rw [clamp_exact (hx.1.trans hx.2), min_eq_right hx.2, max_eq_right hx.1]

end Scalar

/-- The remainder of a truncated division leaves out a whole number of divisors. It is less
    than one divisor, and has the sign of the dividend. -/
theorem Scalar.remainder_exact (x : ℚ) {y : ℚ} (hy : 0 < y) :
    ∃ n : ℤ, remainder x y = x - y * n ∧
      (x < 0 → -y < remainder x y ∧ remainder x y ≤ 0) ∧
      (0 ≤ x → 0 ≤ remainder x y ∧ remainder x y < y) := by
  have hdiv : y * (x / y) = x := mul_div_cancel₀ x hy.ne'
  by_cases hx : x < 0
  · have hquotient : x / y < 0 := div_neg_of_neg_of_pos hx hy
    have hremainder : remainder x y = x - y * (x / y).ceil := by
      simp only [remainder, if_pos hquotient]
    refine ⟨_, hremainder, fun _ => ?_, fun h => absurd hx (not_lt.2 h)⟩
    rw [hremainder]
    constructor
    · nlinarith [@Rat.ceil_lt (x / y)]
    · nlinarith [@Rat.le_ceil (x / y)]
  · have hquotient : ¬x / y < 0 := not_lt.2 (div_nonneg (not_lt.1 hx) hy.le)
    have hremainder : remainder x y = x - y * (x / y).floor := by
      simp only [remainder, if_neg hquotient]
    refine ⟨_, hremainder, fun h => absurd h hx, fun _ => ?_⟩
    rw [hremainder]
    constructor
    · nlinarith [Rat.floor_le (x / y)]
    · nlinarith [@Rat.lt_floor (x / y)]

/-- A wrapped hue is whole turns away from the hue and less than one turn. -/
theorem Hsl.wrapHue_turns (h : ℚ) :
    ∃ n : ℤ, wrapHue h = h + 360 * n ∧ 0 ≤ wrapHue h ∧ wrapHue h < 360 := by
  obtain ⟨n, hn, hneg, hpos⟩ := Scalar.remainder_exact h (y := 360) (by norm_num)
  unfold wrapHue
  by_cases hrest : Scalar.remainder h 360 < 0
  · have hlow : -360 < Scalar.remainder h 360 :=
      (hneg (not_le.1 fun hh => absurd hrest (not_lt.2 (hpos hh).1))).1
    have hturned : ¬360 ≤ Scalar.remainder h 360 + 360 := by linarith
    simp only [if_pos hrest, if_neg hturned]
    refine ⟨1 - n, ?_, by linarith, by linarith⟩
    rw [hn]
    push_cast
    ring
  · have hhigh : Scalar.remainder h 360 < 360 := by
      rcases lt_or_ge h 0 with hh | hh
      · linarith [(hneg hh).2]
      · exact (hpos hh).2
    simp only [if_neg hrest, if_neg (not_le.2 hhigh)]
    refine ⟨-n, ?_, not_lt.1 hrest, hhigh⟩
    rw [hn]
    push_cast
    ring

/-- A wrapped hue is the fraction of a turn, in degrees. -/
theorem Hsl.wrapHue_exact (h : ℚ) : wrapHue h = 360 * Int.fract (h / 360) := by
  obtain ⟨n, hn, hlow, hhigh⟩ := wrapHue_turns h
  have hfract : Int.fract (h / 360) = wrapHue h / 360 := by
    refine Int.fract_eq_iff.2 ⟨by linarith, by linarith, -n, ?_⟩
    rw [hn, Int.cast_neg]
    ring
  rw [hfract]
  ring

namespace Hsl

theorem wrapHue_mem (h : ℚ) : wrapHue h ∈ Set.Ico 0 360 := by
  obtain ⟨_, _, hlow, hhigh⟩ := wrapHue_turns h
  exact ⟨hlow, hhigh⟩

/-- A hue of less than one turn is wrapped already. -/
theorem wrapHue_of_mem {h : ℚ} (hh : h ∈ Set.Ico 0 360) : wrapHue h = h := by
  obtain ⟨hlow, hhigh⟩ := hh
  have hfract : Int.fract (h / 360) = h / 360 :=
    Int.fract_eq_self.2 ⟨by linarith, by linarith⟩
  rw [wrapHue_exact, hfract]
  ring

/-- Whole turns do not change a wrapped hue. -/
theorem wrapHue_add_turns (h : ℚ) (n : ℤ) : wrapHue (h + 360 * n) = wrapHue h := by
  have hturns : (h + 360 * n) / 360 = h / 360 + n := by ring
  rw [wrapHue_exact, wrapHue_exact, hturns, Int.fract_add_intCast]

/-- It makes no difference whether a hue is wrapped before something is added to it. -/
theorem wrapHue_wrapHue_add (a b : ℚ) : wrapHue (wrapHue a + b) = wrapHue (a + b) := by
  obtain ⟨n, hn, _, _⟩ := wrapHue_turns a
  have hturns : wrapHue a + b = a + b + 360 * n := by
    rw [hn]
    ring
  rw [hturns, wrapHue_add_turns]

end Hsl

/-! ## Checked rationals -/

/-- A rational, unless a zero was divided by on the way to it. -/
inductive Checked where
  | of (x : ℚ)
  | undefined

namespace Checked

/-- An operation on defined scalars. -/
def lift (f : ℚ → ℚ → Checked) : Checked → Checked → Checked
  | of x, of y => f x y
  | _, _ => undefined

/-- A relation of defined scalars. -/
def test (p : ℚ → ℚ → Bool) : Checked → Checked → Bool
  | of x, of y => p x y
  | _, _ => false

instance : Scalar Checked where
  add := lift fun x y => of (x + y)
  sub := lift fun x y => of (x - y)
  mul := lift fun x y => of (x * y)
  div := lift fun x y => if y = 0 then undefined else of (x / y)
  lt x y := test (fun x y => x < y) x y
  le x y := test (fun x y => x ≤ y) x y
  beq := test (· == ·)
  literal n := ⟨of (OfNat.ofNat n)⟩
  decidableLt _ _ := inferInstanceAs (Decidable (_ = true))
  decidableLe _ _ := inferInstanceAs (Decidable (_ = true))
  remainder := lift fun x y => if y = 0 then undefined else of (Scalar.remainder x y)

variable (x y : ℚ)

@[simp] theorem of_add : of x + of y = of (x + y) := rfl
@[simp] theorem of_sub : of x - of y = of (x - y) := rfl
@[simp] theorem of_mul : of x * of y = of (x * y) := rfl
@[simp] theorem of_lt : of x < of y ↔ x < y := decide_eq_true_iff
@[simp] theorem of_le : of x ≤ of y ↔ x ≤ y := decide_eq_true_iff
@[simp] theorem of_beq : (of x == of y) = (x == y) := rfl

@[simp] theorem ite_of (c : Prop) [Decidable c] : (if c then of x else of y) = of (if c then x else y) :=
  (apply_ite of c x y).symm

theorem of_div {x y : ℚ} (hy : y ≠ 0) : of x / of y = of (x / y) := if_neg hy

theorem ofNat_eq (n : ℕ) : (OfNat.ofNat n : Checked) = of (OfNat.ofNat n) := rfl

@[simp] theorem larger_of : Scalar.larger (of x) (of y) = of (Scalar.larger x y) := by
  simp only [Scalar.larger, of_beq, of_lt, ite_of]

@[simp] theorem smaller_of : Scalar.smaller (of x) (of y) = of (Scalar.smaller x y) := by
  simp only [Scalar.smaller, of_beq, of_lt, ite_of]

theorem remainder_of {x y : ℚ} (hy : y ≠ 0) :
    Scalar.remainder (of x) (of y) = of (Scalar.remainder x y) := if_neg hy

end Checked

namespace Hsl

open Checked

/-- A hue, a saturation and a lightness as checked rationals. -/
def checked (c : Hsl ℚ) : Hsl Checked := ⟨of c.hue, of c.saturation, of c.lightness⟩

theorem wrapHue_of (h : ℚ) : wrapHue (of h) = of (wrapHue h) := by
  have hturn : (360 : ℚ) ≠ 0 := by norm_num
  simp only [wrapHue, ofNat_eq, remainder_of hturn, of_lt, of_le, of_add, ite_of]

theorem sextant_of {red green blue top spread : ℚ} (h : spread ≠ 0) :
    sextant (of red) (of green) (of blue) (of top) (of spread) =
      of (sextant red green blue top spread) := by
  simp only [sextant, of_beq, of_sub, of_div h, of_lt, ofNat_eq, of_add, ite_of]

end Hsl

end StyleScript
