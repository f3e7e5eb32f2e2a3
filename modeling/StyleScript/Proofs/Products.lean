-- SUMMARY: Units are products: exponents add up and subtract, and the names that are left keep their order.
import Mathlib.Data.List.Count
import StyleScript.Units

/-!
# Units as products

A name has an exponent in units: how often it stands above less how often it stands
below. Units that are read from a text, multiplied and divided are always cancelled, so
a name stands on one side of them at most, and its exponent tells how often.

Cancelling goes through the names above and looks each one up among the names below.
What it leaves is the difference of the two lists of names, taken both ways: of a name
that stands on both sides the first ones go, and the others stay as they were.

Main statement: exponents add up in a product and subtract in a quotient, the names that
are left are in the order in which they were, and units without names are those in which
all exponents are zero.
-/

namespace StyleScript.Units

/-- Units that come about: they are read from a text, multiplied and divided. -/
inductive Reachable : Units → Prop where
  | ofText (text : String) : Reachable (ofText text)
  | mul {u v} : Reachable u → Reachable v → Reachable (u.mul v)
  | div {u v} : Reachable u → Reachable v → Reachable (u.div v)

example : unitless = ofText "" ∧ percent = ofText "%" ∧ degrees = ofText "deg" := by decide +kernel

/-- How often a name stands above, less how often it stands below. -/
def exponent (u : Units) (name : String) : Int :=
  u.numerator.count name - u.denominator.count name

/-- No name stands on both sides. -/
def Cancelled (u : Units) : Prop := u.numerator.Disjoint u.denominator

variable {u : Units}

/-! ## Cancelling -/

/-- Of the names that stand on both sides the first ones go. -/
theorem cancelNames_eq_diff (above below : List String) :
    cancelNames above below = (above.diff below, below.diff above) := by
  induction above generalizing below with
  | nil => simp [cancelNames]
  | cons name above ih =>
    by_cases h : name ∈ below
    · simp [cancelNames, h, ih, List.cons_diff_of_mem]
    · simp [cancelNames, h, ih, List.cons_diff_of_not_mem, List.erase_of_not_mem]

@[simp] theorem numerator_ofNames (above below : List String) :
    (ofNames above below).numerator = above.diff below := by
  simp [ofNames, cancelNames_eq_diff]

@[simp] theorem denominator_ofNames (above below : List String) :
    (ofNames above below).denominator = below.diff above := by
  simp [ofNames, cancelNames_eq_diff]

theorem sublist_ofNames (above below : List String) :
    (ofNames above below).numerator.Sublist above ∧ (ofNames above below).denominator.Sublist below := by
  rw [numerator_ofNames, denominator_ofNames]
  exact ⟨List.diff_sublist .., List.diff_sublist ..⟩

theorem exponent_ofNames (above below : List String) (name : String) :
    (ofNames above below).exponent name = above.count name - below.count name := by
  simp only [exponent, numerator_ofNames, denominator_ofNames, List.count_diff]
  omega

theorem cancelled_ofNames (above below : List String) : (ofNames above below).Cancelled := by
  intro name habove hbelow
  simp only [numerator_ofNames, denominator_ofNames] at habove hbelow
  rw [← List.count_pos_iff, List.count_diff] at habove hbelow
  omega

/-! ## Products and quotients -/

@[simp] theorem numerator_inverse (u : Units) : u.inverse.numerator = u.denominator := rfl

@[simp] theorem denominator_inverse (u : Units) : u.inverse.denominator = u.numerator := rfl

@[simp] theorem exponent_inverse (u : Units) (name : String) :
    u.inverse.exponent name = -u.exponent name :=
  (Int.neg_sub ..).symm

theorem exponent_mul (u v : Units) (name : String) :
    (u.mul v).exponent name = u.exponent name + v.exponent name := by
  rw [mul, exponent_ofNames]
  simp only [exponent, List.count_append]
  omega

theorem exponent_div (u v : Units) (name : String) :
    (u.div v).exponent name = u.exponent name - v.exponent name := by
  simp [div, exponent_mul, Int.sub_eq_add_neg]

/-- Every way to come about ends with cancelling. -/
theorem Reachable.cancelled (h : u.Reachable) : u.Cancelled := by
  cases h with
  | ofText text => exact cancelled_ofNames _ _
  | mul => exact cancelled_ofNames _ _
  | div => exact cancelled_ofNames _ _

/-! ## Exponents of cancelled units -/

theorem Cancelled.count_numerator (h : u.Cancelled) (name : String) :
    u.numerator.count name = (u.exponent name).toNat := by
  by_cases habove : name ∈ u.numerator
  · have hbelow : u.denominator.count name = 0 := List.count_eq_zero.2 (h habove)
    simp [exponent, hbelow]
  · simp [exponent, List.count_eq_zero.2 habove]

theorem Cancelled.count_denominator (h : u.Cancelled) (name : String) :
    u.denominator.count name = (-u.exponent name).toNat := by
  have hinverse : u.inverse.Cancelled := List.disjoint_symm h
  simpa using hinverse.count_numerator name

theorem eq_nil_of_count_eq_zero {names : List String} (h : ∀ name, names.count name = 0) :
    names = [] :=
  List.eq_nil_iff_forall_not_mem.2 fun name => List.count_eq_zero.1 (h name)

/-- Units in which all exponents are zero have no names. -/
theorem Cancelled.isUnitless_iff_exponent (h : u.Cancelled) :
    u.isUnitless = true ↔ ∀ name, u.exponent name = 0 := by
  rw [isUnitless_iff]
  constructor
  · rintro rfl name
    rfl
  · intro hzero
    have habove : u.numerator = [] :=
      eq_nil_of_count_eq_zero fun name => by simp [h.count_numerator, hzero]
    have hbelow : u.denominator = [] :=
      eq_nil_of_count_eq_zero fun name => by simp [h.count_denominator, hzero]
    obtain ⟨above, below⟩ := u
    simp_all [unitless]

/-- What is read, multiplied and divided is a product of names: no name stands on both
    sides, exponents are those of the names that are written, add up and subtract, the
    names that are left on a side keep their order, and there are none exactly when all
    exponents are zero. -/
theorem reachable_products (hu : u.Reachable) (v : Units) :
    (∀ name, ¬(name ∈ u.numerator ∧ name ∈ u.denominator)) ∧
    (∀ text name, (ofText text).exponent name =
      (namesOf (Text.cut '/' text.toList).1).count name -
        (namesOf (Text.cut '/' text.toList).2).count name) ∧
    (∀ name, (u.mul v).exponent name = u.exponent name + v.exponent name) ∧
    (∀ name, (u.div v).exponent name = u.exponent name - v.exponent name) ∧
    (∀ text, (ofText text).numerator.Sublist (namesOf (Text.cut '/' text.toList).1) ∧
      (ofText text).denominator.Sublist (namesOf (Text.cut '/' text.toList).2)) ∧
    ((u.mul v).numerator.Sublist (u.numerator ++ v.numerator) ∧
      (u.mul v).denominator.Sublist (u.denominator ++ v.denominator)) ∧
    ((u.div v).numerator.Sublist (u.numerator ++ v.denominator) ∧
      (u.div v).denominator.Sublist (u.denominator ++ v.numerator)) ∧
    (u.isUnitless = true ↔ ∀ name, u.exponent name = 0) :=
  ⟨fun _ h => hu.cancelled h.1 h.2, fun _ => exponent_ofNames _ _, exponent_mul u v,
    exponent_div u v, fun _ => sublist_ofNames _ _, sublist_ofNames _ _, sublist_ofNames _ _,
    hu.cancelled.isUnitless_iff_exponent⟩

/-- `px*em*px/s` times `s*em/px` is `em*px*em`: the first `px` goes, and the second one
    stays behind `em`. -/
theorem repeated_products :
    let u := ofText "px*em*px/s"
    let v := ofText "s*em/px"
    u.Reachable ∧ u.mul v = ⟨["em", "px", "em"], []⟩ ∧
      (u.mul v).exponent "px" = u.exponent "px" + v.exponent "px" ∧
      (u.mul v).numerator.Sublist (u.numerator ++ v.numerator) := by
  intro u v
  have hu : u.Reachable := .ofText _
  obtain ⟨_, _, hmul, _, _, ⟨hsublist, _⟩, _⟩ := reachable_products hu v
  exact ⟨hu, by decide +kernel, hmul "px", hsublist⟩

end StyleScript.Units
