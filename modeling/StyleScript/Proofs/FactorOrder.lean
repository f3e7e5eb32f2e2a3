-- SUMMARY: Units with the same exponents have the same names, and they are equal when the names stand in the same order.
import Mathlib.Data.List.Perm.Basic
import StyleScript.Number
import StyleScript.Proofs.Products

/-!
# The order of factors

A product does not depend on the order of its factors, but units are compared as they
are written: `px*em` and `em*px` have the same exponents and are different units, which
are not compatible. Products and quotients leave the names in an order that tells how
they were computed, so units that are the same product need not be equal.

Main statement: units with the same exponents have on each side the same names equally
often. They are equal exactly when the names are in the same order, and only then can
numbers with such units be added and compared.
-/

namespace StyleScript

namespace Units

/-- On each side the same names, equally often. -/
def SameProduct (u v : Units) : Prop :=
  u.numerator.Perm v.numerator ∧ u.denominator.Perm v.denominator

/-- No side has two different names. -/
def OneName (u : Units) : Prop :=
  (∀ x ∈ u.numerator, ∀ y ∈ u.numerator, x = y) ∧ ∀ x ∈ u.denominator, ∀ y ∈ u.denominator, x = y

/-- All names of units. -/
def names (u : Units) : List String := u.numerator ++ u.denominator

variable {u v : Units}

/-! ## The same exponents -/

theorem SameProduct.exponent (h : u.SameProduct v) (name : String) :
    u.exponent name = v.exponent name := by
  simp [Units.exponent, h.1.count_eq, h.2.count_eq]

/-- Exponents tell the names of cancelled units, but for their order. -/
theorem Cancelled.sameProduct_iff (hu : u.Cancelled) (hv : v.Cancelled) :
    u.SameProduct v ↔ ∀ name, u.exponent name = v.exponent name := by
  constructor
  · exact SameProduct.exponent
  · intro h
    constructor
    · apply List.perm_iff_count.2
      intro name
      rw [hu.count_numerator, hv.count_numerator, h]
    · apply List.perm_iff_count.2
      intro name
      rw [hu.count_denominator, hv.count_denominator, h]

theorem SameProduct.isUnitless (h : u.SameProduct v) : u.isUnitless = v.isUnitless := by
  simp [Units.isUnitless, h.1.isEmpty_eq, h.2.isEmpty_eq]

/-- Units that are the same product are compatible only when they are equal. -/
theorem SameProduct.compatible_iff (h : u.SameProduct v) : u.compatible v = true ↔ u = v := by
  constructor
  · intro hcompatible
    simp only [compatible, Bool.or_eq_true, beq_iff_eq] at hcompatible
    rcases hcompatible with (hu | hv) | heq
    · have hv : v.isUnitless = true := by rw [← h.isUnitless, hu]
      rw [isUnitless_iff.1 hu, isUnitless_iff.1 hv]
    · have hu : u.isUnitless = true := by rw [h.isUnitless, hv]
      rw [isUnitless_iff.1 hu, isUnitless_iff.1 hv]
    · exact heq
  · rintro rfl
    simp [compatible]

/-- There is only one order of names that are all the same. -/
theorem eq_of_perm {names names' : List String} (h : names.Perm names')
    (hone : ∀ x ∈ names, ∀ y ∈ names, x = y) : names = names' := by
  cases names with
  | nil => exact h.nil_eq
  | cons name names =>
    have hall : name :: names = List.replicate (names.length + 1) name :=
      List.eq_replicate_of_mem fun x hx => hone x hx name List.mem_cons_self
    rw [hall] at h ⊢
    exact (List.perm_replicate.1 h.symm).symm

theorem SameProduct.eq_of_oneName (h : u.SameProduct v) (hone : u.OneName) : u = v := by
  obtain ⟨above, below⟩ := u
  obtain ⟨above', below'⟩ := v
  obtain rfl := eq_of_perm h.1 hone.1
  obtain rfl := eq_of_perm h.2 hone.2
  rfl

/-! ## Products and quotients -/

theorem sameProduct_mul_comm (u v : Units) : (u.mul v).SameProduct (v.mul u) := by
  have hu : (u.mul v).Cancelled := cancelled_ofNames _ _
  have hv : (v.mul u).Cancelled := cancelled_ofNames _ _
  apply (hu.sameProduct_iff hv).2
  intro name
  simp [exponent_mul, Int.add_comm]

theorem Cancelled.sameProduct_div_mul (hu : u.Cancelled) (v : Units) :
    ((u.div v).mul v).SameProduct u := by
  have hmul : ((u.div v).mul v).Cancelled := cancelled_ofNames _ _
  apply (hmul.sameProduct_iff hu).2
  intro name
  simp [exponent_mul, exponent_div]

/-! ## Units that share no name -/

/-- Names that are not looked up stay, and names that are looked up often enough go. -/
theorem append_diff {names more gone : List String} (h : names.Disjoint gone)
    (hmore : ∀ name, more.count name ≤ gone.count name) : (names ++ more).diff gone = names := by
  induction gone generalizing more with
  | nil =>
    have hnil : more = [] := eq_nil_of_count_eq_zero fun name => Nat.le_zero.1 (hmore name)
    simp [hnil]
  | cons name gone ih =>
    have hname : name ∉ names := fun hmem => h hmem List.mem_cons_self
    rw [List.diff_cons, List.erase_append_right _ hname]
    apply ih fun x hx hgone => h hx (List.mem_cons_of_mem _ hgone)
    intro x
    have hx := hmore x
    simp only [List.count_cons, List.count_erase] at hx ⊢
    omega

theorem diff_of_disjoint {names gone : List String} (h : names.Disjoint gone) :
    names.diff gone = names := by
  have hnone (name : String) : ([] : List String).count name ≤ gone.count name := Nat.zero_le _
  simpa using append_diff h hnone

theorem ofNames_of_disjoint {above below : List String} (h : above.Disjoint below) :
    ofNames above below = ⟨above, below⟩ := by
  simp [ofNames, cancelNames_eq_diff, diff_of_disjoint h, diff_of_disjoint (List.disjoint_symm h)]

/-- Dividing by units and multiplying with them changes nothing in units that share no
    name with them: their names are put behind the others, and cancelled there. -/
theorem div_mul_of_disjoint (hu : u.Cancelled) (hv : v.Cancelled) (h : u.names.Disjoint v.names) :
    (u.div v).mul v = u := by
  obtain ⟨above, below⟩ := u
  obtain ⟨above', below'⟩ := v
  simp only [names, List.disjoint_append_left, List.disjoint_append_right] at h
  obtain ⟨⟨haa, hba⟩, hab, hbb⟩ := h
  have hdiv : (above ++ below').Disjoint (below ++ above') := by
    simp only [List.disjoint_append_left, List.disjoint_append_right]
    exact ⟨⟨hu, List.disjoint_symm hbb⟩, haa, List.disjoint_symm hv⟩
  have habove : above.Disjoint (below ++ above' ++ below') := by
    simp only [List.disjoint_append_right]
    exact ⟨⟨hu, haa⟩, hab⟩
  have hbelow : below.Disjoint (above ++ below' ++ above') := by
    simp only [List.disjoint_append_right]
    exact ⟨⟨List.disjoint_symm hu, hbb⟩, hba⟩
  have hquotient : div ⟨above, below⟩ ⟨above', below'⟩ = ⟨above ++ below', below ++ above'⟩ :=
    ofNames_of_disjoint hdiv
  rw [hquotient, mul, ofNames, cancelNames_eq_diff]
  simp only [List.append_assoc] at habove hbelow ⊢
  congr 1
  · apply append_diff habove
    intro name
    simp only [List.count_append]
    omega
  · apply append_diff hbelow
    intro name
    simp only [List.count_append]
    omega

end Units

namespace Number

variable {a b : Number}

/-! ## Numbers -/

/-- Numbers whose units are the same product have common units only when these are
    equal. -/
theorem commonUnits_fails_iff (operation : String) (h : a.units.SameProduct b.units) :
    (∃ e, commonUnits operation a b = .error e ∧ e.kind = .unit) ↔ a.units ≠ b.units := by
  rw [ne_eq, ← h.compatible_iff]
  unfold commonUnits
  split
  · simp [*]
  · simp [*, Cause.kind]

theorem add_fails_iff (h : a.units.SameProduct b.units) :
    (∃ e, a.add b = .error e ∧ e.kind = .unit) ↔ a.units ≠ b.units := by
  rw [← commonUnits_fails_iff "+" h, add]
  cases commonUnits "+" a b <;> simp [Except.map]

/-- Comparing may also fail because a magnitude is not a number, but not for its units. -/
theorem compare_fails_iff (h : a.units.SameProduct b.units) :
    (∃ e, a.compare b = .error e ∧ e.kind = .unit) ↔ a.units ≠ b.units := by
  rw [← commonUnits_fails_iff "comparison" h, compare]
  cases commonUnits "comparison" a b with
  | error e => simp [Except.bind]
  | ok units =>
    simp only [Except.bind, reduceCtorEq, false_and, exists_false, iff_false]
    rintro ⟨e, he, hkind⟩
    split_ifs at he
    cases he
    cases hkind

/-- Units with the same exponents have the same names, and are equal exactly when these
    are in the same order, as they are when no side has two different names. Only then are
    they compatible, and can numbers with such units be added and compared. Products of
    the same numbers have the same names, and so has a quotient that is multiplied by its
    divisor, which is equal if the numbers share no name. -/
theorem units_equal_up_to_order (ha : a.units.Reachable) (hb : b.units.Reachable) :
    ((∀ name, a.units.exponent name = b.units.exponent name) ↔ a.units.SameProduct b.units) ∧
    (a.units.SameProduct b.units →
      (a.units.compatible b.units = true ↔ a.units = b.units) ∧
      (a.units.OneName → a.units = b.units) ∧
      ((∃ e, a.add b = .error e ∧ e.kind = .unit) ↔ a.units ≠ b.units) ∧
      ((∃ e, a.compare b = .error e ∧ e.kind = .unit) ↔ a.units ≠ b.units)) ∧
    (a.mul b).units.SameProduct (b.mul a).units ∧
    ((a.div b).mul b).units.SameProduct a.units ∧
    (a.units.names.Disjoint b.units.names → ((a.div b).mul b).units = a.units) := by
  refine ⟨(ha.cancelled.sameProduct_iff hb.cancelled).symm, fun h => ?_,
    Units.sameProduct_mul_comm _ _, ha.cancelled.sameProduct_div_mul _,
    Units.div_mul_of_disjoint ha.cancelled hb.cancelled⟩
  exact ⟨h.compatible_iff, h.eq_of_oneName, add_fails_iff h, compare_fails_iff h⟩

/-- `1px*em` -/
private def area : Number := ⟨1, .ofText "px*em"⟩

/-- `1px` -/
private def width : Number := ⟨1, .ofText "px"⟩

/-- `1em` -/
private def height : Number := ⟨1, .ofText "em"⟩

theorem area_equal_up_to_order :
    area.units.Reachable ∧ width.units.Reachable ∧
      ((area.div width).mul width).units.SameProduct area.units ∧
      ((area.div width).mul width).units ≠ area.units := by
  have harea : area.units.Reachable := .ofText _
  have hwidth : width.units.Reachable := .ofText _
  obtain ⟨_, _, _, hsame, _⟩ := units_equal_up_to_order harea hwidth
  exact ⟨harea, hwidth, hsame, by decide +kernel⟩

/-- `1px * 1em` and `1em * 1px` have the same exponents and cannot be added, and
    `1px*em / 1px * 1px` has other units than `1px*em`. -/
theorem units_depend_on_order :
    width.units.Reachable ∧ height.units.Reachable ∧ area.units.Reachable ∧
      (∀ name, (width.mul height).units.exponent name = (height.mul width).units.exponent name) ∧
      (width.mul height).units ≠ (height.mul width).units ∧
      (width.mul height).units.compatible (height.mul width).units = false ∧
      (∃ e, (width.mul height).add (height.mul width) = .error e ∧ e.kind = .unit) ∧
      (∃ e, (width.mul height).compare (height.mul width) = .error e ∧ e.kind = .unit) ∧
      ((area.div width).mul width).units ≠ area.units := by
  have hsame : (width.mul height).units.SameProduct (height.mul width).units :=
    Units.sameProduct_mul_comm _ _
  have hne : (width.mul height).units ≠ (height.mul width).units := by decide +kernel
  exact ⟨.ofText _, .ofText _, .ofText _, hsame.exponent, hne, by decide +kernel,
    (add_fails_iff hsame).2 hne, (compare_fails_iff hsame).2 hne, by decide +kernel⟩

end Number

end StyleScript
