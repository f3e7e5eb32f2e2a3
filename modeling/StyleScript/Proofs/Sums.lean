-- SUMMARY: Numbers can be added up in any order and with any brackets, or in none.
import Mathlib.Data.List.Perm.Basic
import StyleScript.Number

/-!
# Sums

Many numbers are added up two at a time, as the brackets say. Two numbers can be added when they
have the same units or when one of them has none. This relation is not transitive, because a
number without units goes with all others. Still no conflict is lost: a partial sum has the units
of the numbers in it that have any, so it meets every other partial sum with them.

Main statement: numbers can be added up exactly when all those with units have the same ones.
-/

namespace StyleScript

/-! ## Common units -/

namespace Number

variable {a b : Number}

theorem add_of_compatible (h : a.units.compatible b.units = true) :
    a.add b = .ok ⟨a.value + b.value, if a.units.isUnitless then b.units else a.units⟩ := by
  rw [add, commonUnits, if_pos h]
  rfl

theorem add_of_not_compatible (h : ¬a.units.compatible b.units = true) :
    ∃ e, a.add b = .error e ∧ e.kind = .unit := by
  rw [add, commonUnits, if_neg h]
  exact ⟨_, rfl, rfl⟩

end Number

/-- Numbers of which all those with units have the same ones. -/
def SameUnits (numbers : List Number) : Prop :=
  ∀ a ∈ numbers, ∀ b ∈ numbers, a.isUnitless = false → b.isUnitless = false → a.units = b.units

/-- The units of all those numbers that have any. They are not made up: without such a number
    there are none. -/
structure Units.CommonTo (units : Units) (numbers : List Number) : Prop where
  shared : ∀ n ∈ numbers, n.isUnitless = false → n.units = units
  present : units.isUnitless = false → ∃ n ∈ numbers, n.units = units

namespace Units.CommonTo

variable {u v : Units} {xs ys : List Number}

theorem single (n : Number) : n.units.CommonTo [n] where
  shared := List.forall_mem_singleton.2 fun _ => rfl
  present _ := ⟨n, List.mem_singleton_self n, rfl⟩

theorem sameUnits (h : u.CommonTo xs) : SameUnits xs := fun a ha b hb hua hub =>
  (h.shared a ha hua).trans (h.shared b hb hub).symm

/-- Numbers with units occur exactly when there are common units. -/
theorem isUnitless_iff (h : u.CommonTo xs) :
    u.isUnitless = true ↔ ∀ n ∈ xs, n.isUnitless = true := by
  constructor
  · intro hu n hn
    cases hunits : n.isUnitless with
    | true => rfl
    | false =>
      have hshared := h.shared n hn hunits
      rw [Number.isUnitless, hshared, hu] at hunits
      exact hunits.symm
  · intro hall
    cases hu : u.isUnitless with
    | true => rfl
    | false =>
      obtain ⟨n, hn, rfl⟩ := h.present hu
      exact hu.symm.trans (hall n hn)

/-- Of two lists of numbers with compatible units, the side that has units gives them. -/
theorem append (hx : u.CommonTo xs) (hy : v.CommonTo ys) (h : u.compatible v = true) :
    (if u.isUnitless then v else u).CommonTo (xs ++ ys) := by
  cases hu : u.isUnitless with
  | true =>
    refine ⟨List.forall_mem_append.2 ⟨fun n hn hunits => ?_, hy.shared⟩, fun hv => ?_⟩
    · exact absurd (hx.isUnitless_iff.1 hu n hn) (Bool.eq_false_iff.1 hunits)
    · obtain ⟨n, hn, hnv⟩ := hy.present hv
      exact ⟨n, List.mem_append_right xs hn, hnv⟩
  | false =>
    refine ⟨List.forall_mem_append.2 ⟨hx.shared, fun n hn hunits => ?_⟩, fun _ => ?_⟩
    · have hnv := hy.shared n hn hunits
      have hv : v.isUnitless = false := hnv ▸ hunits
      rw [compatible, hu, hv] at h
      exact hnv.trans (beq_iff_eq.1 h).symm
    · obtain ⟨n, hn, hnu⟩ := hx.present hu
      exact ⟨n, List.mem_append_left ys hn, hnu⟩

/-- Units that are not compatible are those of two numbers, which differ. -/
theorem not_sameUnits_append (hx : u.CommonTo xs) (hy : v.CommonTo ys)
    (h : ¬u.compatible v = true) : ¬SameUnits (xs ++ ys) := by
  simp only [compatible, Bool.or_eq_true, beq_iff_eq, not_or, Bool.not_eq_true] at h
  obtain ⟨⟨hu, hv⟩, hne⟩ := h
  obtain ⟨a, ha, rfl⟩ := hx.present hu
  obtain ⟨b, hb, rfl⟩ := hy.present hv
  exact fun hsame =>
    hne (hsame a (List.mem_append_left ys ha) b (List.mem_append_right xs hb) hu hv)

end Units.CommonTo

namespace SameUnits

variable {xs ys : List Number}

theorem of_subset (h : SameUnits ys) (hsubset : xs ⊆ ys) : SameUnits xs := fun a ha b hb =>
  h a (hsubset ha) b (hsubset hb)

end SameUnits

/-! ## Adding up -/

/-- Numbers with brackets around every two summands. -/
inductive Summation where
  | number (n : Number)
  | plus (left right : Summation)

namespace Summation

/-- The numbers from left to right. -/
def numbers : Summation → List Number
  | number n => [n]
  | plus left right => left.numbers ++ right.numbers

/-- Add up as the brackets say. -/
def total : Summation → Except Error Number
  | number n => .ok n
  | plus left right => do
    let a ← left.total
    let b ← right.total
    a.add b

/-- What adding up comes to: a sum in the common units, or an error for units that differ. -/
inductive Totals (numbers : List Number) : Except Error Number → Prop where
  | sum {n : Number} : n.units.CommonTo numbers → Totals numbers (.ok n)
  | conflict {e : Error} : ¬SameUnits numbers → e.kind = .unit → Totals numbers (.error e)

variable {xs ys : List Number} {a b : Number}

theorem totals_add (ha : a.units.CommonTo xs) (hb : b.units.CommonTo ys) :
    Totals (xs ++ ys) (a.add b) := by
  by_cases h : a.units.compatible b.units = true
  · rw [Number.add_of_compatible h]
    exact .sum (ha.append hb h)
  · obtain ⟨e, hadd, hkind⟩ := Number.add_of_not_compatible h
    rw [hadd]
    exact .conflict (ha.not_sameUnits_append hb h) hkind

theorem totals_total (s : Summation) : Totals s.numbers s.total := by
  induction s with
  | number n => exact .sum (.single n)
  | plus left right ihl ihr =>
    rw [numbers, total]
    generalize left.total = x at ihl
    generalize right.total = y at ihr
    cases ihl with
    | conflict hleft hkind =>
      exact .conflict (fun h => hleft (h.of_subset (List.subset_append_left _ _))) hkind
    | sum ha =>
      cases ihr with
      | conflict hright hkind =>
        exact .conflict (fun h => hright (h.of_subset (List.subset_append_right _ _))) hkind
      | sum hb => exact totals_add ha hb

/-- Whatever the order of numbers and the brackets are, they can be added up exactly when all
    those with units have the same ones. The sum then has these units, and none if no number has
    any. Otherwise it is the units that are wrong. -/
theorem total_in_any_order {given : List Number} {s : Summation} (h : s.numbers.Perm given) :
    ((∃ n, s.total = .ok n) ↔ SameUnits given) ∧
    (∀ n, s.total = .ok n →
      (∀ a ∈ given, a.isUnitless = false → n.units = a.units) ∧
      ((∀ a ∈ given, a.isUnitless = true) → n.units = .unitless)) ∧
    (∀ e, s.total = .error e → e.kind = .unit) := by
  have hsame : SameUnits s.numbers ↔ SameUnits given :=
    ⟨fun hs => hs.of_subset h.symm.subset, fun hg => hg.of_subset h.subset⟩
  have htotals := s.totals_total
  generalize s.total = x at htotals
  cases htotals with
  | @sum n hn =>
    refine ⟨?_, ?_, nofun⟩
    · simp [← hsame, hn.sameUnits]
    · rintro _ ⟨⟩
      refine ⟨fun a ha hunits => (hn.shared a (h.mem_iff.2 ha) hunits).symm, fun hall => ?_⟩
      exact Units.isUnitless_iff.1 (hn.isUnitless_iff.2 fun a ha => hall a (h.mem_iff.1 ha))
  | @conflict e hdiffer hkind =>
    refine ⟨?_, nofun, ?_⟩
    · simp [← hsame, hdiffer]
    · rintro _ ⟨⟩
      exact hkind

/-- `1 + (2px + 3)` adds up `2px`, `3` and `1`, and has the units of the first. -/
theorem total_pixels :
    let s : Summation :=
      .plus (.number (.unitless 1)) (.plus (.number ⟨2, .single "px"⟩) (.number (.unitless 3)))
    let given : List Number := [⟨2, .single "px"⟩, .unitless 3, .unitless 1]
    s.numbers.Perm given ∧ SameUnits given ∧ ∃ n, s.total = .ok n ∧ n.units = .single "px" := by
  intro s given
  have hperm : s.numbers.Perm given :=
    @List.perm_append_comm Number [_] [_, _]
  obtain ⟨hiff, hunits, _⟩ := total_in_any_order hperm
  have htotal : ∃ n, s.total = .ok n := ⟨_, rfl⟩
  obtain ⟨n, hn⟩ := htotal
  exact ⟨hperm, hiff.1 ⟨n, hn⟩, n, hn, (hunits n hn).1 ⟨2, .single "px"⟩ List.mem_cons_self rfl⟩

end Summation

end StyleScript
