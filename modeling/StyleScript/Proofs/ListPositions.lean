-- SUMMARY: `nth` counts from both ends of a list and stays inside it, in unsigned numbers.
import StyleScript.Proofs.JoinedLists
import StyleScript.Proofs.WholeDoubles

/-!
# Positions in a list

The item at a position is found with doubles and unsigned numbers. The rounded position is compared
with the number of items, as doubles, before it becomes an unsigned number, and this is taken from
the number of items when the position counts from the end. A difference below zero would stop the
computation, and so would an item that is not there. Neither occurs as long as the number of items
is exact as a double.

Main statement: `nth` gives the item at the whole number other than zero that its position is near
to, counted from one end or the other, and refuses every other position.
-/

namespace StyleScript

namespace Binary64

open Float.Model

variable {x : Float} {b : Bool} {v : ℚ} {r : ℕ}

/-! ## Doubles and unsigned numbers -/

/-- A power of two as a whole number over a whole number. -/
theorem two_zpow_eq (e : ℤ) : (2 : ℚ) ^ e = 2 ^ e.toNat / 2 ^ (-e).toNat := by
  rw [← zpow_natCast, ← zpow_natCast, ← zpow_sub₀ two_ne_zero]
  congr 1
  omega

/-- A whole number that unsigned numbers reach is read from its double. -/
theorem Stands.toNat_toUInt64 (h : Stands x false r) (hr : r < 2 ^ 64) : x.toUInt64.toNat = r := by
  obtain ⟨m, e, hparts, hvalue⟩ := h
  have hint : UnpackedFloat.toInt 0 (UInt64.size - 1) x.toModel.unpack = r := by
    rcases Nat.eq_zero_or_pos m with rfl | hm
    · rw [unpack_of_parts_zero hparts]
      have hzero : r = 0 := by simpa using hvalue.symm
      rw [hzero]
      rfl
    · rw [unpack_of_parts hparts hm]
      have hshift : (0 - (e - (e.toNat : ℤ))).toNat = (-e).toNat := by omega
      simp only [UnpackedFloat.toInt, UnpackedFloat.roundToInt, UnpackedFloat.decreaseExponent,
        UnpackedFloat.shiftToExponent, sub_zero, hshift, Nat.shiftLeft_eq]
      have hdescribes := (describes_exact (m * 2 ^ e.toNat)).shiftRight (-e).toNat
      have hwhole : ((m * 2 ^ e.toNat : ℕ) / 2 ^ (-e).toNat : ℚ) = r := by
        rw [← hvalue, two_zpow_eq, mul_div_assoc']
        push_cast
        rfl
      rw [hwhole] at hdescribes
      have hle := hdescribes.le
      have hlt := hdescribes.lt
      norm_cast at hle hlt
      exact congrArg Nat.cast (by omega)
  have hconvert : x.toUInt64 = UInt64.ofNatClamp (r : ℤ).toNat :=
    congrArg (fun k : ℤ => UInt64.ofNatClamp k.toNat) hint
  rw [hconvert, Int.toNat_natCast, UInt64.toNat_ofNatClamp_of_lt hr]

/-- As many as a mantissa holds are exact as a double. -/
theorem stands_toFloat {n : UInt64} (hn : n.toNat ≤ 2 ^ 53) : Stands n.toFloat false n.toNat := by
  have hassemble : n.toFloat = assemble false n.toNat 0 := by
    change Float.ofModel (pack (UnpackedFloat.normalize .binary64 n.toNat 0 .positive)) = _
    rw [assemble_normalize, decide_eq_false (by omega), Int.natAbs_natCast]
  rw [hassemble]
  exact stands_whole false hn

/-- Only zero is equal to zero. -/
theorem Stands.beq_zero_iff (h : Stands x b v) : (x == 0) = true ↔ v = 0 := by
  obtain ⟨m, e, hparts, rfl⟩ := h
  rcases Nat.eq_zero_or_pos m with rfl | hm
  · exact iff_of_true (beq_zero_of_zero hparts) (by simp)
  · rw [beq_zero_of_pos hparts hm]
    exact iff_of_false Bool.false_ne_true (mul_pos (by exact_mod_cast hm) (by positivity)).ne'

end Binary64

/-- The position that a whole number stands for is the magnitude and the sign of its rounding. -/
theorem Number.exists_index {n : Number} (h : n.isInteger = true) :
    ∃ (b : Bool) (r : ℕ), n.position.natAbs = r ∧ (n.position ≠ 0 → (0 < n.position ↔ b = false)) ∧
      Binary64.Stands (Binary64.roundHalfAway n.value) b r := by
  have hfinite : Binary64.isFinite n.value = true := by
    by_contra hinfinite
    exact Bool.eq_false_iff.1 (isInteger_of_not_finite (Bool.eq_false_iff.2 hinfinite)) h
  obtain ⟨b, v, r, -, -, hint, hindex, -⟩ := exists_rounding hfinite
  have hposition : n.position = if b then -(r : ℤ) else r := by
    rw [position, if_pos h, hint, Option.getD_some]
  refine ⟨b, r, ?_, fun hne => ?_, hindex⟩
  · rw [hposition]
    split
    · rw [Int.natAbs_neg, Int.natAbs_natCast]
    · rfl
  · rw [hposition] at hne ⊢
    cases b with
    | false =>
      rw [if_neg Bool.false_ne_true] at hne ⊢
      exact iff_of_true (by omega) rfl
    | true =>
      rw [if_pos rfl]
      exact iff_of_false (by omega) nofun

/-! ## Unsigned steps -/

namespace Offset

open Binary64

/-- Why no item is found: the position is refused, or a difference is below zero, or there are not
    as many items. -/
inductive Halt where
  | refused (e : Error)
  | belowZero (a b : UInt64)
  | outside (offset : UInt64)

def refuse (cause : Cause) : Except Halt Value :=
  .error (.refused ((Error.ofCause cause).inContext "$n"))

/-- The difference of unsigned numbers, which stops below zero. -/
def sub (a b : UInt64) : Except Halt UInt64 :=
  if b ≤ a then .ok (a - b) else .error (.belowZero a b)

/-- The item that comes after as many others. -/
def read (items : List Value) (offset : UInt64) : Except Halt Value :=
  match items[offset.toNat]? with
  | some v => .ok v
  | none => .error (.outside offset)

/-- The item at a position, step by step. -/
def item (items : List Value) (n : Number) : Except Halt Value :=
  let index := Binary64.roundHalfAway n.value
  let length := items.length.toUInt64
  if !n.isInteger || index == 0 then refuse (.zeroOrFractionalIndex n.text)
  else if length.toFloat < index.abs then refuse (.indexOutOfBounds n.text items.length)
  else do
    let distance := index.abs.toUInt64
    let offset ← if 0 < index then sub distance 1 else sub length distance
    read items offset

variable {x : Float} {b : Bool} {a c : UInt64} {items : List Value} {i : Fin items.length}
  {n : Number}

/-- A difference that is not below zero says how many items come before one. -/
theorem sub_bind_read (hle : c.toNat ≤ a.toNat) (hi : a.toNat - c.toNat = i) :
    (sub a c >>= read items) = .ok (items.get i) := by
  have hle' : c ≤ a := UInt64.le_iff_toNat_le.2 hle
  have hsub : sub a c = .ok (a - c) := if_pos hle'
  have hread : read items (a - c) = .ok (items.get i) := by
    rw [read, UInt64.toNat_sub_of_le _ _ hle', hi, List.getElem?_eq_getElem i.isLt]
    rfl
  rw [hsub]
  exact hread

/-- What is no whole number is refused, as zero is. -/
theorem item_of_zero (h : n.position = 0) :
    item items n = refuse (.zeroOrFractionalIndex n.text) := by
  refine if_pos ?_
  cases hwhole : n.isInteger with
  | false => rfl
  | true =>
    obtain ⟨b, r, hnat, -, hindex⟩ := Number.exists_index hwhole
    have hzero : (r : ℚ) = 0 := by rw [← hnat, h]; rfl
    rw [hindex.beq_zero_iff.2 hzero]
    rfl

/-- A position other than zero is not refused as a number. -/
theorem exists_index_of_ne (h : n.position ≠ 0) :
    ∃ b, (0 < n.position ↔ b = false) ∧ Stands (roundHalfAway n.value) b n.position.natAbs ∧
      (!n.isInteger || roundHalfAway n.value == 0) = false := by
  cases hwhole : n.isInteger with
  | false => exact absurd (by simp [Number.position, hwhole]) h
  | true =>
    obtain ⟨b, r, rfl, hsign, hindex⟩ := Number.exists_index hwhole
    have hne : (n.position.natAbs : ℚ) ≠ 0 := by exact_mod_cast Int.natAbs_ne_zero.2 h
    exact ⟨b, hsign h, hindex, Bool.eq_false_iff.2 (hindex.beq_zero_iff.not.2 hne)⟩

theorem toNat_length (hlength : items.length ≤ 2 ^ 53) :
    items.length.toUInt64.toNat = items.length :=
  UInt64.toNat_ofNat_of_lt' (by rw [UInt64.size]; omega)

/-- The number of items is compared with the magnitude of a position as whole numbers are. -/
theorem lt_abs_iff {r : ℕ} (hlength : items.length ≤ 2 ^ 53) (hindex : Stands x b r) :
    items.length.toUInt64.toFloat < x.abs ↔ items.length < r := by
  have hnat := toNat_length hlength
  rw [(stands_toFloat (by omega)).lt_iff hindex.abs, hnat, Nat.cast_lt]

/-- The items are counted without going below zero, and the one that is found is there. -/
theorem item_of_le (hlength : items.length ≤ 2 ^ 53)
    (h : n.position ≠ 0 ∧ n.position.natAbs ≤ items.length) :
    item items n = .ok (items.get (Value.index h)) := by
  obtain ⟨b, hsign, hindex, hguard⟩ := exists_index_of_ne h.1
  have hpos : 0 < n.position.natAbs := Int.natAbs_pos.2 h.1
  have hnat := toNat_length hlength
  have hdistance := hindex.abs.toNat_toUInt64 (by omega)
  have hone : (1 : UInt64).toNat = 1 := rfl
  have hbounded := (lt_abs_iff hlength hindex).not.2 (by omega)
  have hsign' := (hindex.pos_iff (by exact_mod_cast hpos)).trans hsign.symm
  rw [item, hguard, if_neg Bool.false_ne_true, if_neg hbounded]
  by_cases hpositive : 0 < n.position
  · rw [if_pos (hsign'.2 hpositive)]
    refine sub_bind_read (by omega) ?_
    rw [hdistance, hone, Value.index]
    exact (if_pos hpositive).symm
  · rw [if_neg (hsign'.not.2 hpositive)]
    refine sub_bind_read (by omega) ?_
    rw [hdistance, hnat, Value.index]
    exact (if_neg hpositive).symm

/-- A position behind the items is refused before it becomes an unsigned number. -/
theorem item_of_lt (hlength : items.length ≤ 2 ^ 53) (h : items.length < n.position.natAbs) :
    item items n = refuse (.indexOutOfBounds n.text items.length) := by
  obtain ⟨b, -, hindex, hguard⟩ := exists_index_of_ne (n := n) (by omega)
  rw [item, hguard, if_neg Bool.false_ne_true, if_pos ((lt_abs_iff hlength hindex).2 h)]

/-- The steps are those of `nth`: none of them stops the computation. -/
theorem item_eq_nth {call : Invocation} {list : Value} (hlength : list.items.length ≤ 2 ^ 53)
    (hlist : call.arg "list" = .ok list) (hn : call.number "n" = .ok n) :
    (item list.items n).map Answer.given = (Builtin.nth.answer call).mapError Halt.refused := by
  rw [Builtin.nth_of_position hlist hn]
  by_cases hzero : n.position = 0
  · rw [if_pos hzero, item_of_zero hzero]
    rfl
  · rw [if_neg hzero]
    by_cases hle : n.position.natAbs ≤ list.items.length
    · rw [Value.itemAt?_of_le ⟨hzero, hle⟩, item_of_le hlength ⟨hzero, hle⟩]
      rfl
    · rw [Value.itemAt?_of_lt (not_le.1 hle), item_of_lt hlength (not_le.1 hle)]
      rfl

end Offset

/-! ## Both ends -/

/-- There is an item at the positions of either sign up to the number of items. -/
theorem Value.itemAt?_eq_none_iff {items : List Value} {position : ℤ} :
    itemAt? items position = none ↔ ¬(position ≠ 0 ∧ position.natAbs ≤ items.length) := by
  by_cases h : position ≠ 0 ∧ position.natAbs ≤ items.length
  · rw [itemAt?_of_le h]
    exact iff_of_false nofun (not_not.2 h)
  · refine iff_of_true ?_ h
    by_cases hzero : position = 0
    · rw [hzero]
      rfl
    · exact itemAt?_of_lt (by omega)

/-- A position from the end is one from the start. -/
theorem Value.itemAt?_neg {items : List Value} {k : ℕ} (hpos : 1 ≤ k) (hle : k ≤ items.length) :
    itemAt? items (-k) = itemAt? items (items.length - k + 1) := by
  have hback : (-k : ℤ) ≠ 0 ∧ (-k : ℤ).natAbs ≤ items.length := by omega
  have hfront : (items.length - k + 1 : ℤ) ≠ 0 ∧
      (items.length - k + 1 : ℤ).natAbs ≤ items.length := by omega
  have hindex : index hback = index hfront := by
    refine Fin.ext ?_
    simp only [index]
    split <;> split <;> omega
  rw [itemAt?_of_le hback, itemAt?_of_le hfront, hindex]

namespace Session

/-- For every list and every number, of whatever magnitude and with whatever units: `nth` refuses
    the number as out of range unless it is near a whole number other than zero whose magnitude is
    no more than the number of items. Then it gives the item at this position, counted from the
    start or, for a negative one, from the end: a position from the end is one from the start. The
    item is found in unsigned numbers whose differences are never below zero, and is read inside
    the list. The last is said of lists whose length is exact as a double; longer ones are beyond
    any memory. -/
theorem nth_addresses_items (options : Options) (list : Value) (n : Number) :
    ∃ item? : Option Value, Finds options list n item? ∧
      (item? = none ↔ ¬∃ k : ℤ, n.IsNear k ∧ k ≠ 0 ∧ k.natAbs ≤ list.items.length) ∧
      (∀ k : ℤ, n.IsNear k → k ≠ 0 → k.natAbs ≤ list.items.length →
        ∃ i : Fin list.items.length,
          (i : ℤ) = (if 0 < k then k - 1 else list.items.length + k) ∧
            item? = some (list.items.get i)) ∧
      (∀ (m : Number) (k : ℕ), 1 ≤ k → k ≤ list.items.length → n.IsNear (-k) →
        m.IsNear (list.items.length - k + 1) → Finds options list m item?) ∧
      (list.items.length ≤ 2 ^ 53 → ∀ call : Invocation,
        call.arg "list" = .ok list → call.number "n" = .ok n →
          (Offset.item list.items n).map Answer.given =
            (Builtin.nth.answer call).mapError Offset.Halt.refused) := by
  refine ⟨Value.itemAt? list.items n.position, finds_nth list n, ?_, ?_, ?_,
    fun hlength call hlist hn => Offset.item_eq_nth hlength hlist hn⟩
  · rw [Value.itemAt?_eq_none_iff]
    refine not_congr ⟨fun ⟨hzero, hle⟩ => ?_, fun ⟨k, hnear, hzero, hle⟩ => ?_⟩
    · exact ⟨n.position, (Number.position_eq_iff hzero).1 rfl, hzero, hle⟩
    · rw [(Number.position_eq_iff hzero).2 hnear]
      exact ⟨hzero, hle⟩
  · intro k hnear hzero hle
    rw [(Number.position_eq_iff hzero).2 hnear]
    refine ⟨_, ?_, Value.itemAt?_of_le ⟨hzero, hle⟩⟩
    simp only [Value.index]
    split <;> omega
  · intro m k hpos hle hback hfront
    rw [(Number.position_eq_iff (by omega)).2 hback, Value.itemAt?_neg hpos hle,
      ← (Number.position_eq_iff (by omega)).2 hfront]
    exact finds_nth list m

end Session

end StyleScript
