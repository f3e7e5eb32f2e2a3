-- SUMMARY: Equality and the order of numbers agree, but for infinite magnitudes.
import Mathlib
import StyleScript.Proofs.Doubles
import StyleScript.Proofs.Outcome

/-!
# Comparing numbers

Programs compare numbers in two ways. The order counts magnitudes as equal that are within the
tolerance of each other or that are the same double. Equality knows the tolerance only. For finite
magnitudes the second rule of the order adds nothing, because what is subtracted from itself is
zero. The difference of an infinity to itself is not a number, so there the order says that they
are equal, and equality does not.

Main statement: exactly one of `<`, `==` and `>` holds for numbers that have an order, and `<=` and
`>=` hold when they should, unless both magnitudes are the same infinity. For these none of the
three holds, and `<=` and `>=` do.
-/

namespace StyleScript

/-! ## Differences of doubles -/

namespace Binary64

open Float.Model

variable {x y : Float}

/-- A finite double is near to itself, and so are the two zeros to each other. -/
theorem near_of_beq (h : (x == y) = true) (hfinite : x.isInf = false) : near x y = true := by
  have hzero (s : UnpackedFloat.Sign) :
      (Float.ofModel (pack (.zero s))).abs < tolerance := by
    cases s <;> decide +kernel
  have hdifference :
      ∃ s, UnpackedFloat.sub .binary64 x.toModel.unpack y.toModel.unpack = .zero s := by
    change x.toModel.unpack.isInf = false at hfinite
    change x.toModel.unpack.beq y.toModel.unpack = true at h
    rw [UnpackedFloat.beq_iff_ne_notANumber_and_eq] at h
    generalize x.toModel.unpack = a at h hfinite
    generalize y.toModel.unpack = b at h
    obtain ⟨hnumber, -, rfl | ⟨rfl, rfl⟩ | ⟨rfl, rfl⟩⟩ := h
    · cases a with
      | notANumber => exact absurd rfl hnumber
      | infinity s => cases hfinite
      | zero s => cases s <;> exact ⟨_, rfl⟩
      | finite s m e hm =>
        refine ⟨.positive, ?_⟩
        simp only [UnpackedFloat.sub, Int.sub_self, UnpackedFloat.normalize]
        rfl
    · exact ⟨_, rfl⟩
    · exact ⟨_, rfl⟩
  obtain ⟨s, hs⟩ := hdifference
  have hsub : x - y = Float.ofModel (pack (.zero s)) := congrArg (Float.ofModel ∘ pack) hs
  rw [near, hsub]
  exact decide_eq_true (hzero s)

/-- Nothing is near to an infinity, or to what is not a number. -/
theorem not_near_of_not_finite (h : isFinite x = false) : near x y = false := by
  have hlarge (u : UnpackedFloat) (hu : (∃ s, u = .infinity s) ∨ u = .notANumber) :
      ¬(Float.ofModel (pack u)).abs < tolerance := by
    obtain ⟨s, rfl⟩ | rfl := hu
    · cases s <;> decide +kernel
    · decide +kernel
  have hdifference :
      (∃ s, UnpackedFloat.sub .binary64 x.toModel.unpack y.toModel.unpack = .infinity s) ∨
        UnpackedFloat.sub .binary64 x.toModel.unpack y.toModel.unpack = .notANumber := by
    rw [isFinite, parts] at h
    generalize x.toModel.unpack = a at h
    generalize y.toModel.unpack = b
    cases a with
    | notANumber => exact .inr rfl
    | infinity s =>
      cases b with
      | notANumber => exact .inr rfl
      | infinity t => cases s <;> cases t <;> first | exact .inl ⟨_, rfl⟩ | exact .inr rfl
      | _ => exact .inl ⟨s, rfl⟩
    | zero s => cases h
    | finite s m e hm => cases h
  exact decide_eq_false (hlarge _ hdifference)

theorem not_near_of_isInf (h : x.isInf = true) : near x y = false := by
  refine not_near_of_not_finite ?_
  change x.toModel.unpack.isInf = true at h
  rw [isFinite, parts]
  generalize x.toModel.unpack = a at h
  cases a with
  | infinity s => rfl
  | _ => cases h

/-- Doubles that are equal are in no strict order. -/
theorem not_lt_of_beq (h : (x == y) = true) : ¬x < y ∧ ¬y < x := by
  rw [beq_iff] at h
  rw [lt_iff, lt_iff, compare_swap x.toModel.unpack, h]
  exact ⟨nofun, nofun⟩

end Binary64

/-! ## Operators on numbers -/

namespace BinaryOp

/-- An operator tells a truth value of two numbers, whatever expressions they come from and
    wherever these stand. -/
def Tells (op : BinaryOp) (a b : Number) (truth : Bool) : Prop :=
  ∀ (call : Caller) (scope : ScopeId) (left right : Expr) (la lb place : Option Location)
    (m₀ m₁ m₂ : Machine),
    left.eval call scope m₀ = .ok (.number a la) m₁ →
    right.eval call scope m₁ = .ok (.number b lb) m₂ →
    ∃ m, (Expr.binary op left right place).eval call scope m₀ =
      .ok (.bool truth m₂.builder.location) m

variable {op : BinaryOp} {a b : Number} {truth : Bool}

/-- An operator that evaluates both sides. -/
theorem eval_binary (hop : op ≠ .and ∧ op ≠ .or) {call : Caller} {scope : ScopeId}
    {left right : Expr} {v w : Value} {place : Option Location} {m₀ m₁ m₂ : Machine}
    (hleft : left.eval call scope m₀ = .ok v m₁) (hright : right.eval call scope m₁ = .ok w m₂) :
    (Expr.binary op left right place).eval call scope m₀ =
      Eval.locate place (Eval.build (op.apply v w)) m₂ := by
  rw [Expr.eval, Eval.bind_ok hleft]
  simp only [hop.1, hop.2, false_and, or_self, if_false]
  rw [Eval.bind_ok hright]

theorem tells_iff {x : Build Value} (hop : op ≠ .and ∧ op ≠ .or)
    (hx : ∀ la lb, op.apply (.number a la) (.number b lb) = x) :
    op.Tells a b truth ↔
      ∀ builder, ∃ builder', x builder = .ok (.bool truth builder.location) builder' := by
  constructor
  · intro h builder
    let m : Machine := ⟨.empty, builder, 0⟩
    let call : Caller := fun _ _ _ _ => throw .outOfFuel
    have hliteral (n : Number) :
        (Expr.literal (.number n none)).eval call 0 m = .ok (.number n none) m := rfl
    obtain ⟨n, hn⟩ := h call 0 _ _ none none none m m m (hliteral a) (hliteral b)
    rw [eval_binary hop (hliteral a) (hliteral b), Eval.locate_eq_ok, hx, Eval.build] at hn
    split at hn
    · rename_i v builder' hok
      cases hn
      exact ⟨builder', hok⟩
    · cases hn
  · intro h call scope left right la lb place m₀ m₁ m₂ hleft hright
    obtain ⟨builder', hok⟩ := h m₂.builder
    rw [eval_binary hop hleft hright, hx]
    exact ⟨{ m₂ with builder := builder' }, Eval.locate_eq_ok.2 (by rw [Eval.build, hok])⟩

/-- An operator that only looks at the order of two numbers. -/
theorem tells_iff_compare {holds : Ordering → Bool} (hop : op ≠ .and ∧ op ≠ .or)
    (hx : ∀ la lb, op.apply (.number a la) (.number b lb) =
      Build.ofExcept (a.compare b) >>= fun order => Build.bool (holds order)) :
    op.Tells a b truth ↔ ∃ order, a.compare b = .ok order ∧ holds order = truth := by
  rw [tells_iff hop hx]
  cases a.compare b with
  | error e =>
    constructor
    · intro h
      obtain ⟨_, h⟩ := h .fresh
      cases h
    · nofun
  | ok order =>
    constructor
    · intro h
      obtain ⟨_, h⟩ := h .fresh
      cases h
      exact ⟨order, rfl, rfl⟩
    · rintro ⟨_, ⟨⟩, rfl⟩ builder
      exact ⟨_, rfl⟩

theorem tells_lt : lt.Tells a b truth ↔ ∃ order, a.compare b = .ok order ∧ order.isLT = truth :=
  tells_iff_compare (by decide) fun _ _ => rfl

theorem tells_le : le.Tells a b truth ↔ ∃ order, a.compare b = .ok order ∧ order.isLE = truth :=
  tells_iff_compare (by decide) fun _ _ => rfl

theorem tells_gt : gt.Tells a b truth ↔ ∃ order, a.compare b = .ok order ∧ order.isGT = truth :=
  tells_iff_compare (by decide) fun _ _ => rfl

theorem tells_ge : ge.Tells a b truth ↔ ∃ order, a.compare b = .ok order ∧ order.isGE = truth :=
  tells_iff_compare (by decide) fun _ _ => rfl

theorem tells_eq : eq.Tells a b truth ↔ a.same b = truth := by
  rw [tells_iff (x := Build.bool (a.same b)) (by decide) fun _ _ => by
    rw [apply, Value.same]]
  constructor
  · intro h
    obtain ⟨_, h⟩ := h .fresh
    cases h
    rfl
  · rintro rfl builder
    exact ⟨_, rfl⟩

end BinaryOp

/-! ## Two ways to compare -/

/-- Both magnitudes are infinite, with the same sign. -/
def SameInfinity (x y : Float) : Prop := x.isInf = true ∧ (x == y) = true

namespace Number

variable {a b : Number} {order : Ordering}

theorem compatible_of_compare (h : a.compare b = .ok order) :
    a.units.compatible b.units = true := by
  refine Decidable.not_not.1 fun hunits => ?_
  rw [compare, commonUnits, if_neg hunits] at h
  cases h

theorem compare_of_compatible (h : a.units.compatible b.units = true) :
    a.compare b =
      if near a.value b.value then .ok .eq
      else if a.value < b.value then .ok .lt
      else if b.value < a.value then .ok .gt
      else if a.value == b.value then .ok .eq
      else .error (.ofCause .incomparable) := by
  rw [compare, commonUnits, if_pos h]
  rfl

/-- The same infinity on both sides is equal in the order. -/
theorem eq_of_sameInfinity (h : a.compare b = .ok order) (hinf : SameInfinity a.value b.value) :
    order = .eq := by
  obtain ⟨hlt, hgt⟩ := Binary64.not_lt_of_beq hinf.2
  have hnear : ¬near a.value b.value = true :=
    Bool.eq_false_iff.1 (Binary64.not_near_of_isInf hinf.1)
  rw [compare_of_compatible (compatible_of_compare h), if_neg hnear, if_neg hlt, if_neg hgt,
    if_pos hinf.2] at h
  cases h
  rfl

/-- Numbers with an order are equal to programs when the order says so, but for infinities. -/
theorem same_iff_of_compare (h : a.compare b = .ok order) :
    a.same b = true ↔ order = .eq ∧ ¬SameInfinity a.value b.value := by
  have hunits := compatible_of_compare h
  rw [same, hunits, Bool.true_and]
  constructor
  · intro hnear
    rw [compare_of_compatible hunits, if_pos hnear] at h
    cases h
    refine ⟨rfl, fun hinf => ?_⟩
    rw [Binary64.not_near_of_isInf hinf.1] at hnear
    cases hnear
  · rintro ⟨rfl, hinf⟩
    rw [compare_of_compatible hunits] at h
    split_ifs at h with hnear hlt hgt hbeq
    · exact hnear
    · cases h
    · cases h
    · exact Binary64.near_of_beq hbeq (Bool.eq_false_iff.2 fun hx => hinf ⟨hx, hbeq⟩)

/-- Exactly one of the three relations holds, and the weak ones are made of them. -/
structure OrderAgrees (a b : Number) : Prop where
  one : ∃! op, op ∈ [BinaryOp.lt, .eq, .gt] ∧ op.Tells a b true
  le : BinaryOp.le.Tells a b true ↔ BinaryOp.lt.Tells a b true ∨ BinaryOp.eq.Tells a b true
  ge : BinaryOp.ge.Tells a b true ↔ BinaryOp.gt.Tells a b true ∨ BinaryOp.eq.Tells a b true

/-- The three relations on numbers with an order. -/
theorem tells_of_compare (h : a.compare b = .ok order) (op : BinaryOp) :
    (op ∈ [BinaryOp.lt, .eq, .gt] ∧ op.Tells a b true) ↔
      (op = .lt ∧ order = .lt) ∨ (op = .eq ∧ order = .eq ∧ ¬SameInfinity a.value b.value) ∨
        (op = .gt ∧ order = .gt) := by
  have hlt : BinaryOp.lt.Tells a b true ↔ order = .lt := by
    simp [BinaryOp.tells_lt, h, Ordering.isLT_iff_eq_lt]
  have heq : BinaryOp.eq.Tells a b true ↔ order = .eq ∧ ¬SameInfinity a.value b.value :=
    BinaryOp.tells_eq.trans (same_iff_of_compare h)
  have hgt : BinaryOp.gt.Tells a b true ↔ order = .gt := by
    simp [BinaryOp.tells_gt, h, Ordering.isGT_iff_eq_gt]
  cases op <;> simp [hlt, heq, hgt]

/-- The ordering operators have an answer to numbers that can be compared. -/
theorem ordering_tells_of_compare (h : a.compare b = .ok order) :
    ∀ op ∈ [BinaryOp.lt, .le, .gt, .ge], ∃ truth, op.Tells a b truth := by
  simp only [List.forall_mem_cons]
  exact ⟨⟨_, BinaryOp.tells_lt.2 ⟨order, h, rfl⟩⟩, ⟨_, BinaryOp.tells_le.2 ⟨order, h, rfl⟩⟩,
    ⟨_, BinaryOp.tells_gt.2 ⟨order, h, rfl⟩⟩, ⟨_, BinaryOp.tells_ge.2 ⟨order, h, rfl⟩⟩, nofun⟩

/-- Exactly one of `<`, `==` and `>` holds for two numbers that the ordering operators have an
    answer to, and `<=` and `>=` are what these three make of them, unless both magnitudes are the
    same infinity. Then none of the three holds, and still `<=` and `>=` do. -/
theorem order_agrees_unless_infinite
    (h : ∀ op ∈ [BinaryOp.lt, .le, .gt, .ge], ∃ truth, op.Tells a b truth) :
    (OrderAgrees a b ↔ ¬SameInfinity a.value b.value) ∧
    (SameInfinity a.value b.value →
      BinaryOp.lt.Tells a b false ∧ BinaryOp.eq.Tells a b false ∧ BinaryOp.gt.Tells a b false ∧
        BinaryOp.le.Tells a b true ∧ BinaryOp.ge.Tells a b true) := by
  obtain ⟨_, htells⟩ := h .lt (by decide)
  obtain ⟨order, hcompare, -⟩ := BinaryOp.tells_lt.1 htells
  have htells := tells_of_compare hcompare
  refine ⟨⟨fun hagrees hinf => ?_, fun hinf => ⟨?_, ?_, ?_⟩⟩, fun hinf => ?_⟩
  · obtain rfl := eq_of_sameInfinity hcompare hinf
    obtain ⟨op, hop, -⟩ := hagrees.one
    simpa [hinf] using (htells op).1 hop
  · simp only [htells, hinf]
    cases order with
    | lt => exact ⟨.lt, by simp, by simp⟩
    | eq => exact ⟨.eq, by simp, by simp⟩
    | gt => exact ⟨.gt, by simp, by simp⟩
  · rw [BinaryOp.tells_le, BinaryOp.tells_lt, BinaryOp.tells_eq, same_iff_of_compare hcompare]
    cases order <;> simp [hcompare, hinf]
  · rw [BinaryOp.tells_ge, BinaryOp.tells_gt, BinaryOp.tells_eq, same_iff_of_compare hcompare]
    cases order <;> simp [hcompare, hinf]
  · obtain rfl := eq_of_sameInfinity hcompare hinf
    have hsame : a.same b = false :=
      Bool.eq_false_iff.2 fun hsame => ((same_iff_of_compare hcompare).1 hsame).2 hinf
    exact ⟨BinaryOp.tells_lt.2 ⟨_, hcompare, rfl⟩, BinaryOp.tells_eq.2 hsame,
      BinaryOp.tells_gt.2 ⟨_, hcompare, rfl⟩, BinaryOp.tells_le.2 ⟨_, hcompare, rfl⟩,
      BinaryOp.tells_ge.2 ⟨_, hcompare, rfl⟩⟩

/-- `3px` and `3.00000000001` are equal within the tolerance, and in no strict order. -/
theorem order_agrees_within_tolerance :
    let a : Number := ⟨3, .single "px"⟩
    let b : Number := .unitless 3.00000000001
    (∀ op ∈ [BinaryOp.lt, .le, .gt, .ge], ∃ truth, op.Tells a b truth) ∧
      a.value < b.value ∧ OrderAgrees a b := by
  intro a b
  have hcompare : a.compare b = .ok .eq := by
    rw [compare_of_compatible (by decide), if_pos (by decide +kernel)]
  have hordered := ordering_tells_of_compare hcompare
  have hfinite : ¬SameInfinity a.value b.value := fun hinf => by
    have hx : a.value.isInf = false := by decide +kernel
    rw [hinf.1] at hx
    cases hx
  obtain ⟨hagrees, -⟩ := order_agrees_unless_infinite hordered
  exact ⟨hordered, by decide +kernel, hagrees.2 hfinite⟩

/-- `1 / 0` is at most and at least itself, but neither below nor above nor equal to itself. -/
theorem infinity_equals_nothing :
    let a := (unitless 1).div (unitless 0)
    (∀ op ∈ [BinaryOp.lt, .le, .gt, .ge], ∃ truth, op.Tells a a truth) ∧
      BinaryOp.le.Tells a a true ∧ BinaryOp.ge.Tells a a true ∧ BinaryOp.lt.Tells a a false ∧
      BinaryOp.gt.Tells a a false ∧ BinaryOp.eq.Tells a a false ∧ ¬OrderAgrees a a := by
  intro a
  have hcompare : a.compare a = .ok .eq := by
    rw [compare_of_compatible (by decide), if_neg (by decide +kernel), if_neg (by decide +kernel),
      if_neg (by decide +kernel), if_pos (by decide +kernel)]
  have heq : BinaryOp.eq.Tells a a false := BinaryOp.tells_eq.2 (by decide +kernel)
  have hlt : BinaryOp.lt.Tells a a false := BinaryOp.tells_lt.2 ⟨.eq, hcompare, rfl⟩
  have hle : BinaryOp.le.Tells a a true := BinaryOp.tells_le.2 ⟨.eq, hcompare, rfl⟩
  refine ⟨ordering_tells_of_compare hcompare, hle, BinaryOp.tells_ge.2 ⟨.eq, hcompare, rfl⟩, hlt,
    BinaryOp.tells_gt.2 ⟨.eq, hcompare, rfl⟩, heq, fun hagrees => ?_⟩
  rcases hagrees.le.1 hle with hbelow | hequal
  · obtain ⟨order, horder, hisLT⟩ := BinaryOp.tells_lt.1 hbelow
    rw [hcompare] at horder
    cases horder
    cases hisLT
  · rw [BinaryOp.tells_eq] at heq hequal
    rw [hequal] at heq
    cases heq

end Number

end StyleScript
