-- SUMMARY: More fuel changes no final outcome.
import StyleScript.Proofs.Simulation

/-!
# Fuel

Fuel only says how deep calls are followed. An outcome that is final is the
outcome with any more fuel, so a program has one outcome, or none at all.
-/

namespace StyleScript

namespace Simulation

private theorem alike_self (f : Function) : f.Alike Eq (fun _ => True) f := by
  obtain ⟨name, params, body, overloaded⟩ := f
  cases body with
  | native run => exact .native trivial
  | written d c => exact .written rfl

/-- Every machine stands for itself, and the right run may have more fuel. -/
def identity : Simulation where
  scope := Eq
  state := Eq
  code _ := True
  options := Eq
  excused i := i = .outOfFuel
  overflow h hlt := absurd (congrArg Options.maxDepth h) (Nat.ne_of_lt hlt)
  locate _ h := nomatch h
  depth h := by rw [h]
  withDepth d h := by rw [h]
  location h := by rw [h]
  grow k h := by rw [h]
  native {run o o' m n} call location report _ ho h := by
    subst ho
    subst h
    intro x
    cases x o m with
    | ok v n => exact .ok rfl
    | error e n => exact .error rfl
  lookup hscope h := by rw [hscope, h]
  locals hscope h := by rw [hscope, h]
  function {a b m n} name hscope h := by
    subst hscope
    subst h
    cases m.store.lookupFunction? a name with
    | none => exact .none
    | some f => exact .some (alike_self f)
  contains hscope h := by rw [hscope, h]
  define name v hscope h := by rw [hscope, h]
  defineFunction d hscope h := by rw [hscope, h]
  enter {a b m n} hparent h := by
    subst h
    cases hparent with
    | none => exact ⟨rfl, rfl⟩
    | some hscope => exact ⟨rfl, by rw [hscope]⟩
  leave hscope h := by rw [hscope, h]

theorem identity_matches_call (s : Session) {fuel fuel' : Nat} (h : fuel ≤ fuel') :
    identity.MatchesCalls (s.call fuel) (s.call fuel') :=
  matches_call ⟨rfl, fun _ _ f _ => alike_self f, rfl, Nat.le_refl _⟩ (.inr ⟨rfl, h⟩)

end Simulation

/-! ## Stable families -/

namespace Eval

open Simulation

variable {α : Type}

/-- Computations for each amount of fuel, of which those with more fuel do what
    those with less do as far as they were followed. -/
def Stable (x : Nat → Eval α) : Prop :=
  ∀ fuel fuel' : Nat, fuel ≤ fuel' → identity.Matches (x fuel) (x fuel')

variable {x : Nat → Eval α} {m : Machine} {fuel fuel' : Nat}

/-- A final outcome is the outcome with any more fuel. -/
theorem Stable.eq_of_le (hx : Stable x) (hle : fuel ≤ fuel') (hfinal : Outcome.Final (x fuel m)) :
    x fuel' m = x fuel m := by
  have hagree := hx fuel fuel' hle m m rfl
  generalize x fuel m = o at hagree hfinal ⊢
  generalize x fuel' m = o' at hagree ⊢
  cases hagree with
  | ok hstate =>
    cases (hstate : _ = _)
    rfl
  | error hstate =>
    cases (hstate : _ = _)
    rfl
  | ahead hexcused =>
    cases (hexcused : _ = _)
    cases hfinal

theorem Stable.final_of_le (hx : Stable x) (hle : fuel ≤ fuel')
    (hfinal : Outcome.Final (x fuel m)) : Outcome.Final (x fuel' m) := by
  rw [hx.eq_of_le hle hfinal]
  exact hfinal

/-- Final outcomes are the same, whatever the fuel they were reached with. -/
theorem Stable.eq_of_final (hx : Stable x) (h : Outcome.Final (x fuel m))
    (h' : Outcome.Final (x fuel' m)) : x fuel m = x fuel' m := by
  rcases Nat.le_total fuel fuel' with hle | hle
  · exact (hx.eq_of_le hle h).symm
  · exact hx.eq_of_le hle h'

theorem Stable.ok_of_le (hx : Stable x) {a : α} {n : Machine} (hle : fuel ≤ fuel')
    (h : x fuel m = .ok a n) : x fuel' m = .ok a n := by
  rw [hx.eq_of_le hle (by rw [h]; trivial), h]

theorem Stable.ok_of_final (hx : Stable x) {a : α} {n : Machine} (h : x fuel m = .ok a n)
    (h' : Outcome.Final (x fuel' m)) : x fuel' m = .ok a n := by
  rw [hx.eq_of_final h' (by rw [h]; trivial), h]

/-- What comes after a result is final when two steps are, whatever the fuel was that
    the result was reached with. -/
theorem Stable.final_next {β : Type} {f : α → Eval β} (hx : Stable x) {a : α} {n : Machine}
    (h : x fuel m = .ok a n) (hfinal : Outcome.Final ((x fuel' >>= f) m)) :
    Outcome.Final (f a n) :=
  Eval.final_right hfinal (hx.ok_of_final h (Eval.final_left hfinal))

theorem stable_const (y : Eval α) : Stable fun _ => y := by
  rintro _ _ _ m n (rfl : m = n)
  change Outcome.Agree Eq _ (y m) (y m)
  cases y m with
  | ok a n => exact .ok rfl
  | error e n => exact .error rfl

theorem Stable.bind {β : Type} {f : Nat → α → Eval β} (hx : Stable x)
    (hf : ∀ a, Stable fun fuel => f fuel a) : Stable fun fuel => x fuel >>= f fuel :=
  fun fuel fuel' hle => matches_bind (hx fuel fuel' hle) fun a => hf a fuel fuel' hle

theorem Stable.locate (place : Option Location) (hx : Stable x) :
    Stable fun fuel => Eval.locate place (x fuel) :=
  fun fuel fuel' hle => matches_locate place (hx fuel fuel' hle)

/-- Two steps come to an end with some fuel when the first does with some fuel,
    and the second does with some fuel after each result of the first. -/
theorem Stable.final_bind {β : Type} {f : Nat → α → Eval β} (hx : Stable x)
    (hf : ∀ a, Stable fun fuel => f fuel a) (h : ∃ k, Outcome.Final (x k m))
    (hnext : ∀ k a n, x k m = .ok a n → ∃ k', Outcome.Final (f k' a n)) :
    ∃ k, Outcome.Final ((x k >>= f k) m) := by
  obtain ⟨j, hj⟩ := h
  cases hxj : x j m with
  | ok a n =>
    obtain ⟨k, hk⟩ := hnext j a n hxj
    refine ⟨max j k, ?_⟩
    rw [bind_ok (hx.ok_of_le (Nat.le_max_left j k) hxj)]
    exact (hf a).final_of_le (Nat.le_max_right j k) hk
  | error e n =>
    refine ⟨j, Eval.final_bind hj fun a n' h' => ?_⟩
    rw [hxj] at h'
    cases h'

end Eval

namespace Session

open Eval Simulation

variable (s : Session)

theorem stable_eval (e : Expr) (scope : ScopeId) : Stable fun fuel => e.eval (s.call fuel) scope :=
  fun _ _ hle => matches_eval (identity_matches_call s hle) rfl e

theorem stable_items (es : List Expr) (scope : ScopeId) :
    Stable fun fuel => evalItems (s.call fuel) scope es :=
  fun _ _ hle => matches_evalItems (identity_matches_call s hle) rfl es

theorem stable_args (args : List Arg) (scope : ScopeId) :
    Stable fun fuel => evalArgs (s.call fuel) scope args :=
  fun _ _ hle => matches_evalArgs (identity_matches_call s hle) rfl args

theorem stable_call (name : String) (args : Args) (scope : ScopeId) (location : Option Location) :
    Stable fun fuel => s.call fuel name args scope location :=
  fun _ _ hle => identity_matches_call s hle name args location scope scope rfl

theorem stable_value? (slot : Slot) (scope : ScopeId) :
    Stable fun fuel => slot.value? (evaluator (s.call fuel)) scope :=
  fun _ _ hle => matches_value? (identity_matches_call s hle) rfl slot

theorem stable_fill (slots : List Slot) (scope : ScopeId) :
    Stable fun fuel => Slot.fill (evaluator (s.call fuel)) scope slots :=
  fun _ _ hle => matches_fill (identity_matches_call s hle) rfl slots

theorem stable_bind (p : Params) (function : String) (args : Args) (scope : ScopeId) :
    Stable fun fuel => p.bind function args (evaluator (s.call fuel)) scope :=
  fun _ _ hle => matches_bindParams (identity_matches_call s hle) rfl p function args

theorem stable_run (body : List Stmt) (scope : ScopeId) :
    Stable fun fuel => Stmt.run (s.call fuel) scope body :=
  fun _ _ hle => matches_run (identity_matches_call s hle) rfl body

theorem stable_finish (f : Function) (inner scope : ScopeId) (location : Option Location) :
    Stable fun fuel => s.finish (s.call fuel) f inner scope location := by
  unfold finish
  split
  · exact stable_const _
  · rename_i d _ _
    have hbody : Stable fun fuel => d.run s.options.maxDepth (s.call fuel) inner :=
      fun _ _ hle => matches_body rfl (Nat.le_refl _) (identity_matches_call s hle) rfl d
    exact hbody.locate location

end Session

end StyleScript
