-- SUMMARY: A higher limit on nested bodies changes no outcome but stack overflows.
import StyleScript.Proofs.Recursion
import StyleScript.Proofs.Targets

/-!
# The limit on nested bodies

The limit is looked at in one place, where a body begins. So a run under a higher limit
does what the run under the lower one does, up to the first body that is not run there.
From that body on the lower run is a stack overflow: no operand, item, argument,
default or body around it makes something else of the error. Hence an outcome that is
no stack overflow is the outcome under any higher limit as well.

A builtin could read the limit from the options. Those of the standard registry do not.
-/

namespace StyleScript

/-- Code that does the same whatever the limit is. -/
def NativeCode.IgnoresLimit (run : NativeCode) : Prop :=
  ∀ (call : Invocation) (limit : Nat),
    run { call with options := { call.options with maxDepth := limit } } = run call

/-- No builtin reads the limit. -/
theorem Builtin.ignoresLimit : ∀ b ∈ Builtin.all, b.run.IgnoresLimit := by
  simp only [all, onChannels, onHsl, onComponents, onQuantities, onLists, onValues,
    List.cons_append, List.nil_append, List.forall_mem_cons, List.not_mem_nil,
    IsEmpty.forall_iff, implies_true, and_true]
  and_intros <;> exact fun _ _ => rfl

theorem Registry.ignoresLimit_standard : standard.Holds (Function.Runs NativeCode.IgnoresLimit) := by
  refine holds_standard (fun f hf => hf) ?_
  rintro b hb params _ _ ⟨⟩
  exact b.ignoresLimit hb

namespace Outcome

variable {α : Type}

/-- The outcome of a computation that came to the limit. -/
def Overflows : Outcome α → Prop
  | .error (.error e) _ => e.kind = .stackOverflow
  | _ => False

end Outcome

/-! ## Two limits -/

/-- A function with code of a given kind is like itself. -/
private theorem Function.Runs.alike {code : NativeCode → Prop} {f : Function} (h : f.Runs code) :
    f.Alike Eq code f := by
  obtain ⟨name, params, body, overloaded⟩ := f
  cases body with
  | native run => exact .native (h run rfl)
  | written d closure => exact .written rfl

namespace Simulation

/-- Runs on one machine, of which the right one may have a higher limit. -/
def raised : Simulation where
  scope := Eq
  state m n := m = n ∧ m.store.Runs NativeCode.IgnoresLimit
  code := NativeCode.IgnoresLimit
  options o o' := o.places = o'.places
  excused i := ∃ e : Error, i = .error e ∧ e.kind = .stackOverflow
  overflow _ _ hkind := ⟨_, rfl, hkind⟩
  locate place := by
    rintro ⟨e, ⟨⟩, hkind⟩
    exact ⟨_, rfl, hkind⟩
  depth h := by rw [h.1]
  withDepth d h := ⟨by rw [h.1], h.2⟩
  location h := by rw [h.1]
  grow k h := ⟨by rw [h.1], h.2⟩
  native {run o o' m n} call location report hrun ho h := by
    obtain ⟨rfl, hm⟩ := h
    -- the two invocations differ in the limit only
    have hsame : run { call with options := o' } = run { call with options := o } := by
      obtain ⟨places, limit'⟩ := o'
      obtain rfl : o.places = places := ho
      exact hrun { call with options := o } limit'
    intro x
    have hx : x o' = x o := by simp only [x, hsame]
    have hkeeps : (Outcome.machine (x o m)).store = m.store := by
      simp only [x, Eval.build]
      split <;> rfl
    rw [hx]
    cases hrun : x o m with
    | ok v n =>
      rw [hrun] at hkeeps
      exact .ok ⟨rfl, hkeeps ▸ hm⟩
    | error e n =>
      rw [hrun] at hkeeps
      exact .error ⟨rfl, hkeeps ▸ hm⟩
  lookup hscope h := by rw [hscope, h.1]
  locals hscope h := by rw [hscope, h.1]
  function {a b m n} name hscope h := by
    obtain ⟨rfl, hm⟩ := h
    obtain rfl := hscope
    cases hf : m.store.lookupFunction? a name with
    | none => exact .none
    | some f =>
      obtain ⟨_, _, hruns⟩ := hm.of_lookup hf
      exact .some hruns.alike
  contains hscope h := by rw [hscope, h.1]
  define {a b m n} name v hscope h := by
    obtain ⟨rfl, hm⟩ := h
    exact ⟨by rw [hscope], hm.define a name v⟩
  defineFunction {a b m n} d hscope h := by
    obtain ⟨rfl, hm⟩ := h
    exact ⟨by rw [hscope], hm.defineFunction (Function.runs_ofDefinition _ d a)⟩
  enter {a b m n} hparent h := by
    obtain ⟨rfl, hm⟩ := h
    obtain rfl : a = b := by
      cases hparent with
      | none => rfl
      | some hscope => rw [hscope]
    exact ⟨rfl, rfl, hm.enter a⟩
  leave {a b m n} hscope h := by
    obtain ⟨rfl, hm⟩ := h
    exact ⟨by rw [hscope], hm.leave a⟩

/-- Sessions of the standard registry that differ in the limit. -/
theorem raised_sessions (places : Nat) {limit limit' : Nat} (h : limit ≤ limit') :
    raised.Sessions ⟨.standard, ⟨places, limit⟩⟩ ⟨.standard, ⟨places, limit'⟩⟩ where
  registry := rfl
  candidates name _ f hf := by
    have hruns : f.Runs NativeCode.IgnoresLimit :=
      Registry.ignoresLimit_standard name f (Registry.mem_candidates_of_resolve hf)
    exact hruns.alike
  options := rfl
  limit := h

variable {α : Type}

/-- What came to an end without an overflow is the same under the higher limit. -/
theorem Matches.eq_of_not_overflows {x y : Eval α} (h : raised.Matches x y) {m : Machine}
    (hm : m.store.Runs NativeCode.IgnoresLimit) (hover : ¬Outcome.Overflows (x m)) : y m = x m := by
  have hagree := h m m ⟨rfl, hm⟩
  generalize x m = o at hagree hover ⊢
  generalize y m = o' at hagree ⊢
  cases hagree with
  | ok hstate => rw [hstate.1]
  | error hstate => rw [hstate.1]
  | ahead hexcused =>
    obtain ⟨e, rfl, hkind⟩ := hexcused
    exact absurd hkind hover

end Simulation

namespace Session

/-- An evaluation that comes to an end under a limit, with a result or with an error that
    is no stack overflow, comes to the same end under any higher limit: to the same result
    or error, on a machine with the same scopes and as many values built. Scopes may have
    builtins of the standard registry, and all others that do not read the limit. -/
theorem eval_of_raised_limit (places : Nat) {limit limit' : Nat} (hlimit : limit ≤ limit')
    (e : Expr) (scope : ScopeId) {m : Machine} (hm : m.store.Runs NativeCode.IgnoresLimit)
    {fuel fuel' : Nat} (hfuel : fuel ≤ fuel')
    (hfinal : Outcome.Final (eval ⟨.standard, ⟨places, limit⟩⟩ fuel e scope m))
    (hover : ¬Outcome.Overflows (eval ⟨.standard, ⟨places, limit⟩⟩ fuel e scope m)) :
    eval ⟨.standard, ⟨places, limit'⟩⟩ fuel' e scope m =
      eval ⟨.standard, ⟨places, limit⟩⟩ fuel e scope m := by
  have hcalls := Simulation.matches_call (Simulation.raised_sessions places hlimit)
    (.inl (rfl : fuel = fuel))
  have hmatches := Simulation.matches_eval hcalls (rfl : scope = scope) e
  have hsame : eval ⟨.standard, ⟨places, limit'⟩⟩ fuel e scope m =
      eval ⟨.standard, ⟨places, limit⟩⟩ fuel e scope m := hmatches.eq_of_not_overflows hm hover
  rw [← hsame] at hfinal ⊢
  exact (stable_eval ⟨.standard, ⟨places, limit'⟩⟩ e scope).eq_of_le hfuel hfinal

/-- `patient` runs no body within another one, so it needs no higher limit than one. -/
theorem patient_of_raised_limit :
    let e : Expr := .call "f" [.mk none (.literal (.bool false none))] none
    Outcome.result (eval ⟨.standard, ⟨5, 1⟩⟩ 3 e 0 (defining patient)) = .ok (.bool true none) ∧
      eval ⟨.standard, ⟨5, 256⟩⟩ 4 e 0 (defining patient) =
        eval ⟨.standard, ⟨5, 1⟩⟩ 3 e 0 (defining patient) := by
  intro e
  have hm : (defining patient).store.Runs NativeCode.IgnoresLimit := by
    have hfresh : Machine.fresh.store.Runs NativeCode.IgnoresLimit := nofun
    exact (hfresh.enter none).defineFunction (Function.runs_ofDefinition _ patient 0)
  refine ⟨rfl, eval_of_raised_limit 5 (by decide) e 0 hm (by decide) ?_ ?_⟩
  · exact trivial
  · exact id

end Session

end StyleScript
