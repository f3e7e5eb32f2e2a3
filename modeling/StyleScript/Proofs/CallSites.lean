-- SUMMARY: The errors of a call are reported where they arose, or else at the call.
import StyleScript.Proofs.Locations

/-!
# Call sites

The location of a call matters for one thing only, besides the values that a builtin builds:
an error that leaves the call without a location gets the one of the call. Each way out of a
call sees to this, whether the function is not found or its scope is gone, whether binding,
the builtin or the body fails. An error that was reported inside of the call keeps its
location.

So a call with a location does what the same call without one does, up to the locations of
its result. This is shown stage by stage, and the rest follows from what locating an error
does.
-/

namespace StyleScript

/-- The outcome of a call without a location, and that of the same call at a place: errors
    are reported at the place unless they are already reported somewhere, and the machine
    that is left is the same. Results may have other locations. -/
inductive Outcome.LocatedAs {α : Type} (place : Option Location) : Outcome α → Outcome α → Prop where
  | ok {a b : α} {m : Machine} : LocatedAs place (.ok a m) (.ok b m)
  | error {e : Error} {m : Machine} :
    LocatedAs place (.error (.error e) m) (.error (.error (e.locate place)) m)
  | outOfFuel {m : Machine} : LocatedAs place (.error .outOfFuel m) (.error .outOfFuel m)

namespace Outcome

variable {α : Type} {place : Option Location} {o o' : Outcome α}

theorem LocatedAs.onMachine (h : LocatedAs place o o') (f : Machine → Machine) :
    LocatedAs place (o.onMachine f) (o'.onMachine f) := by
  cases h with
  | ok => exact .ok
  | error => exact .error
  | outOfFuel => exact .outOfFuel

/-- What fails without a location fails at a place as well, with the same error but for
    where it is reported. -/
theorem LocatedAs.left_error {e : Error} {m : Machine} (h : LocatedAs place o o')
    (ho : o = .error (.error e) m) : o' = .error (.error (e.locate place)) m := by
  subst ho
  cases h with
  | error => rfl

theorem LocatedAs.right_error {e' : Error} {m : Machine} (h : LocatedAs place o o')
    (ho : o' = .error (.error e') m) :
    ∃ e, o = .error (.error e) m ∧ e' = e.locate place := by
  subst ho
  cases h with
  | error => exact ⟨_, rfl, rfl⟩

end Outcome

namespace Eval

variable {α β : Type} {place : Option Location} {m : Machine}

/-- Reporting errors nowhere changes nothing. -/
theorem locate_none (x : Eval α) : locate none x = x := by
  funext m
  unfold locate
  cases x m with
  | ok a n => rfl
  | error i n =>
    cases i with
    | error e => simp only [Error.locate_none]
    | outOfFuel => rfl

theorem locatedAs_locate (place : Option Location) (x : Eval α) (m : Machine) :
    Outcome.LocatedAs place (locate none x m) (locate place x m) := by
  rw [locate_none]
  unfold locate
  cases x m with
  | ok a n => exact .ok
  | error i n =>
    cases i with
    | error e => exact .error
    | outOfFuel => exact .outOfFuel

theorem locatedAs_bind {x y : Eval Unit} {f g : Unit → Eval α}
    (hxy : Outcome.LocatedAs place (x m) (y m))
    (hfg : ∀ n, Outcome.LocatedAs place (f () n) (g () n)) :
    Outcome.LocatedAs place ((x >>= f) m) ((y >>= g) m) := by
  generalize hx : x m = o at hxy
  generalize hy : y m = o' at hxy
  cases hxy with
  | ok =>
    rw [bind_ok hx, bind_ok hy]
    exact hfg _
  | error =>
    rw [bind_error hx, bind_error hy]
    exact .error
  | outOfFuel =>
    rw [bind_error hx, bind_error hy]
    exact .outOfFuel

end Eval

/-! ## The stages of a call -/

namespace Session

section Stages

variable {s : Session} {call : Caller} {f : Function} {args : Args} {scope : ScopeId}
  {place : Option Location} {m : Machine}

theorem locatedAs_runNative {run : NativeCode} (hrun : run.Indifferent) (name : String)
    (bound : ScopeId) :
    Outcome.LocatedAs place (s.runNative name run bound scope none m)
      (s.runNative name run bound scope place m) := by
  simp only [runNative, Eval.ofStore_bind_apply, id_eq]
  have hbound := (m.store.locals bound).resembles_refl (Value.resembles_refl (R := .relocated))
  have hends := hrun .relocated ⟨name, m.store.locals bound, m.store.lookup? scope, none, s.options⟩
    ⟨name, m.store.locals bound, m.store.lookup? scope, place, s.options⟩ ⟨hbound, rfl⟩
    { m.builder with location := none } { m.builder with location := place } ⟨trivial, rfl⟩
  have hbuilder {c c' : Builder} (hc : c.Resembles .relocated c') :
      { c with location := m.builder.location } = { c' with location := m.builder.location } := by
    rw [hc.built]
  simp only [Eval.build, Build.stamped, Build.mapError, Error.locate_none]
  generalize run _ { m.builder with location := none } = r at hends
  generalize run _ { m.builder with location := place } = r' at hends
  cases hends with
  | ok _ hc =>
    simp only [hbuilder hc]
    exact .ok
  | error hc =>
    simp only [hbuilder hc]
    exact .error

theorem locatedAs_finish (hf : f.Runs NativeCode.Indifferent) (inner : ScopeId) :
    Outcome.LocatedAs place (s.finish call f inner scope none m)
      (s.finish call f inner scope place m) := by
  unfold finish
  cases hbody : f.body with
  | native run => exact locatedAs_runNative (hf run hbody) f.name inner
  | written d closure => exact Eval.locatedAs_locate place _ m

theorem locatedAs_invoke (hf : f.Runs NativeCode.Indifferent) :
    Outcome.LocatedAs place (s.invoke call f args scope none m)
      (s.invoke call f args scope place m) := by
  cases halive : f.body.alive m.store with
  | true =>
    rw [invoke_alive halive, invoke_alive halive, Eval.inNewScope_apply, Eval.inNewScope_apply]
    apply Outcome.LocatedAs.onMachine
    exact Eval.locatedAs_bind (Eval.locatedAs_locate place _ _) fun n => locatedAs_finish hf _
  | false =>
    rw [invoke_dead halive, invoke_dead halive, Error.locate_none]
    exact .error

/-- A call at a place does what it does without a location. -/
theorem locatedAs_call (hregistry : s.registry.Holds (Function.Runs NativeCode.Indifferent))
    (hm : m.store.Runs NativeCode.Indifferent) (fuel : Nat) (name : String) :
    Outcome.LocatedAs place (s.call fuel name args scope none m)
      (s.call fuel name args scope place m) := by
  cases fuel with
  | zero => exact .outOfFuel
  | succ fuel =>
    cases htarget : s.target m.store name args.count scope with
    | error e =>
      rw [call_no_target htarget, call_no_target htarget, Error.locate_none]
      exact .error
    | ok f =>
      rw [call_target htarget, call_target htarget]
      exact locatedAs_invoke (runs_target hregistry hm htarget)

end Stages

/-! ## The innermost site -/

/-- The errors of a call are reported somewhere when the call has a location. Whether a call
    fails, and with which error, does not depend on its location but for where the error is
    reported: either inside of the call, which is where it is reported for every location of
    the call and for none, or exactly at the call. -/
theorem call_fails_at_innermost_site (options : Options) (fuel : Nat) (name : String) (args : Args)
    (scope : ScopeId) {m m' : Machine} (hm : m.store.Runs NativeCode.Indifferent)
    {place : Option Location} {e : Error}
    (h : call ⟨.standard, options⟩ fuel name args scope place m = .error (.error e) m') :
    (place.isSome → e.location.isSome) ∧
    ∀ place' : Option Location, ∃ e' : Error,
      call ⟨.standard, options⟩ fuel name args scope place' m = .error (.error e') m' ∧
      e'.kind = e.kind ∧ e'.message = e.message ∧
      ((∃ inside e₀, call ⟨.standard, options⟩ fuel name args scope none m = .error (.error e₀) m' ∧
          e₀.location = some inside ∧ e.location = some inside ∧ e'.location = some inside) ∨
        (e.location = place ∧ e'.location = place')) := by
  have hlocated (place : Option Location) :
      Outcome.LocatedAs place (call ⟨.standard, options⟩ fuel name args scope none m)
        (call ⟨.standard, options⟩ fuel name args scope place m) :=
    locatedAs_call Registry.indifferent_standard hm fuel name
  obtain ⟨e₀, h₀, rfl⟩ := (hlocated place).right_error h
  constructor
  · intro hplace
    cases he : e₀.location <;> simp [he, hplace]
  · intro place'
    refine ⟨e₀.locate place', (hlocated place').left_error h₀, rfl, rfl, ?_⟩
    cases he : e₀.location with
    | none => exact .inr (by simp [he])
    | some inside => exact .inl ⟨inside, e₀, h₀, he, by simp [he]⟩

/-- `@function f() { @return $y }`, with `$y` at line 1 -/
def unreadable : Definition := ⟨"f", .empty, [.result (.variable "y" (some ⟨"a", 1⟩))], none⟩

/-- Called with no arguments at lines 2 and 3, `f` fails at line 1, where its body reads
    `$y`. Called with one too many, it fails at line 2, and without a location nowhere. -/
theorem unreadable_fails_at_innermost_site :
    let s : Session := ⟨.standard, .standard⟩
    let m := (Machine.fresh.enter none).defineFunction 0 (.ofDefinition unreadable 0)
    let unread : Error := ⟨.undefinedVariable "y", [], some ⟨"a", 1⟩⟩
    let surplus (place : Option Location) : Error := ⟨.wrongArity "f" "0" 1 (.tooMany 1), [], place⟩
    (∃ m', s.call 1 "f" ⟨[], []⟩ 0 (some ⟨"a", 2⟩) m = .error (.error unread) m' ∧
      ∃ e, s.call 1 "f" ⟨[], []⟩ 0 (some ⟨"a", 3⟩) m = .error (.error e) m' ∧
        e.location = some ⟨"a", 1⟩) ∧
    ∃ m', s.call 1 "f" ⟨[.null none], []⟩ 0 (some ⟨"a", 2⟩) m =
        .error (.error (surplus (some ⟨"a", 2⟩))) m' ∧
      ∃ e, s.call 1 "f" ⟨[.null none], []⟩ 0 none m = .error (.error e) m' ∧ e.location = none := by
  intro s m unread surplus
  have hcode : m.store.Runs NativeCode.Indifferent := by
    have hfresh : Machine.fresh.store.Runs NativeCode.Indifferent := nofun
    exact (hfresh.enter none).defineFunction (Function.runs_ofDefinition _ unreadable 0)
  constructor
  · have hfails : s.call 1 "f" ⟨[], []⟩ 0 (some ⟨"a", 2⟩) m = .error (.error unread)
        (Outcome.machine (s.call 1 "f" ⟨[], []⟩ 0 (some ⟨"a", 2⟩) m)) := by rfl
    refine ⟨_, hfails, ?_⟩
    obtain ⟨e, he, -, -, ⟨inside, _, -, -, hunread, hinside⟩ | ⟨hplace, -⟩⟩ :=
      (call_fails_at_innermost_site .standard 1 "f" ⟨[], []⟩ 0 hcode hfails).2 (some ⟨"a", 3⟩)
    · exact ⟨e, he, hinside.trans hunread.symm⟩
    · exact absurd hplace (by decide)
  · have hfails : s.call 1 "f" ⟨[.null none], []⟩ 0 (some ⟨"a", 2⟩) m =
        .error (.error (surplus (some ⟨"a", 2⟩)))
          (Outcome.machine (s.call 1 "f" ⟨[.null none], []⟩ 0 (some ⟨"a", 2⟩) m)) := by rfl
    have hbare : Outcome.result (s.call 1 "f" ⟨[.null none], []⟩ 0 none m) =
        .error (.error (surplus none)) := by rfl
    refine ⟨_, hfails, ?_⟩
    obtain ⟨e, he, -, -, ⟨_, _, hinner, hinside, -, -⟩ | ⟨-, hnowhere⟩⟩ :=
      (call_fails_at_innermost_site .standard 1 "f" ⟨[.null none], []⟩ 0 hcode hfails).2 none
    · rw [hinner] at hbare
      cases hbare
      cases hinside
    · exact ⟨e, he, hnowhere⟩

end Session

end StyleScript
