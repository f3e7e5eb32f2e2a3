-- SUMMARY: When a parameter without an argument is reported as missing, and when a default is in the way.
import StyleScript.Proofs.Binding

/-!
# Missing arguments

A parameter that has neither an argument nor a default is lacking. The lacking
parameters are reported together, after all defaults were evaluated. So the report
comes exactly when every default gives a value. A default that fails is reported
instead, also when it fails because it reads a parameter that is lacking.
-/

namespace StyleScript

namespace Slot

/-- A parameter with neither an argument nor a default. -/
def bare (slot : Slot) : Bool := slot.given.isNone && slot.param.default.isNone

/-- The names of the parameters that have neither an argument nor a default. -/
def lacking (slots : List Slot) : List String := (slots.filter bare).map (·.param.name)

theorem lacking_cons (slot : Slot) (slots : List Slot) :
    lacking (slot :: slots) =
      if slot.bare then slot.param.name :: lacking slots else lacking slots := by
  cases h : slot.bare <;> simp [lacking, h]

theorem lacking_eq_nil {slots : List Slot} :
    lacking slots = [] ↔ ∀ slot ∈ slots, slot.bare = false := by
  simp [lacking]

/-- Going through the parameters in order, each on the machine that the ones before it
    left, a default is come to that gives no value. -/
inductive DefaultFails (evaluate : Evaluator) (scope : ScopeId) :
    List Slot → Machine → Interruption → Machine → Prop where
  | here {slot slots m e i n} :
    slot.given = none → slot.param.default = some e → (∀ v, e ≠ .literal v) →
    evaluate e scope m = .error i n →
    DefaultFails evaluate scope (slot :: slots) m i n
  | bound {slot slots m v n i n'} :
    slot.value? evaluate scope m = .ok (some v) n →
    DefaultFails evaluate scope slots (n.define scope slot.param.name v) i n' →
    DefaultFails evaluate scope (slot :: slots) m i n'
  | passed {slot slots m n i n'} :
    slot.value? evaluate scope m = .ok none n →
    DefaultFails evaluate scope slots n i n' →
    DefaultFails evaluate scope (slot :: slots) m i n'

variable {evaluate : Evaluator} {scope : ScopeId} {slot : Slot} {slots : List Slot}
  {m n : Machine} {i : Interruption}

/-! ## One parameter -/

/-- Only an evaluated default can keep a parameter from its value. -/
theorem value?_eq_error (h : slot.value? evaluate scope m = .error i n) :
    ∃ e, slot.given = none ∧ slot.param.default = some e ∧ (∀ v, e ≠ .literal v) ∧
      evaluate e scope m = .error i n := by
  cases hgiven : slot.given with
  | some v =>
    simp [value?_given hgiven] at h
  | none =>
    rcases default_cases slot.param with hdefault | ⟨v, hdefault⟩ | ⟨e, hdefault, hliteral⟩
    · simp [value?_none hgiven hdefault] at h
    · simp [value?_literal hgiven hdefault] at h
    · refine ⟨e, rfl, hdefault, hliteral, ?_⟩
      rw [value?_default hgiven hdefault hliteral, map_eq_pure_bind] at h
      cases hev : evaluate e scope m with
      | ok v n' =>
        rw [Eval.bind_ok hev] at h
        cases h
      | error i' n' =>
        rw [Eval.bind_error hev] at h
        cases h
        rfl

/-- A parameter that gets a value is not bare. -/
theorem bare_of_value?_some {v : Value} (h : slot.value? evaluate scope m = .ok (some v) n) :
    slot.bare = false := by
  rcases value?_eq_ok h with ⟨hgiven, _⟩ | ⟨_, hdefault, _⟩ | ⟨e, _, hdefault, _⟩
  · simp [bare, hgiven]
  · simp [bare, hdefault]
  · simp [bare, hdefault]

/-- A parameter that gets none is bare, and changes nothing. -/
theorem bare_of_value?_none (h : slot.value? evaluate scope m = .ok none n) :
    slot.bare = true ∧ n = m := by
  cases hgiven : slot.given with
  | some v =>
    simp [value?_given hgiven] at h
  | none =>
    rcases default_cases slot.param with hdefault | ⟨v, hdefault⟩ | ⟨e, hdefault, hliteral⟩
    · rw [value?_none hgiven hdefault] at h
      cases h
      simp [bare, hgiven, hdefault]
    · simp [value?_literal hgiven hdefault] at h
    · rw [value?_default hgiven hdefault hliteral, map_eq_pure_bind] at h
      obtain ⟨v, _, _, hpure⟩ := Eval.bind_eq_ok.1 h
      cases hpure

/-! ## All parameters -/

/-- Filling that comes to its end tells which parameters are lacking. -/
theorem fill_ok {missing : List String} (h : fill evaluate scope slots m = .ok missing n) :
    missing = lacking slots := by
  induction slots generalizing m missing with
  | nil =>
    cases h
    rfl
  | cons slot slots ih =>
    rw [fill_cons] at h
    obtain ⟨value, n', hvalue, hsettle⟩ := Eval.bind_eq_ok.1 h
    cases value with
    | some v =>
      obtain ⟨_, _, hdefine, hfill⟩ := Eval.bind_eq_ok.1 hsettle
      simp [lacking_cons, bare_of_value?_some hvalue, ih hfill]
    | none =>
      obtain ⟨others, _, hfill, hpure⟩ := Eval.bind_eq_ok.1 hsettle
      cases hpure
      simp [lacking_cons, (bare_of_value?_none hvalue).1, ih hfill]

/-- Filling fails as the first default does that gives no value. -/
theorem fill_eq_error_iff :
    fill evaluate scope slots m = .error i n ↔ DefaultFails evaluate scope slots m i n := by
  constructor
  · intro h
    induction slots generalizing m with
    | nil => cases h
    | cons slot slots ih =>
      rw [fill_cons] at h
      cases hvalue : slot.value? evaluate scope m with
      | error i' n' =>
        rw [Eval.bind_error hvalue] at h
        cases h
        obtain ⟨e, hgiven, hdefault, hliteral, hev⟩ := value?_eq_error hvalue
        exact .here hgiven hdefault hliteral hev
      | ok value n' =>
        rw [Eval.bind_ok hvalue] at h
        cases value with
        | some v =>
          rw [settle, Eval.bind_ok (Eval.define_apply ..)] at h
          exact .bound hvalue (ih h)
        | none =>
          rw [settle] at h
          cases hfill : fill evaluate scope slots n' with
          | ok missing n'' =>
            rw [Eval.bind_ok hfill] at h
            cases h
          | error i' n'' =>
            rw [Eval.bind_error hfill] at h
            cases h
            exact .passed hvalue (ih hfill)
  · intro h
    induction h with
    | here hgiven hdefault hliteral hev =>
      rw [fill_cons, value?_default hgiven hdefault hliteral, map_eq_pure_bind]
      exact Eval.bind_error (Eval.bind_error hev)
    | bound hvalue _ ih =>
      rw [fill_cons, Eval.bind_ok hvalue, settle, Eval.bind_ok (Eval.define_apply ..)]
      exact ih
    | passed hvalue _ ih =>
      rw [fill_cons, Eval.bind_ok hvalue, settle]
      exact Eval.bind_error ih

/-- Literal defaults do not fail. -/
theorem not_defaultFails_of_literal
    (h : ∀ slot ∈ slots, ∀ e, slot.param.default = some e → ∃ v, e = .literal v) :
    ¬DefaultFails evaluate scope slots m i n := by
  intro hfails
  induction hfails with
  | here _ hdefault hliteral _ =>
    obtain ⟨v, hv⟩ := h _ List.mem_cons_self _ hdefault
    exact hliteral v hv
  | bound _ _ ih => exact ih fun slot hslot => h slot (List.mem_cons_of_mem _ hslot)
  | passed _ _ ih => exact ih fun slot hslot => h slot (List.mem_cons_of_mem _ hslot)

end Slot

/-! ## Binding -/

namespace Params

variable {p : Params} {function : String} {args : Args} {evaluate : Evaluator} {scope : ScopeId}
  {slots : List Slot} {m n : Machine} {i : Interruption}

/-- A default that gives no value ends a binding, whatever is lacking. -/
theorem bind_of_defaultFails (hplace : p.place args = .ok slots)
    (h : Slot.DefaultFails evaluate scope slots m i n) :
    p.bind function args evaluate scope m = .error i n := by
  rw [bind_of_place_ok hplace]
  exact Eval.bind_error (Slot.fill_eq_error_iff.2 h)

/-- When all defaults give values, the parameters get theirs, or the lacking ones are
    reported. -/
theorem bind_of_defaults (function : String) (hplace : p.place args = .ok slots)
    (h : ∀ i n, ¬Slot.DefaultFails evaluate scope slots m i n) :
    ∃ n, p.bind function args evaluate scope m =
      p.complete function args scope (Slot.lacking slots) n := by
  rw [bind_of_place_ok hplace]
  cases hfill : Slot.fill evaluate scope slots m with
  | error i n => exact absurd (Slot.fill_eq_error_iff.1 hfill) (h i n)
  | ok missing n =>
    refine ⟨n, ?_⟩
    rw [Eval.bind_ok hfill, Slot.fill_ok hfill]

/-- Lacking parameters are reported when all defaults give values. -/
theorem bind_of_lacking (function : String) (hplace : p.place args = .ok slots)
    (hlacking : Slot.lacking slots ≠ []) (h : ∀ i n, ¬Slot.DefaultFails evaluate scope slots m i n) :
    ∃ n, p.bind function args evaluate scope m =
      .error (.error (p.misfit function args (.missing (Slot.lacking slots)))) n := by
  obtain ⟨n, hbind⟩ := bind_of_defaults function hplace h
  refine ⟨n, hbind.trans ?_⟩
  cases hnames : Slot.lacking slots with
  | nil => exact absurd hnames hlacking
  | cons name names => rfl

/-- When a parameter is lacking, the binding fails for the number of its arguments
    exactly if no default fails before for another reason. -/
theorem bind_reports_lacking_iff (hplace : p.place args = .ok slots)
    (hlacking : Slot.lacking slots ≠ []) :
    (∃ e n, p.bind function args evaluate scope m = .error (.error e) n ∧
      e.kind = .argumentCount) ↔
    ∀ i n, Slot.DefaultFails evaluate scope slots m i n →
      ∃ e, i = .error e ∧ e.kind = .argumentCount := by
  constructor
  · rintro ⟨e, n, hbind, hkind⟩ i n' hfails
    rw [bind_of_defaultFails hplace hfails] at hbind
    cases hbind
    exact ⟨e, rfl, hkind⟩
  · intro h
    by_cases hfails : ∃ i n, Slot.DefaultFails evaluate scope slots m i n
    · obtain ⟨i, n, hfails⟩ := hfails
      obtain ⟨e, rfl, hkind⟩ := h i n hfails
      exact ⟨e, n, bind_of_defaultFails hplace hfails, hkind⟩
    · have hdefaults (i : Interruption) (n : Machine) :
          ¬Slot.DefaultFails evaluate scope slots m i n := fun hi => hfails ⟨i, n, hi⟩
      obtain ⟨n, hbind⟩ := bind_of_lacking function hplace hlacking hdefaults
      exact ⟨_, n, hbind, rfl⟩

/-- `$b: (), $a`, where the default is an expression. -/
def independent : Params := ⟨[⟨"b", some (.list [] .comma)⟩, ⟨"a", none⟩], none⟩

/-- A parameter that is lacking is reported after the default before it gave a value. -/
theorem bind_reports_lacking_independent :
    let s : Session := ⟨.empty, .standard⟩
    let m := Machine.fresh.enter none
    ∃ e n, independent.bind "f" ⟨[], []⟩ (Session.evaluator (s.call 0)) 0 m = .error (.error e) n ∧
      e.kind = .argumentCount := by
  intro s m
  have hplace : independent.place ⟨[], []⟩ = .ok (Slot.positional independent.fixed []) := rfl
  refine (bind_reports_lacking_iff hplace (by decide)).2 fun i n hfails => ?_
  cases Slot.fill_eq_error_iff.2 hfails

/-- `$a, $b: $a` -/
def dependent : Params := ⟨[⟨"a", none⟩, ⟨"b", some (.variable "a" none)⟩], none⟩

/-- A default that reads a lacking parameter hides that it is lacking. -/
theorem default_hides_lacking :
    let s : Session := ⟨.empty, .standard⟩
    let m := Machine.fresh.enter none
    let x := dependent.bind "f" ⟨[], []⟩ (Session.evaluator (s.call 0)) 0 m
    (∃ slots, dependent.place ⟨[], []⟩ = .ok slots ∧ Slot.lacking slots = ["a"]) ∧
      Outcome.result x = .error (.error (.ofCause (.undefinedVariable "a"))) ∧
      ¬∃ e n, x = .error (.error e) n ∧ e.kind = .argumentCount := by
  intro s m x
  have hplace : dependent.place ⟨[], []⟩ = .ok (Slot.positional dependent.fixed []) := rfl
  have hresult : Outcome.result x = .error (.error (.ofCause (.undefinedVariable "a"))) := rfl
  refine ⟨⟨_, hplace, by decide⟩, hresult, ?_⟩
  rintro ⟨e, n, hx, hkind⟩
  rw [hx] at hresult
  cases hresult
  cases hkind

end Params

end StyleScript
