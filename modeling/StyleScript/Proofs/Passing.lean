-- SUMMARY: It does not matter whether an argument is passed by position or by name, nor in which order names are given.
import StyleScript.Builtin.Standard
import StyleScript.Proofs.Calls
import StyleScript.Proofs.Frame
import StyleScript.Proofs.Placing

/-!
# Passing arguments

The last positional arguments of a call can be given by the names of their parameters
instead, and named arguments can stand in any order. Placing them takes another course then,
and when it fails it may find another fault first. But it comes to the same slots or fails in
both cases, and all that follows looks at the slots, at the number of arguments and at the
surplus only.

The order is dealt with first: two arguments can be placed one before the other or the other
way round, so by induction a permutation changes nothing. Then naming a positional argument
is one step, because it goes to the first parameter that the positional ones before it leave
free.
-/

namespace StyleScript

namespace Slot

/-! ## The order of named arguments -/

/-- The slots after an argument was placed, unless it could not be. -/
def place? (key : String) (v : Value) (slots : List Slot) : Option (List Slot) :=
  (place key v slots).toOption

/-- The slots after named arguments were placed, unless one could not be. -/
def placeNamed? (named : List (String × Value)) (slots : List Slot) : Option (List Slot) :=
  (placeNamed named slots).toOption

theorem place?_cons (key : String) (v : Value) (slot : Slot) (slots : List Slot) :
    place? key v (slot :: slots) =
      if canonical slot.param.name = key then
        if slot.given.isSome then none else some ({ slot with given := some v } :: slots)
      else (place? key v slots).map (slot :: ·) := by
  unfold place?
  rw [place]
  by_cases hname : canonical slot.param.name = key
  · rw [if_pos hname, if_pos hname]
    cases slot.given <;> rfl
  · rw [if_neg hname, if_neg hname]
    cases place key v slots <;> rfl

theorem placeNamed?_cons (a : String × Value) (named : List (String × Value)) (slots : List Slot) :
    placeNamed? (a :: named) slots =
      (place? (canonical a.1) a.2 slots).bind (placeNamed? named) := by
  unfold placeNamed? place?
  rw [placeNamed]
  cases place (canonical a.1) a.2 slots <;> rfl

/-- An argument passes by a parameter of another name, wherever it comes from. -/
theorem bind_place?_cons {key : String} {slot : Slot} (h : canonical slot.param.name ≠ key)
    (v : Value) (placed : Option (List Slot)) :
    (placed.map (slot :: ·)).bind (place? key v) = (placed.bind (place? key v)).map (slot :: ·) := by
  cases placed with
  | none => rfl
  | some slots => exact (place?_cons key v slot slots).trans (if_neg h)

/-- An argument for the first parameter and one for another parameter are placed in either
    order. -/
theorem place?_comm_first {l : String} {slot : Slot} (hl : canonical slot.param.name ≠ l)
    (v w : Value) (slots : List Slot) :
    (place? (canonical slot.param.name) v (slot :: slots)).bind (place? l w) =
      (place? l w (slot :: slots)).bind (place? (canonical slot.param.name) v) := by
  cases hgiven : slot.given <;> cases hrest : place? l w slots <;>
    simp [place?_cons, hl, hgiven, hrest]

/-- Two arguments are placed in either order with the same slots, or cannot be placed in
    either order. -/
theorem place?_comm (k l : String) (v w : Value) (slots : List Slot) :
    (place? k v slots).bind (place? l w) = (place? l w slots).bind (place? k v) := by
  induction slots with
  | nil => rfl
  | cons slot slots ih =>
    by_cases hk : canonical slot.param.name = k
    · subst hk
      by_cases hl : canonical slot.param.name = l
      · -- Both arguments are for this parameter, so the later one finds it taken.
        subst hl
        cases hgiven : slot.given <;> simp [place?_cons, hgiven]
      · exact place?_comm_first hl v w slots
    · by_cases hl : canonical slot.param.name = l
      · subst hl
        exact (place?_comm_first hk w v slots).symm
      · simp only [place?_cons, if_neg hk, if_neg hl, bind_place?_cons hk, bind_place?_cons hl, ih]

/-- Named arguments are placed in any order with the same slots, or in none. -/
theorem placeNamed?_perm {named named' : List (String × Value)} (h : named.Perm named')
    (slots : List Slot) : placeNamed? named slots = placeNamed? named' slots := by
  induction h generalizing slots with
  | nil => rfl
  | cons a _ ih => simp only [placeNamed?_cons, funext ih]
  | swap a b named =>
    have hcons (a : String × Value) : placeNamed? (a :: named) = fun slots =>
        (place? (canonical a.1) a.2 slots).bind (placeNamed? named) :=
      funext (placeNamed?_cons a named)
    rw [placeNamed?_cons, placeNamed?_cons, hcons, hcons, ← Option.bind_assoc, place?_comm,
      Option.bind_assoc]
  | trans _ _ ih ih' => exact (ih slots).trans (ih' slots)

theorem placeNamed?_append (first second : List (String × Value)) (slots : List Slot) :
    placeNamed? (first ++ second) slots = (placeNamed? first slots).bind (placeNamed? second) := by
  induction first generalizing slots with
  | nil => rfl
  | cons a first ih =>
    rw [List.cons_append, placeNamed?_cons, placeNamed?_cons, Option.bind_assoc, funext ih]

/-! ## Positional arguments by name -/

/-- An argument with the name of the first parameter that positional arguments leave free is
    placed like one more positional argument. -/
theorem place?_next {ps : List Param} (hkeys : (ps.map fun param => canonical param.name).Nodup)
    {vs : List Value} {next : Param} (hnext : ps[vs.length]? = some next) (v : Value) :
    place? (canonical next.name) v (positional ps vs) = some (positional ps (vs ++ [v])) := by
  induction ps generalizing vs with
  | nil => cases hnext
  | cons param ps ih =>
    obtain ⟨hfirst, hothers⟩ := List.nodup_cons.1 hkeys
    cases vs with
    | nil =>
      obtain rfl : param = next := Option.some.inj hnext
      exact (place?_cons _ v ⟨param, none⟩ _).trans (if_pos rfl)
    | cons u vs =>
      have hne : canonical param.name ≠ canonical next.name := fun hsame =>
        hfirst (List.mem_map.2 ⟨next, List.mem_of_getElem? hnext, hsame.symm⟩)
      rw [positional, place?_cons, if_neg hne, ih hothers hnext]
      rfl

end Slot

namespace Params

/-- Arguments by the names of the parameters from a position on, in whatever spelling. -/
def Names (p : Params) (start : Nat) (moved : List (String × Value)) : Prop :=
  ∀ (i : Nat) (a : String × Value), moved[i]? = some a →
    ∃ param, p.fixed[start + i]? = some param ∧ SameName a.1 param.name

theorem Names.head {p : Params} {start : Nat} {a : String × Value} {moved : List (String × Value)}
    (h : p.Names start (a :: moved)) :
    ∃ param, p.fixed[start]? = some param ∧ SameName a.1 param.name := h 0 a rfl

theorem Names.tail {p : Params} {start : Nat} {a : String × Value} {moved : List (String × Value)}
    (h : p.Names start (a :: moved)) : p.Names (start + 1) moved := by
  intro i b hb
  rw [Nat.add_assoc, Nat.add_comm 1]
  exact h (i + 1) b hb

theorem names_single {p : Params} {start : Nat} {a : String × Value} {param : Param}
    (hparam : p.fixed[start]? = some param) (hname : SameName a.1 param.name) :
    p.Names start [a] := by
  intro i b hb
  cases i with
  | zero =>
    obtain rfl : a = b := Option.some.inj hb
    exact ⟨param, hparam, hname⟩
  | succ i => cases hb

/-- Arguments with the names of the parameters that positional ones leave free are placed
    like more positional ones. -/
theorem placeNamed?_moved {p : Params}
    (hkeys : (p.fixed.map fun param => canonical param.name).Nodup) {kept : List Value}
    {moved : List (String × Value)} (h : p.Names kept.length moved) :
    Slot.placeNamed? moved (Slot.positional p.fixed kept) =
      some (Slot.positional p.fixed (kept ++ moved.map (·.2))) := by
  induction moved generalizing kept with
  | nil =>
    rw [List.map_nil, List.append_nil]
    rfl
  | cons a moved ih =>
    obtain ⟨param, hparam, hname⟩ := h.head
    have htail : p.Names (kept ++ [a.2]).length moved := by
      rw [List.length_append]
      exact h.tail
    rw [Slot.placeNamed?_cons, hname, Slot.place?_next hkeys hparam, Option.bind_some, ih htail,
      List.append_assoc]
    rfl

end Params

/-- Arguments, and the same with some of the last positional ones given by the names of their
    parameters and the named ones in another order. -/
inductive Args.Rearranged (p : Params) : Args → Args → Prop where
  | intro {kept : List Value} {moved named named' : List (String × Value)} :
    p.Names kept.length moved → named'.Perm (moved ++ named) →
    Rearranged p ⟨kept ++ moved.map (·.2), named⟩ ⟨kept, named'⟩

namespace Args

variable {p : Params} {args args' : Args}

theorem Rearranged.count (h : args.Rearranged p args') : args'.count = args.count := by
  obtain ⟨_, hperm⟩ := h
  simp only [Args.count, hperm.length_eq, List.length_append, List.length_map]
  omega

theorem Rearranged.length_le (h : args.Rearranged p args') :
    args'.positional.length ≤ args.positional.length := by
  obtain ⟨_, _⟩ := h
  simp

/-- Rearranged arguments come to the same slots, or cannot be placed either. -/
theorem Rearranged.toOption_place (h : args.Rearranged p args')
    (hkeys : (p.fixed.map fun param => canonical param.name).Nodup)
    (hfixed : args.positional.length ≤ p.fixed.length) :
    (p.place args').toOption = (p.place args).toOption := by
  have hplace (args : Args) (hle : args.positional.length ≤ p.fixed.length) :
      (p.place args).toOption =
        Slot.placeNamed? args.named (Slot.positional p.fixed args.positional) := by
    unfold Params.place
    rw [if_neg fun hsurplus => absurd hsurplus.1 (Nat.not_lt.2 hle)]
    rfl
  rw [hplace args' (h.length_le.trans hfixed), hplace args hfixed]
  obtain ⟨hnames, hperm⟩ := h
  rw [Slot.placeNamed?_perm hperm, Slot.placeNamed?_append, Params.placeNamed?_moved hkeys hnames,
    Option.bind_some]

end Args

/-! ## Calls -/

/-- The same outcome, or two errors of one kind at one place, which may be worded differently. -/
inductive Outcome.Reworded {α : Type} : Outcome α → Outcome α → Prop where
  | same (o : Outcome α) : Reworded o o
  | error {e e' : Error} {m : Machine} :
    e'.kind = e.kind → e'.location = e.location →
    Reworded (.error (.error e) m) (.error (.error e') m)

namespace Outcome

variable {α : Type}

theorem Reworded.eq_ok {o : Outcome α} {a : α} {m : Machine} (h : Reworded (.ok a m) o) :
    o = .ok a m := by
  cases h with
  | same => rfl

theorem Reworded.onMachine {o o' : Outcome α} (h : Reworded o o') (f : Machine → Machine) :
    Reworded (o.onMachine f) (o'.onMachine f) := by
  cases h with
  | same => exact .same _
  | error hkind hlocation => exact .error hkind hlocation

theorem Reworded.locate {x y : Eval α} {m : Machine} (h : Reworded (x m) (y m))
    (place : Option Location) : Reworded (Eval.locate place x m) (Eval.locate place y m) := by
  unfold Eval.locate
  generalize x m = o at h
  generalize y m = o' at h
  cases h with
  | same => exact .same _
  | error hkind hlocation => exact .error hkind (by simp [hlocation])

theorem Reworded.bind {β : Type} {x y : Eval α} {m : Machine} (h : Reworded (x m) (y m))
    (f : α → Eval β) : Reworded ((x >>= f) m) ((y >>= f) m) := by
  generalize hx : x m = o at h
  generalize hy : y m = o' at h
  cases h with
  | same =>
    cases o with
    | ok a n =>
      rw [Eval.bind_ok hx, Eval.bind_ok hy]
      exact .same _
    | error e n =>
      rw [Eval.bind_error hx, Eval.bind_error hy]
      exact .same _
  | error hkind hlocation =>
    rw [Eval.bind_error hx, Eval.bind_error hy]
    exact .error hkind hlocation

end Outcome

section Calls

variable {p : Params} {args args' : Args}

/-- Binding does the same with rearranged arguments. Only when they cannot be placed, another
    fault may be reported. -/
theorem Params.bind_rearranged (hkeys : (p.fixed.map fun param => canonical param.name).Nodup)
    (hfixed : args.positional.length ≤ p.fixed.length) (h : args.Rearranged p args')
    (function : String) (evaluate : Evaluator) (scope : ScopeId) (m : Machine) :
    Outcome.Reworded (p.bind function args evaluate scope m)
      (p.bind function args' evaluate scope m) := by
  have hsame := h.toOption_place hkeys hfixed
  cases hplace : p.place args with
  | error fault =>
    cases hplace' : p.place args' with
    | error fault' =>
      rw [bind_of_place_error hplace, bind_of_place_error hplace']
      exact .error rfl rfl
    | ok slots =>
      rw [hplace, hplace'] at hsame
      cases hsame
  | ok slots =>
    cases hplace' : p.place args' with
    | error fault' =>
      rw [hplace, hplace'] at hsame
      cases hsame
    | ok slots' =>
      rw [hplace, hplace'] at hsame
      obtain rfl : slots' = slots := Option.some.inj hsame
      -- What comes after placing reads only the number of arguments and the surplus.
      have hsurplus : args'.positional.drop p.fixed.length = args.positional.drop p.fixed.length := by
        rw [List.drop_eq_nil_of_le hfixed, List.drop_eq_nil_of_le (h.length_le.trans hfixed)]
      have hcomplete : p.complete function args' scope = p.complete function args scope := by
        funext missing
        cases missing with
        | nil => simp only [complete, bindRest, hsurplus]
        | cons _ _ => simp only [complete, misfit, h.count]
      rw [bind_of_place_ok hplace, bind_of_place_ok hplace', hcomplete]
      exact .same _

namespace Session

/-- Passing arguments by position or by name makes no difference, nor does the order of names:
    the call reaches the same function and comes to the same value on the same machine, or
    fails with an error of the same kind. -/
theorem call_rearranged (s : Session) (fuel : Nat) (name : String) (scope : ScopeId)
    (location : Option Location) {m : Machine} {f : Function}
    (htarget : s.target m.store name args.count scope = .ok f)
    (hkeys : (f.params.fixed.map fun param => canonical param.name).Nodup)
    (hfixed : args.positional.length ≤ f.params.fixed.length)
    (h : args.Rearranged f.params args') :
    s.target m.store name args'.count scope = .ok f ∧
      Outcome.Reworded (s.call fuel name args scope location m)
        (s.call fuel name args' scope location m) := by
  have htarget' : s.target m.store name args'.count scope = .ok f := by
    rw [h.count]
    exact htarget
  refine ⟨htarget', ?_⟩
  cases fuel with
  | zero => exact .same _
  | succ fuel =>
    rw [call_target htarget, call_target htarget']
    cases halive : f.body.alive m.store with
    | false =>
      rw [invoke_dead halive, invoke_dead halive]
      exact .same _
    | true =>
      rw [invoke_alive halive, invoke_alive halive, Eval.inNewScope_apply, Eval.inNewScope_apply]
      have hbind := Params.bind_rearranged hkeys hfixed h f.name (evaluator (s.call fuel))
        m.store.next (m.enter f.body.around)
      exact ((hbind.locate location).bind _).onMachine _

/-- `rgba(#000000, 0.5)` and `rgba(#000000, $alpha: 0.5)` reach the candidate with two
    parameters and give the same color. -/
theorem rgba_rearranged :
    let s : Session := ⟨.standard, .standard⟩
    let m := Machine.fresh.enter none
    let black : Value := .color (.rgb 0 0 0) none
    let half : Value := .number (.unitless 0.5) none
    ∃ f v n, s.target m.store "rgba" 2 0 = .ok f ∧
      f.params.fixed.map (·.name) = ["color", "alpha"] ∧
      s.call 1 "rgba" ⟨[black, half], []⟩ 0 none m = .ok v n ∧
      s.call 1 "rgba" ⟨[black], [("$alpha", half)]⟩ 0 none m = .ok v n := by
  intro s m black half
  -- computed at once, since both go through the signatures of the whole registry
  obtain ⟨hnames, hresult⟩ :
      (s.target m.store "rgba" 2 0).toOption.map (·.params.fixed.map (·.name)) =
        some ["color", "alpha"] ∧
      (Outcome.result
        (s.call 1 "rgba" ⟨[black, half], []⟩ 0 none m)).toOption.isSome = true := by
    decide +kernel
  cases htarget : s.target m.store "rgba" 2 0 with
  | error e =>
    rw [htarget] at hnames
    cases hnames
  | ok f =>
    rw [htarget] at hnames
    have hf : f.params.fixed.map (·.name) = ["color", "alpha"] := Option.some.inj hnames
    obtain ⟨color, _, hfixed, hcolor, hrest⟩ := List.map_eq_cons_iff.1 hf
    obtain ⟨alpha, _, rfl, halpha, hnil⟩ := List.map_eq_cons_iff.1 hrest
    obtain rfl := List.map_eq_nil_iff.1 hnil
    have hkeys : (f.params.fixed.map fun param => canonical param.name).Nodup := by
      rw [hfixed, List.map_cons, List.map_cons, hcolor, halpha]
      decide
    have hmoved : f.params.Names 1 [("$alpha", half)] := by
      have hspelling : canonical "$alpha" = canonical "alpha" := by decide
      exact Params.names_single (by rw [hfixed]; rfl) (halpha ▸ hspelling)
    have hrearranged : Args.Rearranged f.params ⟨[black, half], []⟩ ⟨[black], [("$alpha", half)]⟩ :=
      @Args.Rearranged.intro f.params [black] _ _ _ hmoved (List.Perm.refl _)
    have hcalls := (call_rearranged s 1 "rgba" 0 none htarget hkeys (by rw [hfixed]; rfl)
      hrearranged).2
    cases hcall : s.call 1 "rgba" ⟨[black, half], []⟩ 0 none m with
    | error e n =>
      rw [hcall] at hresult
      cases hresult
    | ok v n =>
      rw [hcall] at hcalls
      exact ⟨f, v, n, rfl, hf, rfl, hcalls.eq_ok⟩

end Session

end Calls

end StyleScript
