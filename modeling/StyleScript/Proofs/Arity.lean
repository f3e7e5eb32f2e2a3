-- SUMMARY: Arguments that can be bound are as many as the parameters accept.
import StyleScript.Proofs.Builtins
import StyleScript.Proofs.Missing

/-!
# Numbers of arguments

Among the candidates of a name one is chosen by the number of arguments alone. That
number is looked at because it decides in one direction: each argument is placed on a
parameter of its own or goes to the rest parameter, and each parameter without a
default needs one, so a number that is not accepted cannot be bound. Whatever is
passed over on the way to a candidate could not have taken the arguments.
-/

namespace StyleScript

namespace Slot

/-- How many parameters have an argument. -/
def givenCount (slots : List Slot) : Nat := slots.countP (·.given.isSome)

theorem givenCount_positional (ps : List Param) (vs : List Value) :
    givenCount (positional ps vs) = min ps.length vs.length := by
  induction ps generalizing vs with
  | nil => simp [positional, givenCount]
  | cons p ps ih =>
    cases vs with
    | nil => simpa [positional, givenCount] using ih []
    | cons v vs =>
      have htail := ih vs
      simp only [givenCount] at htail
      simp [positional, givenCount, htail, Nat.add_min_add_right]

/-- Placing an argument takes a parameter that had none. -/
theorem givenCount_place {key : String} {v : Value} {slots slots' : List Slot}
    (h : place key v slots = .ok slots') : givenCount slots' = givenCount slots + 1 := by
  induction slots generalizing slots' with
  | nil => cases h
  | cons slot slots ih =>
    unfold place at h
    split at h
    · split at h
      · cases h
      · rename_i hgiven
        cases h
        simp [givenCount, hgiven]
    · cases hrest : place key v slots with
      | error fault =>
        rw [hrest] at h
        cases h
      | ok rest =>
        rw [hrest] at h
        cases h
        have htail := ih hrest
        simp only [givenCount] at htail
        simp only [givenCount, List.countP_cons, htail]
        omega

theorem givenCount_placeNamed {named : List (String × Value)} {slots slots' : List Slot}
    (h : placeNamed named slots = .ok slots') :
    givenCount slots' = givenCount slots + named.length := by
  induction named generalizing slots with
  | nil =>
    cases h
    rfl
  | cons entry named ih =>
    unfold placeNamed at h
    cases hplace : place (canonical entry.1) entry.2 slots with
    | error fault =>
      rw [hplace] at h
      cases h
    | ok placed =>
      rw [hplace] at h
      rw [ih h, givenCount_place hplace, List.length_cons]
      omega

/-- When none is lacking, the parameters without defaults have arguments. -/
theorem required_le_givenCount {slots : List Slot} (h : lacking slots = []) :
    (params slots).countP (·.default.isNone) ≤ givenCount slots := by
  rw [params, List.countP_map]
  refine List.countP_mono_left fun slot hslot hrequired => ?_
  have hbare := lacking_eq_nil.1 h slot hslot
  cases hgiven : slot.given with
  | some v => rfl
  | none => simp_all [bare]

end Slot

namespace Params

/-- The arguments can be bound: for some function, with some evaluation of defaults and
    in some scope. -/
def CanBind (p : Params) (args : Args) : Prop :=
  ∃ function evaluate scope m m', p.bind function args evaluate scope m = .ok () m'

/-- Placed arguments are as many as parameters have got, and the surplus. -/
theorem count_of_place {p : Params} {args : Args} {slots : List Slot}
    (h : p.place args = .ok slots) :
    args.count = Slot.givenCount slots + (args.positional.length - p.fixed.length) := by
  have hgiven := Slot.givenCount_placeNamed (place_eq_ok h).2
  rw [Slot.givenCount_positional] at hgiven
  rw [Args.count, hgiven]
  omega

theorem givenCount_le {p : Params} {args : Args} {slots : List Slot}
    (h : p.place args = .ok slots) : Slot.givenCount slots ≤ p.fixed.length := by
  have hparams := congrArg List.length (params_of_place h)
  rw [Slot.params, List.length_map] at hparams
  exact hparams ▸ List.countP_le_length

/-- A number of arguments that is not accepted cannot be bound. -/
theorem CanBind.accepts {p : Params} {args : Args} (h : p.CanBind args) :
    p.accepts args.count = true := by
  obtain ⟨function, evaluate, scope, m, m', hbind⟩ := h
  obtain ⟨slots, n, hplace, hfill, _⟩ := bind_eq_ok hbind
  have hcount := count_of_place hplace
  have hrequired : p.required ≤ Slot.givenCount slots := by
    have hle := Slot.required_le_givenCount (Slot.fill_ok hfill).symm
    rwa [params_of_place hplace] at hle
  have hmost : p.most.all (args.count ≤ ·) = true := by
    cases hrest : p.rest with
    | some rest => simp [most, hrest]
    | none =>
      have hsurplus := (place_eq_ok hplace).1
      have hgiven := givenCount_le hplace
      simp only [hrest, and_true, not_lt] at hsurplus
      simp only [most, hrest, Option.all_some, decide_eq_true_eq]
      omega
  rw [Params.accepts, hmost, Bool.and_true, decide_eq_true_eq]
  omega

/-- What does not accept the number of arguments cannot bind them. -/
theorem not_canBind {p : Params} {args : Args} (h : p.accepts args.count = false) :
    ¬p.CanBind args := by
  intro hbind
  rw [hbind.accepts] at h
  cases h

end Params

namespace Registry

variable {r : Registry} {name : String} {count : Nat} {f : Function}

/-- The chosen candidate is the only one, or the first that accepts the number of
    arguments. -/
theorem resolve_eq_ok (h : r.resolve name count = .ok f) :
    r.candidates name = [f] ∨
      f.params.accepts count = true ∧ ∃ before after, r.candidates name = before ++ f :: after ∧
        ∀ g ∈ before, g.params.accepts count = false := by
  unfold resolve at h
  unfold candidates
  split at h
  · cases h
  · rename_i only hget
    cases h
    exact .inl (by rw [hget]; rfl)
  · rename_i several _ hget
    cases hfind : several.find? (·.params.accepts count) with
    | none =>
      rw [hfind] at h
      cases h
    | some g =>
      rw [hfind] at h
      cases h
      obtain ⟨haccepts, before, after, hseveral, hbefore⟩ := List.find?_eq_some_iff_append.1 hfind
      refine .inr ⟨haccepts, before, after, by rw [hget]; exact hseveral, fun g hg => ?_⟩
      simpa using hbefore g hg

/-- Candidates before the chosen one do not accept the number of arguments. -/
theorem candidates_of_resolve (h : r.resolve name count = .ok f) :
    ∃ before after, r.candidates name = before ++ f :: after ∧
      ∀ g ∈ before, g.params.accepts count = false := by
  rcases resolve_eq_ok h with honly | ⟨_, hbefore⟩
  · exact ⟨[], [], honly, nofun⟩
  · exact hbefore

/-- No candidate accepts the number of arguments when none is chosen. -/
theorem not_accepts_of_resolve {e : Error} (h : r.resolve name count = .error e) :
    ∀ g ∈ r.candidates name, g.params.accepts count = false := by
  unfold resolve at h
  unfold candidates
  split at h
  · rename_i hget
    rw [hget]
    nofun
  · cases h
  · rename_i several _ hget
    cases hfind : several.find? (·.params.accepts count) with
    | none =>
      rw [hget]
      simpa using List.find?_eq_none.1 hfind
    | some g =>
      rw [hfind] at h
      cases h

/-- The number of arguments excludes nothing that can be bound. So the candidates that
    are passed over could not have bound the arguments, and when no overload is found
    none of the candidates can. -/
theorem passed_over_cannot_bind (r : Registry) (name : String) (args : Args) :
    (∀ p : Params, p.CanBind args → p.accepts args.count = true) ∧
    (∀ f, r.resolve name args.count = .ok f →
      ∃ before after, r.candidates name = before ++ f :: after ∧
        ∀ g ∈ before, ¬g.params.CanBind args) ∧
    ∀ e, r.resolve name args.count = .error e → e.kind = .noMatchingOverload →
      ∀ g ∈ r.candidates name, ¬g.params.CanBind args := by
  refine ⟨fun p => Params.CanBind.accepts, fun f hf => ?_, fun e he _ g hg => ?_⟩
  · obtain ⟨before, after, hcandidates, hbefore⟩ := candidates_of_resolve hf
    exact ⟨before, after, hcandidates, fun g hg => Params.not_canBind (hbefore g hg)⟩
  · exact Params.not_canBind (not_accepts_of_resolve he g hg)

/-- `pick($a)` -/
def narrow : Function := ⟨"pick", ⟨[⟨"a", none⟩], none⟩, .native fun _ => Build.null, true⟩

/-- `pick($a, $b: null)` -/
def wide : Function :=
  ⟨"pick", ⟨[⟨"a", none⟩, ⟨"b", some (.literal (.null none))⟩], none⟩, .native fun _ => Build.null, true⟩

/-- Of two candidates for `pick(null, $b: null)` the first is passed over, because it
    cannot bind these arguments. -/
theorem narrow_cannot_bind :
    let r := (empty.add narrow).add wide
    let args : Args := ⟨[.null none], [("b", .null none)]⟩
    r.candidates "pick" = [narrow, wide] ∧ r.resolve "pick" args.count = .ok wide ∧
      ¬narrow.params.CanBind args := by
  intro r args
  have hcandidates : r.candidates "pick" = [narrow, wide] := rfl
  have hresolve : r.resolve "pick" args.count = .ok wide := rfl
  refine ⟨hcandidates, hresolve, ?_⟩
  obtain ⟨before, after, hsplit, hbefore⟩ := (passed_over_cannot_bind r "pick" args).2.1 wide hresolve
  rw [hcandidates] at hsplit
  cases before with
  | nil =>
    have hparams := congrArg (fun fs => (fs.map fun f => f.params.fixed.length)) hsplit
    cases hparams
  | cons first before =>
    obtain rfl : narrow = first := (List.cons.inj hsplit).1
    exact hbefore narrow List.mem_cons_self

end Registry

end StyleScript
