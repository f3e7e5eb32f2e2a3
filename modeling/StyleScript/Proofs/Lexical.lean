-- SUMMARY: Scoping is lexical: a call depends on its caller through the function that it reaches only.
import StyleScript.Proofs.Closures
import StyleScript.Proofs.Lockstep
import StyleScript.Proofs.WellFormed

/-!
# Lexical scoping

A call does one thing in the scope that it is made from: it looks for a function there. What
comes of it then depends on the function that was found, and not on the scope any more. A
builtin sees its arguments. The body and the defaults of a function of a program see the
scope of the call and what can be seen from the scope that the function was defined in: the
scopes around it, the functions that these have, and the scopes that those were defined in.

So a call gives the same result from two scopes that reach the same function. The scopes may
be of one machine or of two, in which everything else that the callers can see differs, as
long as what can be seen from the function is the same.
-/

namespace StyleScript

/-! ## What is seen from a scope -/

/-- The scopes that a program can come to from a scope: those around it, and those that
    functions found on the way were defined in. -/
inductive Store.Sees (store : Store) (scope : ScopeId) : ScopeId → Prop where
  | self : Sees store scope scope
  | around {id outer : ScopeId} {sc : Scope} :
    Sees store scope id → store.get? id = some sc → outer ∈ sc.ancestors → Sees store scope outer
  | closure {id closure : ScopeId} {sc : Scope} {name : String} {f : Function} {d : Definition} :
    Sees store scope id → store.get? id = some sc → sc.functions.get? name = some f →
    f.body = .written d closure → Sees store scope closure

/-- In a rooted store these are the scopes on the way outward, because functions refer to
    the scopes that have them. -/
theorem Store.Rooted.mem_chain_of_sees {store : Store} (h : store.Rooted) {scope id : ScopeId}
    (hscope : store.contains scope = true) (hsees : store.Sees scope id) :
    id ∈ store.chain scope := by
  induction hsees with
  | self => exact mem_chain_self.2 hscope
  | @around inner outer sc _ hget houter ih =>
    refine h.outward scope inner ih ?_
    rw [chain_of_get? hget]
    exact List.mem_cons_of_mem inner houter
  | @closure inner closure sc name f d _ hget hf hbody ih =>
    obtain ⟨d', hown⟩ := h.functions inner sc name f hget hf
    obtain ⟨-, rfl⟩ := Body.written.inj (hbody.symm.trans hown)
    exact ih

/-! ## One machine -/

/-- Code that sees its arguments and the options only does the same for all invocations
    with the same ones. -/
theorem NativeCode.Indifferent.congr {run : NativeCode} (h : Indifferent run) {call call' : Invocation}
    (hbound : ∀ parameter, call.bound.get? parameter = call'.bound.get? parameter)
    (hoptions : call.options = call'.options) : run call = run call' := by
  have hcall : call.Resembles .same call' := by
    refine ⟨fun parameter => ?_, hoptions⟩
    rw [hbound parameter]
    cases call'.bound.get? parameter with
    | none => exact .none
    | some v => exact .some v.resembles_refl
  funext b
  have hends := h .same call call' hcall b b ⟨rfl, rfl⟩
  have hlocated : Resemblance.same.Located := fun _ _ => id
  generalize run call b = r at hends
  generalize run call' b = r' at hends
  cases hends with
  | ok hv hc => rw [Value.Resembles.eq hlocated _ _ hv, hc.eq hlocated]
  | error hc => rw [hc.eq hlocated]

namespace Session

variable {s : Session} {call : Caller} {name : String} {args : Args} {location : Option Location}
  {m : Machine} {a b : ScopeId}

theorem perform_eq_of_indifferent {f : Function} (hf : f.Runs NativeCode.Indifferent) :
    s.perform call f args a location = s.perform call f args b location := by
  funext inner
  have hfinish : s.finish call f inner a location = s.finish call f inner b location := by
    unfold finish
    cases hbody : f.body with
    | written d closure => rfl
    | native run =>
      funext n
      have hrun : run ⟨f.name, n.store.locals inner, n.store.lookup? a, location, s.options⟩ =
          run ⟨f.name, n.store.locals inner, n.store.lookup? b, location, s.options⟩ :=
        (hf run hbody).congr (fun _ => rfl) rfl
      simp only [runNative, Eval.ofStore_bind_apply, id_eq, hrun]
  unfold perform
  rw [hfinish]

/-- On one machine a call comes to the same outcome from all scopes that reach the same
    function. -/
theorem call_eq_of_found (hregistry : s.registry.Holds (Function.Runs NativeCode.Indifferent))
    (hm : m.store.Runs NativeCode.Indifferent)
    (hfound : m.store.lookupFunction? a name = m.store.lookupFunction? b name) (fuel : Nat) :
    s.call fuel name args a location m = s.call fuel name args b location m := by
  cases fuel with
  | zero => rfl
  | succ fuel =>
    have htarget : s.target m.store name args.count a = s.target m.store name args.count b := by
      unfold target
      rw [hfound]
    cases hb : s.target m.store name args.count b with
    | error e =>
      rw [call_no_target (htarget.trans hb), call_no_target hb]
    | ok f =>
      have hf := runs_target hregistry hm hb
      rw [call_target (htarget.trans hb), call_target hb]
      cases halive : f.body.alive m.store with
      | true => rw [invoke_alive halive, invoke_alive halive, perform_eq_of_indifferent hf]
      | false => rw [invoke_dead halive, invoke_dead halive]

end Session

/-! ## Two machines -/

/-- Numbers that stand for each other: shared ones for themselves, and those behind `p` for
    those as far behind `q`. -/
def Renumbered (shared : Nat → Prop) (p q a b : Nat) : Prop :=
  (shared a ∧ a = b) ∨ ∃ k, a = p + k ∧ b = q + k

theorem Renumbered.eq_iff {shared : Nat → Prop} {p q : Nat}
    (hshared : ∀ k, shared k → k < p ∧ k < q) {a a' b b' : Nat}
    (h : Renumbered shared p q a b) (h' : Renumbered shared p q a' b') : a = a' ↔ b = b' := by
  rcases h with ⟨ha, rfl⟩ | ⟨j, rfl, rfl⟩ <;> rcases h' with ⟨ha', rfl⟩ | ⟨k, rfl, rfl⟩
  · exact Iff.rfl
  · have hbelow := hshared a ha
    omega
  · have hbelow := hshared a' ha'
    omega
  · omega

/-- Programs of two machines that share some scopes, and count those that they open from
    where they are. -/
def Resemblance.renumbered (shared : ScopeId → Prop) (p q : ScopeId)
    (hshared : ∀ id, shared id → id < p ∧ id < q) : Resemblance :=
  { same with
    scope := Renumbered shared p q
    next := fun a b => ∃ k, a = p + k ∧ b = q + k
    scope_iff := fun h h' => h.eq_iff hshared h'
    scope_of_next := .inr
    next_succ := by
      rintro _ _ ⟨k, rfl, rfl⟩
      exact ⟨k + 1, Nat.add_assoc p k 1, Nat.add_assoc q k 1⟩ }

/-- Two machines and two callers of one name on them. They reach the same function, and what
    can be seen from the scope that it was defined in is the same on both machines. -/
structure Session.SameTarget (name : String) (m n : Machine) (a b : ScopeId) : Prop where
  builder : n.builder = m.builder
  depth : n.depth = m.depth
  found : n.store.lookupFunction? b name = m.store.lookupFunction? a name
  seen : ∀ f d closure, m.store.lookupFunction? a name = some f → f.body = .written d closure →
    ∀ id, m.store.Sees closure id → n.store.get? id = m.store.get? id

/-- A scope that the function of a name can see, when it is a function of a program. -/
def Store.SeenBy (store : Store) (scope : ScopeId) (name : String) (id : ScopeId) : Prop :=
  ∃ f d closure, store.lookupFunction? scope name = some f ∧ f.body = .written d closure ∧
    store.Sees closure id

namespace Store

variable {store : Store} {scope closure : ScopeId} {name : String} {f : Function} {d : Definition}

theorem WellFormed.get?_eq_none (h : store.WellFormed) {id : ScopeId} (hid : store.next ≤ id) :
    store.get? id = none := by
  cases hget : store.get? id with
  | none => rfl
  | some sc => exact absurd (h.numbered id sc hget) (Nat.not_lt.2 hid)

theorem WellFormed.closure_lt (h : store.WellFormed) {sc : Scope} (hget : store.get? scope = some sc)
    (hf : sc.functions.get? name = some f) (hbody : f.body = .written d closure) :
    closure < store.next := by
  have hbelow := (h.scopes scope sc hget).functions name f hf
  simpa only [Function.DefinedBelow, hbody] using hbelow

theorem WellFormed.found_lt (h : store.WellFormed) (hf : store.lookupFunction? scope name = some f)
    (hbody : f.body = .written d closure) : closure < store.next := by
  obtain ⟨id, _, sc, hget, hfound⟩ := lookupFunction?_eq_some hf
  exact h.closure_lt hget hfound hbody

end Store

namespace Session.SameTarget

variable {name : String} {m n : Machine} {a b : ScopeId}

/-- In a rooted store it is enough to look at the scopes on the way outward from where the
    function was defined. -/
theorem of_rooted (hm : m.store.Rooted) (hbuilder : n.builder = m.builder) (hdepth : n.depth = m.depth)
    (hfound : n.store.lookupFunction? b name = m.store.lookupFunction? a name)
    (hchain : ∀ f d closure, m.store.lookupFunction? a name = some f → f.body = .written d closure →
      ∀ id ∈ m.store.chain closure, n.store.get? id = m.store.get? id) :
    SameTarget name m n a b where
  builder := hbuilder
  depth := hdepth
  found := hfound
  seen f d closure hf hbody id hsees := by
    obtain ⟨owner, _, sc, hget, hfunction⟩ := Store.lookupFunction?_eq_some hf
    obtain ⟨d', hown⟩ := hm.functions owner sc name f hget hfunction
    obtain ⟨-, rfl⟩ := Body.written.inj (hbody.symm.trans hown)
    have hclosure : m.store.contains closure = true := by
      simp only [Store.contains, hget, Option.isSome_some]
    exact hchain f d closure hf hbody id (hm.mem_chain_of_sees hclosure hsees)

variable (h : SameTarget name m n a b)
  (hm : m.store.WellFormed) (hn : n.store.WellFormed)

include h

theorem get?_eq {id : ScopeId} (hseen : m.store.SeenBy a name id) :
    n.store.get? id = m.store.get? id := by
  obtain ⟨f, d, closure, hf, hbody, hsees⟩ := hseen
  exact h.seen f d closure hf hbody id hsees

include hm hn

/-- What is seen on both machines was opened on both. -/
theorem lt_next (id : ScopeId) (hseen : m.store.SeenBy a name id) :
    id < m.store.next ∧ id < n.store.next := by
  obtain ⟨f, d, closure, hf, hbody, hsees⟩ := hseen
  have hget {inner : ScopeId} (hinner : m.store.Sees closure inner) :
      n.store.get? inner = m.store.get? inner := h.seen f d closure hf hbody inner hinner
  cases hsees with
  | self => exact ⟨hm.found_lt hf hbody, hn.found_lt (h.found.trans hf) hbody⟩
  | @around inner _ sc hinner hsc houter =>
    exact ⟨(hm.scopes inner sc hsc).ancestors id houter,
      (hn.scopes inner sc ((hget hinner).trans hsc)).ancestors id houter⟩
  | closure hinner hsc hfound hwritten =>
    exact ⟨hm.closure_lt hsc hfound hwritten,
      hn.closure_lt ((hget hinner).trans hsc) hfound hwritten⟩

/-- How the two machines stand for each other: the scopes that are seen have the same
    numbers, and the scopes of the calls to come are opened in step. -/
def resemblance : Resemblance :=
  .renumbered (m.store.SeenBy a name) m.store.next n.store.next (h.lt_next hm hn)

/-- A function is itself on both machines when the scope that it was defined in is seen. -/
theorem function_resembles {f : Function} (hf : f.Runs NativeCode.Indifferent)
    (hseen : ∀ d closure, f.body = .written d closure → m.store.SeenBy a name closure) :
    f.Resembles (h.resemblance hm hn) f := by
  obtain ⟨x, params, body, overloaded⟩ := f
  cases body with
  | native run => exact .native rfl params.resembles_refl (hf run rfl)
  | written d closure =>
    exact .written rfl params.resembles_refl d.resembles_refl (.inl ⟨hseen d closure rfl, rfl⟩)

/-- The machines resemble each other: what differs on them is out of sight. -/
theorem machine_resembles (hcode : m.store.Runs NativeCode.Indifferent) :
    m.Resembles (h.resemblance hm hn) n where
  store := by
    refine ⟨⟨0, rfl, rfl⟩, ?_⟩
    rintro id id' (⟨hseen, rfl⟩ | ⟨k, rfl, rfl⟩)
    · rw [h.get?_eq hseen]
      obtain ⟨f, d, closure, hf, hbody, hsees⟩ := hseen
      cases hget : m.store.get? id with
      | none => exact .none
      | some sc =>
        refine .some ⟨sc.values.resembles_refl Value.resembles_refl, fun x => ?_,
          List.forall₂_same.2 fun outer houter => ?_⟩
        · cases hg : sc.functions.get? x with
          | none => exact .none
          | some g =>
            refine .some (h.function_resembles hm hn (hcode id sc x g hget hg) ?_)
            exact fun _ _ hwritten => ⟨f, d, closure, hf, hbody, hsees.closure hget hg hwritten⟩
        · exact .inl ⟨⟨f, d, closure, hf, hbody, hsees.around hget houter⟩, rfl⟩
    · rw [hm.get?_eq_none (Nat.le_add_right _ k), hn.get?_eq_none (Nat.le_add_right _ k)]
      exact .none
  builder := ⟨congrArg Builder.location h.builder.symm, congrArg Builder.built h.builder.symm⟩
  depth := h.depth.symm

theorem found_resembles (hcode : m.store.Runs NativeCode.Indifferent) :
    Option.Rel (Function.Resembles (h.resemblance hm hn)) (m.store.lookupFunction? a name)
      (n.store.lookupFunction? b name) := by
  rw [h.found]
  cases hf : m.store.lookupFunction? a name with
  | none => exact .none
  | some f =>
    obtain ⟨_, _, hruns⟩ := hcode.of_lookup hf
    refine .some (h.function_resembles hm hn hruns fun d closure hbody => ?_)
    exact ⟨f, d, closure, hf, hbody, .self⟩

end Session.SameTarget

/-! ## Calls -/

namespace Session

/-- Calls on two machines that reach the same function, with the same scopes in its sight,
    come to the same result, and build as many values. -/
theorem result_call_of_sameTarget (options : Options) {name : String} {m n : Machine} {a b : ScopeId}
    (h : SameTarget name m n a b) (hm : m.store.WellFormed) (hn : n.store.WellFormed)
    (hcode : m.store.Runs NativeCode.Indifferent) (fuel : Nat) (args : Args)
    (location : Option Location) :
    let o := call ⟨.standard, options⟩ fuel name args a location m
    let o' := call ⟨.standard, options⟩ fuel name args b location n
    Outcome.result o = Outcome.result o' ∧ (Outcome.machine o).builder = (Outcome.machine o').builder ∧
      (Outcome.machine o).depth = (Outcome.machine o').depth := by
  cases fuel with
  | zero => exact ⟨rfl, h.builder.symm, h.depth.symm⟩
  | succ fuel =>
    have hverbatim : (h.resemblance hm hn).Verbatim := fun _ _ => id
    have hlocated : (h.resemblance hm hn).Located := fun _ _ => id
    have houtcome := resembles_call_of_found (s := ⟨.standard, options⟩) (l := location)
      Registry.resembles_standard (resembles_call Registry.resembles_standard fuel) rfl
      args.resembles_refl rfl (h.machine_resembles hm hn hcode) (h.found_resembles hm hn hcode)
    have hmachine := houtcome.machine
    exact ⟨houtcome.result_eq hverbatim hlocated, hmachine.builder.eq hlocated, hmachine.depth⟩

/-- Scoping is lexical. On one machine, a call comes to the same outcome from all scopes
    that reach the same function, or that reach none. On two machines, it comes to the same
    result, after building as many values, when what can be seen from where the function
    was defined is the same on both, whatever else the callers can see. A builtin sees
    nothing but its arguments and the options. -/
theorem call_is_lexical (options : Options) (fuel : Nat) (name : String) (args : Args)
    (location : Option Location) :
    let s : Session := ⟨.standard, options⟩
    (∀ (m : Machine) (a b : ScopeId), m.store.Runs NativeCode.Indifferent →
      m.store.lookupFunction? a name = m.store.lookupFunction? b name →
      s.call fuel name args a location m = s.call fuel name args b location m) ∧
    (∀ (m n : Machine) (a b : ScopeId), SameTarget name m n a b →
      m.store.WellFormed → n.store.WellFormed → m.store.Runs NativeCode.Indifferent →
      let o := s.call fuel name args a location m
      let o' := s.call fuel name args b location n
      Outcome.result o = Outcome.result o' ∧
        (Outcome.machine o).builder = (Outcome.machine o').builder ∧
        (Outcome.machine o).depth = (Outcome.machine o').depth) ∧
    ∀ b ∈ Builtin.all, ∀ call call' : Invocation,
      (∀ parameter, call.bound.get? parameter = call'.bound.get? parameter) →
      call.options = call'.options → b.run call = b.run call' := by
  refine ⟨fun m a b hm hfound => ?_, fun m n a b h hm hn hcode => ?_, fun b hb call call' => ?_⟩
  · exact call_eq_of_found Registry.indifferent_standard hm hfound fuel
  · exact result_call_of_sameTarget options h hm hn hcode fuel args location
  · exact (b.indifferent hb).congr

/-- `@function f() { @return $v }` -/
def readingOuter : Definition := ⟨"f", .empty, [.result (.variable "v" none)], none⟩

/-- A machine with `$v: true` and `f` in scope 0, and scope 1 inside it. -/
def outerMachine : Machine :=
  (((Machine.fresh.enter none).define 0 "v" (.bool true none)).defineFunction 0
    (.ofDefinition readingOuter 0)).enter (some 0)

/-- The same machine with `$v: null` in scope 1, and scope 2 inside that. -/
def shadowingMachine : Machine := (outerMachine.define 1 "v" (.null none)).enter (some 1)

/-- From scope 2 of the second machine `$v` is null, but `f` reads the outer one, as it does
    from the scopes of the first machine. -/
theorem readingOuter_is_lexical :
    let s : Session := ⟨.standard, .standard⟩
    let o := s.call 1 "f" ⟨[], []⟩ 1 none outerMachine
    let o' := s.call 1 "f" ⟨[], []⟩ 2 none shadowingMachine
    let flag : NameTable Value := NameTable.empty.insert "value" (.bool true none)
    let call : Invocation := ⟨"not", flag, fun _ => none, none, .standard⟩
    let call' : Invocation := ⟨"no", flag, fun _ => some (.null none), some ⟨"a", 1⟩, .standard⟩
    s.call 1 "f" ⟨[], []⟩ 0 none outerMachine = o ∧
      shadowingMachine.store.lookup? 2 "v" = some (.null none) ∧
      Outcome.result o = Outcome.result o' ∧ Outcome.result o' = .ok (.bool true none) ∧
      Builtin.not.run call = Builtin.not.run call' := by
  intro s o o' flag call call'
  obtain ⟨hone, htwo, hbuiltin⟩ := call_is_lexical .standard 1 "f" ⟨[], []⟩ none
  have hcode : outerMachine.store.Runs NativeCode.Indifferent := by
    have hfresh : Machine.fresh.store.Runs NativeCode.Indifferent := nofun
    exact (((hfresh.enter none).define 0 _ _).defineFunction
      (Function.runs_ofDefinition _ readingOuter 0)).enter (some 0)
  have hrooted : outerMachine.store.Rooted := by
    have hempty : Store.empty.Rooted := ⟨nofun, nofun, nofun, nofun⟩
    have hdefined := (Machine.shelters_define (Machine.fresh.enter none) 0 "v" (.bool true none)
      (hempty.enter none)).1
    exact (Machine.shelters_defineFunction _ 0 readingOuter hdefined).1.enter (some 0)
  have hm : outerMachine.store.WellFormed :=
    (((Store.wellFormed_empty.enter none).define 0 _ _).defineFunction 0 id).enter (some 0)
  have hn : shadowingMachine.store.WellFormed := (hm.define 1 _ _).enter (some 1)
  have htarget : SameTarget "f" outerMachine shadowingMachine 1 2 := by
    refine .of_rooted hrooted rfl rfl rfl fun f d closure hf hbody id hid => ?_
    obtain rfl : Function.ofDefinition readingOuter 0 = f := Option.some.inj hf
    obtain ⟨-, rfl⟩ := Body.written.inj hbody
    obtain rfl : id = 0 := List.mem_singleton.1 hid
    rfl
  have hnot : Builtin.not ∈ Builtin.all := by
    simp [Builtin.all, Builtin.onValues]
  exact ⟨hone outerMachine 0 1 hcode rfl, rfl, (htwo _ _ 1 2 htarget hm hn hcode).1, rfl,
    hbuiltin Builtin.not hnot call call' (fun _ => rfl) rfl⟩

end Session

end StyleScript
