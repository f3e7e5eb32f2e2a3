-- SUMMARY: Evaluation comes to an end unless calls are made in defaults of calls endlessly.
import Mathlib.Order.WellFounded
import StyleScript.Proofs.Finishing

/-!
# Recursion

There are two ways in which a call can lead to another one. A call that is made by
the body of a function is nested in that body, and the limit on nested bodies cuts
off what recurs that way. A call that is made by the default of a parameter comes
before the body of its function begins. No limit counts those, so defaults can call
each other endlessly.

Nothing else keeps an evaluation from its end: all other tasks are parts of the
program text, and there are only finitely many below each other.
-/

namespace StyleScript

/-- How much program text is left to a task. Calls count for nothing: what they
    lead to is no part of their text. -/
noncomputable def Task.size : Task → Nat
  | .expr e _ => sizeOf e
  | .items es _ => sizeOf es
  | .args given _ => sizeOf given
  | .call .. => 0
  | .fill slots _ => sizeOf slots
  | .stmts body _ => sizeOf body

namespace Session

/-! ## Tasks without calls in between -/

/-- A task comes to another one without passing through a call. -/
inductive Within (s : Session) : Task → Machine → Task → Machine → Prop where
  | refl {t m} : Within s t m t m
  | head {k t m t₁ m₁ t₂ m₂} :
    t.isCall = false → s.Starts k t m t₁ m₁ → Within s t₁ m₁ t₂ m₂ → Within s t m t₂ m₂

variable {s : Session} {t t' : Task} {m m' : Machine}

/-- Bodies begin in calls only. -/
theorem Starts.zero_of_not_call {k : Nat} (h : s.Starts k t m t' m') (ht : t.isCall = false) :
    k = 0 := by
  cases h with
  | body => cases ht
  | _ => rfl

theorem Within.comes (h : s.Within t m t' m') : s.Comes t m 0 t' m' := by
  induction h with
  | refl => exact .refl
  | head ht hstart _ ih =>
    obtain rfl := hstart.zero_of_not_call ht
    exact Comes.trans (.step .refl hstart) ih

theorem Completes.of_within {fuel : Nat} (h : s.Completes fuel t m) (hw : s.Within t m t' m') :
    s.Completes fuel t' m' := by
  induction hw with
  | refl => exact h
  | head ht hstart _ ih => exact ih (h.of_starts ht hstart)

/-- A task that is no call starts tasks with less text only, and calls. -/
theorem Starts.size_lt {k : Nat} (h : s.Starts k t m t' m') (ht : t.isCall = false)
    (ht' : t'.isCall = false) : t'.size < t.size := by
  cases h with
  | call => cases ht'
  | bind | body => cases ht
  | @default slot slots _ _ e _ hdefault _ =>
    obtain ⟨⟨name, default⟩, given⟩ := slot
    cases hdefault
    simp only [Task.size, List.cons.sizeOf_spec, Slot.mk.sizeOf_spec, Param.mk.sizeOf_spec,
      Option.some.sizeOf_spec]
    omega
  | list | operand | left | right | args | item | nextItem | arg | nextArg | nextSlot | skipSlot
  | value | afterAssign | result | afterDefine =>
    simp only [Task.size, List.cons.sizeOf_spec, Arg.mk.sizeOf_spec, Expr.list.sizeOf_spec,
      Expr.unary.sizeOf_spec, Expr.binary.sizeOf_spec, Expr.call.sizeOf_spec,
      Stmt.assign.sizeOf_spec, Stmt.result.sizeOf_spec]
    omega

/-! ## Calls that are made in defaults -/

/-- A call makes another one in a default, while its arguments are bound. -/
def CallsInDefault (s : Session) (x y : Task × Machine) : Prop :=
  x.1.isCall = true ∧ y.1.isCall = true ∧ ∃ slots inner n,
    s.Starts 0 x.1 x.2 (.fill slots inner) n ∧ s.Within (.fill slots inner) n y.1 y.2

/-- Calls are made in defaults of calls, from a first one on without an end. -/
def EndlessDefaults (s : Session) (t : Task) (m : Machine) : Prop :=
  ∃ chain : Nat → Task × Machine, chain 0 = (t, m) ∧ ∀ i, s.CallsInDefault (chain i) (chain (i + 1))

theorem CallsInDefault.comes {x y : Task × Machine} (h : s.CallsInDefault x y) :
    s.Comes x.1 x.2 0 y.1 y.2 := by
  obtain ⟨_, _, slots, inner, n, hstart, hwithin⟩ := h
  exact Comes.trans (.step .refl hstart) hwithin.comes

/-- A call that comes to an end makes only calls in defaults that do, with less
    fuel. -/
theorem Completes.of_callsInDefault {fuel : Nat} {x y : Task × Machine}
    (h : s.Completes (fuel + 1) x.1 x.2) (hxy : s.CallsInDefault x y) :
    s.Completes fuel y.1 y.2 := by
  obtain ⟨hx, _, slots, inner, n, hstart, hwithin⟩ := hxy
  obtain ⟨t, m⟩ := x
  cases t with
  | call name args scope location => exact (h.of_call_starts hstart).of_within hwithin
  | _ => cases hx

/-- No fuel is enough for an endless chain. -/
theorem not_completes_of_chain {chain : Nat → Task × Machine}
    (hchain : ∀ i, s.CallsInDefault (chain i) (chain (i + 1))) (fuel i : Nat) :
    ¬s.Completes fuel (chain i).1 (chain i).2 := by
  induction fuel generalizing i with
  | zero =>
    intro h
    have hcall := (hchain i).1
    generalize (chain i).1 = t at h hcall
    cases t with
    | call name args scope location => exact not_completes_call_zero h
    | _ => cases hcall
  | succ fuel ih =>
    intro h
    exact ih (i + 1) (h.of_callsInDefault (hchain i))

/-- What a finishing task starts finishes. -/
theorem Finishes.of_starts {k : Nat} (h : s.Finishes t m) (hstart : s.Starts k t m t' m') :
    s.Finishes t' m' := by
  obtain ⟨fuel, hfuel⟩ := h
  cases ht : t.isCall with
  | false => exact ⟨fuel, hfuel.of_starts ht hstart⟩
  | true =>
    cases t with
    | call name args scope location =>
      exact ⟨fuel, (hfuel.of_le (Nat.le_succ fuel)).of_call_starts hstart⟩
    | _ => cases ht

theorem Finishes.of_comes {n : Nat} (h : s.Finishes t m) (hcomes : s.Comes t m n t' m') :
    s.Finishes t' m' := by
  induction hcomes with
  | refl => exact h
  | step _ hstart ih => exact ih.of_starts hstart

/-- A finishing task comes to no endless chain of calls in defaults. -/
theorem Finishes.not_endless {n : Nat} (h : s.Finishes t m) (hcomes : s.Comes t m n t' m') :
    ¬s.EndlessDefaults t' m' := by
  rintro ⟨chain, hzero, hchain⟩
  obtain ⟨fuel, hfuel⟩ := h.of_comes hcomes
  refine not_completes_of_chain hchain fuel 0 ?_
  rw [hzero]
  exact hfuel

/-! ## All other recursion ends -/

/-- A task finishes when all calls do that it makes without another in between. -/
theorem finishes_of_calls (h : ∀ c n, c.isCall = true → s.Within t m c n → s.Finishes c n) :
    s.Finishes t m := by
  induction hsize : t.size using Nat.strongRecOn generalizing t m with
  | ind size ih =>
    cases ht : t.isCall with
    | true => exact h t m ht .refl
    | false =>
      apply Ready.finishes
      intro k t' m' hstart
      have hnext (c : Task) (n : Machine) (hc : c.isCall = true) (hw : s.Within t' m' c n) :
          s.Finishes c n :=
        h c n hc (.head ht hstart hw)
      cases ht' : t'.isCall with
      | true => exact hnext t' m' ht' .refl
      | false => exact ih t'.size (hsize ▸ hstart.size_lt ht ht') hnext rfl

/-- A call finishes when the calls in its defaults do, and its body does in case that
    it begins. -/
theorem call_finishes (ht : t.isCall = true)
    (hdefault : ∀ y, s.CallsInDefault (t, m) y → s.Finishes y.1 y.2)
    (hbody : ∀ t' m', s.Starts 1 t m t' m' → s.Finishes t' m') : s.Finishes t m := by
  apply Ready.finishes
  intro k t' m' hstart
  cases t with
  | call name args scope location =>
    have hone : k = 1 → s.Finishes t' m' := fun hk => hbody t' m' (hk ▸ hstart)
    cases hstart with
    | bind htarget halive hplace =>
      apply finishes_of_calls
      intro c n hc hw
      exact hdefault (c, n) ⟨ht, hc, _, _, _, .bind htarget halive hplace, hw⟩
    | body => exact hone rfl
  | _ => cases ht

theorem acc_of_not_endless (h : ¬s.EndlessDefaults t m) :
    Acc (fun y x => s.CallsInDefault x y) (t, m) := by
  by_contra hacc
  exact h (not_acc_iff_exists_descending_chain.1 hacc)

/-- A task that comes to no endless chain of calls in defaults finishes: the calls
    in the defaults of a call lead to each other only so far, and each body that
    begins leaves room for fewer bodies within it. -/
theorem finishes_of_not_endless (h : ∀ n c m', s.Comes t m n c m' → ¬s.EndlessDefaults c m') :
    s.Finishes t m := by
  -- The room for further bodies decides first, then the chains of calls in defaults,
  -- then the program text.
  induction hroom : s.options.maxDepth - m.depth using Nat.strongRecOn generalizing t m with
  | ind room ih =>
    have hcall (x : Task × Machine) (hacc : Acc (fun y x => s.CallsInDefault x y) x)
        (hx : x.1.isCall = true) (hcomes : s.Comes t m 0 x.1 x.2) : s.Finishes x.1 x.2 := by
      induction hacc with
      | intro x _ ihacc =>
        refine call_finishes hx (fun y hy => ?_) fun t' m' hbody => ?_
        · exact ihacc y hy hy.2.1 (hcomes.trans hy.comes)
        · have hbefore := hcomes.depth.1
          obtain ⟨hdepth, hlimit⟩ := hbody.depth
          have hless : s.options.maxDepth - m'.depth < room := by omega
          have hbegun : s.Comes t m (0 + 1) t' m' := .step hcomes hbody
          exact ih _ hless (fun n c m₂ hc => h _ c m₂ (hbegun.trans hc)) rfl
    apply finishes_of_calls
    intro c n hc hw
    exact hcall (c, n) (acc_of_not_endless (h 0 c n hw.comes)) hc hw.comes

/-- Evaluation comes to an end exactly when nowhere in it calls are made in defaults
    of calls endlessly. -/
theorem eval_finishes_iff (s : Session) (e : Expr) (scope : ScopeId) (m : Machine) :
    (∃ fuel, Outcome.Final (s.eval fuel e scope m)) ↔
      ∀ n c m', s.Comes (.expr e scope) m n c m' → ¬s.EndlessDefaults c m' := by
  constructor
  · intro h n c m' hcomes
    have hfinishes : s.Finishes (.expr e scope) m := h
    exact hfinishes.not_endless hcomes
  · intro h
    exact finishes_of_not_endless h

/-! ## Defaults that no limit ends -/

/-- `@function f($a: f()) { @return $a; }` -/
def restless : Definition :=
  ⟨"f", ⟨[⟨"a", some (.call "f" [] none)⟩], none⟩, [.result (.variable "a" none)], none⟩

/-- `@function f($stop, $x: $stop or f(true)) { @return $x; }` -/
def patient : Definition :=
  ⟨"f", ⟨[⟨"stop", none⟩,
    ⟨"x", some (.binary .or (.variable "stop" none)
      (.call "f" [.mk none (.literal (.bool true none))] none) none)⟩], none⟩,
    [.result (.variable "x" none)], none⟩

/-- A machine with one scope, in which a function is defined. -/
def defining (d : Definition) : Machine :=
  (Machine.fresh.enter none).defineFunction 0 (.ofDefinition d 0)

/-- A scope from which `restless` is found, directly or from just inside. -/
private structure FindsRestless (m : Machine) (scope : ScopeId) : Prop where
  next : 0 < m.store.next
  root : m.store.get? 0 =
    some ⟨.empty, NameTable.empty.insert "f" (.ofDefinition restless 0), []⟩
  inside : scope = 0 ∨ m.store.get? scope = some ⟨.empty, .empty, [0]⟩

private theorem FindsRestless.lookupFunction? {scope : ScopeId} (h : FindsRestless m scope) :
    m.store.lookupFunction? scope "f" = some (.ofDefinition restless 0) := by
  have hroot : (m.store.get? 0).bind (fun sc => sc.functions.get? "f") =
      some (.ofDefinition restless 0) := by
    rw [h.root]
    exact (NameTable.get?_insert ..).trans (if_pos rfl)
  unfold Store.lookupFunction? Store.chain
  rcases h.inside with rfl | hscope
  · rw [h.root]
    simp only [List.findSome?_cons, hroot]
  · rw [hscope]
    simp only [List.findSome?_cons, hscope, Option.bind_some, NameTable.get?_empty, hroot]

private theorem FindsRestless.enter {scope : ScopeId} (h : FindsRestless m scope) :
    FindsRestless (m.enter (some 0)) m.store.next where
  next := Nat.succ_pos _
  root := by
    change (m.store.enter (some 0)).2.get? 0 = _
    rw [Store.get?_enter, if_neg h.next.ne, h.root]
  inside := by
    right
    change (m.store.enter (some 0)).2.get? m.store.next = _
    rw [Store.get?_enter, if_pos rfl, Option.map_some, Store.chain, h.root]
    rfl

private theorem starts_restless (s : Session) (scope : ScopeId) (m : Machine) :
    s.Starts 0 (.expr (.call "f" [] none) scope) m (.call "f" ⟨[], []⟩ scope none) m := by
  have hargs : evalArgs (s.call 0) scope [] m = .ok ⟨[], []⟩ m := rfl
  exact .call hargs

/-- The default of a call of `restless` is another call of it, whatever the limit on
    nested bodies is. -/
private theorem not_completes_restless (s : Session) (fuel : Nat) {scope : ScopeId}
    (h : FindsRestless m scope) : ¬s.Completes fuel (.call "f" ⟨[], []⟩ scope none) m := by
  induction fuel generalizing m scope with
  | zero => exact not_completes_call_zero
  | succ fuel ih =>
    intro hcompletes
    have htarget : s.target m.store "f" 0 scope = .ok (.ofDefinition restless 0) := by
      rw [target, h.lookupFunction?]
    have halive : (Function.ofDefinition restless 0).body.alive m.store = true := by
      change (m.store.get? 0).isSome = true
      rw [h.root]
      rfl
    have hfill := hcompletes.of_call_starts (.bind htarget halive rfl)
    have hdefault := hfill.of_starts rfl (.default rfl rfl nofun)
    exact ih h.enter (hdefault.of_starts rfl (starts_restless s _ _))

/-- Calls in defaults are not counted: `restless` comes to no end under any limit, and
    `patient` gives a value although it calls itself while no two bodies may be nested. -/
theorem limit_ignores_defaults :
    (¬∃ options fuel, Outcome.Final (Session.eval ⟨.empty, options⟩ fuel (.call "f" [] none) 0
      (defining restless))) ∧
    Outcome.result (Session.eval ⟨.empty, ⟨5, 1⟩⟩ 3
      (.call "f" [.mk none (.literal (.bool false none))] none) 0 (defining patient)) =
        .ok (.bool true none) := by
  refine ⟨?_, rfl⟩
  rintro ⟨options, fuel, hfinal⟩
  have hcompletes : Completes ⟨.empty, options⟩ fuel (.expr (.call "f" [] none) 0)
      (defining restless) := hfinal
  have hfinds : FindsRestless (defining restless) 0 := ⟨Nat.one_pos, rfl, .inl rfl⟩
  exact not_completes_restless _ fuel hfinds (hcompletes.of_starts rfl (starts_restless _ 0 _))

end Session

end StyleScript
