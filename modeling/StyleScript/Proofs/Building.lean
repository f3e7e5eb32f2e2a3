-- SUMMARY: What the builds of operators and builtins look at: the location, never the count.
import StyleScript.Builtin.Standard
import StyleScript.Proofs.Outcome

/-!
# Builds that do not look at the count

A builder counts the values that it built, and code of a host program could read
that count. The builds of expressions, of operators and of the builtins do not:
they depend on the current location only, they leave it as it was, and they let
the count grow by as much wherever they start. Any code that is run for a while
under another location gives back the one that was.
-/

namespace StyleScript

/-! ## Blind builds -/

/-- A builder that has built so many more values. -/
def Builder.grow (b : Builder) (k : Nat) : Builder := { b with built := b.built + k }

@[simp] theorem Builder.location_grow (b : Builder) (k : Nat) : (b.grow k).location = b.location := rfl
@[simp] theorem Builder.grow_zero (b : Builder) : b.grow 0 = b := rfl

theorem Builder.grow_grow (b : Builder) (j k : Nat) : (b.grow j).grow k = b.grow (j + k) := by
  simp only [grow, Nat.add_assoc]

namespace Build

variable {α β : Type}

/-- A build that does the same from all builders with one location: the same
    result, and as many more values built. -/
def Blind (x : Build α) : Prop :=
  ∀ b b' : Builder, b.location = b'.location →
    ∃ k, (∃ a, x b = .ok a (b.grow k) ∧ x b' = .ok a (b'.grow k)) ∨
      (∃ e, x b = .error e (b.grow k) ∧ x b' = .error e (b'.grow k))

theorem blind_pure (a : α) : Blind (pure a) :=
  fun _ _ _ => ⟨0, .inl ⟨a, rfl, rfl⟩⟩

theorem blind_throw (e : Error) : Blind (throw e : Build α) :=
  fun _ _ _ => ⟨0, .inr ⟨e, rfl, rfl⟩⟩

theorem blind_ofExcept (r : Except Error α) : Blind (ofExcept r) := by
  cases r with
  | ok a => exact blind_pure a
  | error e => exact blind_throw e

theorem blind_make (value : Option Location → Value) : Blind (make value) := by
  intro b b' h
  refine ⟨1, .inl ⟨value b.location, rfl, ?_⟩⟩
  rw [make_apply, h]
  rfl

theorem bind_ok {x : Build α} {f : α → Build β} {b b' : Builder} {a : α} (h : x b = .ok a b') :
    (x >>= f) b = f a b' := by
  change EStateM.bind x f b = f a b'
  rw [EStateM.bind, h]

theorem bind_error {x : Build α} {f : α → Build β} {b b' : Builder} {e : Error}
    (h : x b = .error e b') : (x >>= f) b = .error e b' := by
  change EStateM.bind x f b = .error e b'
  rw [EStateM.bind, h]

theorem blind_bind {x : Build α} {f : α → Build β} (hx : Blind x) (hf : ∀ a, Blind (f a)) :
    Blind (x >>= f) := by
  intro b b' h
  obtain ⟨j, ⟨a, hb, hb'⟩ | ⟨e, hb, hb'⟩⟩ := hx b b' h
  · obtain ⟨k, hk⟩ := hf a (b.grow j) (b'.grow j) h
    refine ⟨j + k, ?_⟩
    rw [bind_ok hb, bind_ok hb', ← Builder.grow_grow, ← Builder.grow_grow]
    exact hk
  · exact ⟨j, .inr ⟨e, bind_error hb, bind_error hb'⟩⟩

theorem blind_mapError {x : Build α} (f : Error → Error) (hx : Blind x) : Blind (mapError f x) := by
  intro b b' h
  obtain ⟨k, ⟨a, hb, hb'⟩ | ⟨e, hb, hb'⟩⟩ := hx b b' h
  · refine ⟨k, .inl ⟨a, ?_, ?_⟩⟩
    · simp only [mapError, hb]
    · simp only [mapError, hb']
  · refine ⟨k, .inr ⟨f e, ?_, ?_⟩⟩
    · simp only [mapError, hb]
    · simp only [mapError, hb']

theorem blind_stamped {x : Build α} (location : Option Location) (hx : Blind x) :
    Blind (stamped location x) := by
  intro b b' h
  obtain ⟨k, ⟨a, hb, hb'⟩ | ⟨e, hb, hb'⟩⟩ := hx { b with location } { b' with location } rfl
  · refine ⟨k, .inl ⟨a, ?_, ?_⟩⟩
    · simp only [stamped, hb]
      rfl
    · simp only [stamped, hb']
      rfl
  · refine ⟨k, .inr ⟨e, ?_, ?_⟩⟩
    · simp only [stamped, hb]
      rfl
    · simp only [stamped, hb']
      rfl

/-- A build that leaves the current location as it was, also when it fails. -/
structure Steady (x : Build α) : Prop where
  ok : ∀ {b b' : Builder} {a : α}, x b = .ok a b' → b'.location = b.location
  error : ∀ {b b' : Builder} {e : Error}, x b = .error e b' → b'.location = b.location

theorem Blind.steady {x : Build α} (hx : Blind x) : Steady x where
  ok {b b' a} h := by
    obtain ⟨k, ⟨c, hb, _⟩ | ⟨e, hb, _⟩⟩ := hx b b rfl
    · rw [hb] at h
      cases h
      rfl
    · rw [hb] at h
      cases h
  error {b b' e} h := by
    obtain ⟨k, ⟨a, hb, _⟩ | ⟨c, hb, _⟩⟩ := hx b b rfl
    · rw [hb] at h
      cases h
    · rw [hb] at h
      cases h
      rfl

/-- A location that is current for a while only is given back. -/
theorem steady_stamped (location : Option Location) (x : Build α) : Steady (stamped location x) where
  ok {b b' a} h := by
    unfold stamped at h
    split at h <;> cases h
    rfl
  error {b b' e} h := by
    unfold stamped at h
    split at h <;> cases h
    rfl

end Build

/-! ## Operators -/

theorem UnaryOp.blind_apply (op : UnaryOp) (v : Value) : (op.apply v).Blind := by
  cases op with
  | not => exact Build.blind_make _
  | negate =>
    cases v with
    | number n _ => exact Build.blind_make _
    | _ => exact Build.blind_throw _

namespace BinaryOp

theorem onNumbers?_eq_some {op : BinaryOp} {a b : Number} {x : Build Value}
    (h : op.onNumbers? a b = some x) :
    (∃ r, x = Build.ofExcept r >>= Build.number) ∨
      ∃ r, ∃ holds : Ordering → Bool, x = Build.ofExcept r >>= fun order => Build.bool (holds order) := by
  cases op with
  | add | sub | mul | div | rem => exact .inl ⟨_, (Option.some.inj h).symm⟩
  | lt | le | gt | ge => exact .inr ⟨_, _, (Option.some.inj h).symm⟩
  | eq | ne | and | or => cases h

/-- All that operators compute: a number, how two numbers compare, or a string. -/
theorem compute?_eq_some {op : BinaryOp} {left right : Value} {x : Build Value}
    (h : op.compute? left right = some x) :
    (∃ r, x = Build.ofExcept r >>= Build.number) ∨
      (∃ r, ∃ holds : Ordering → Bool, x = Build.ofExcept r >>= fun order => Build.bool (holds order)) ∨
      ∃ content quoted, x = Build.string content quoted := by
  unfold compute? at h
  split at h
  · exact (onNumbers?_eq_some h).imp_right .inl
  · exact .inr (.inr ⟨_, _, (Option.some.inj h).symm⟩)
  · exact .inr (.inr ⟨_, _, (Option.some.inj h).symm⟩)
  · exact .inr (.inr ⟨_, _, (Option.some.inj h).symm⟩)
  · exact .inr (.inr ⟨_, _, (Option.some.inj h).symm⟩)
  · cases h

theorem blind_compute? {op : BinaryOp} {left right : Value} {x : Build Value}
    (h : op.compute? left right = some x) : x.Blind := by
  obtain ⟨r, rfl⟩ | ⟨r, holds, rfl⟩ | ⟨content, quoted, rfl⟩ := compute?_eq_some h
  · exact Build.blind_bind (Build.blind_ofExcept r) fun _ => Build.blind_make _
  · exact Build.blind_bind (Build.blind_ofExcept r) fun _ => Build.blind_make _
  · exact Build.blind_make _

theorem blind_apply (op : BinaryOp) (left right : Value) : (op.apply left right).Blind := by
  unfold apply
  split
  · exact Build.blind_make _
  · exact Build.blind_make _
  · cases h : op.compute? left right with
    | some x => exact blind_compute? h
    | none => exact Build.blind_throw _

end BinaryOp

/-! ## Builtins -/

theorem Answer.blind_build (answer : Answer) : answer.build.Blind := by
  cases answer with
  | fresh value => exact Build.blind_make value
  | given v => exact Build.blind_pure v

theorem Builtin.blind_run (b : Builtin) (call : Invocation) : (b.run call).Blind :=
  Build.blind_bind (Build.blind_ofExcept _) Answer.blind_build

end StyleScript
