-- SUMMARY: The tasks that an evaluation consists of, and which task starts which.
import StyleScript.Proofs.Fuel
import StyleScript.Proofs.Writes

/-!
# Tasks

An evaluation is a tree of tasks. A task is a piece of the program with the scope
that it runs in, and it starts other tasks, each on the machine that it finds at
that moment: an expression starts its operands one after the other, a call starts
the binding of its arguments and then its body. So the tasks that are started,
directly or not, are all the moments of an evaluation, whether it comes to an end
or not.

A task finishes exactly when all tasks that it starts do. A call uses one unit of
fuel, and nothing else does.
-/

namespace StyleScript

/-- A piece of the work of an evaluation. -/
inductive Task where
  | expr (e : Expr) (scope : ScopeId)
  | items (es : List Expr) (scope : ScopeId)
  | args (args : List Arg) (scope : ScopeId)
  | call (name : String) (args : Args) (scope : ScopeId) (location : Option Location)
  | fill (slots : List Slot) (scope : ScopeId)
  | stmts (body : List Stmt) (scope : ScopeId)

namespace Task

/-- Whether a task is a call. -/
def isCall : Task → Bool
  | .call .. => true
  | _ => false

/-- The scope that a task runs in. -/
def scope : Task → ScopeId
  | .expr _ scope => scope
  | .items _ scope => scope
  | .args _ scope => scope
  | .call _ _ scope _ => scope
  | .fill _ scope => scope
  | .stmts _ scope => scope

end Task

/-- Whether the left side of `and` and `or` decides, so that the right one is not
    evaluated. -/
def BinaryOp.decides (op : BinaryOp) (left : Value) : Prop :=
  (op = .and ∧ !left.isTruthy) ∨ (op = .or ∧ left.isTruthy)

instance (op : BinaryOp) (left : Value) : Decidable (op.decides left) :=
  inferInstanceAs (Decidable (_ ∨ _))

namespace Session

/-! ## Which task starts which -/

/-- A task on a machine starts another task on another machine. The number tells
    how many bodies of functions begin by that: one for the statements of a body,
    none for all other tasks. -/
inductive Starts (s : Session) : Nat → Task → Machine → Task → Machine → Prop where
  | list {items separator scope m} :
    Starts s 0 (.expr (.list items separator) scope) m (.items items scope) m
  | operand {op e location scope m} :
    Starts s 0 (.expr (.unary op e location) scope) m (.expr e scope) m
  | left {op l r location scope m} :
    Starts s 0 (.expr (.binary op l r location) scope) m (.expr l scope) m
  | right {op l r location scope m fuel v n} :
    l.eval (s.call fuel) scope m = .ok v n → ¬op.decides v →
    Starts s 0 (.expr (.binary op l r location) scope) m (.expr r scope) n
  | args {name args location scope m} :
    Starts s 0 (.expr (.call name args location) scope) m (.args args scope) m
  | call {name args location scope m fuel vs n} :
    evalArgs (s.call fuel) scope args m = .ok vs n →
    Starts s 0 (.expr (.call name args location) scope) m (.call name vs scope location) n
  | item {e es scope m} : Starts s 0 (.items (e :: es) scope) m (.expr e scope) m
  | nextItem {e es scope m fuel v n} :
    e.eval (s.call fuel) scope m = .ok v n →
    Starts s 0 (.items (e :: es) scope) m (.items es scope) n
  | arg {name e args scope m} : Starts s 0 (.args (.mk name e :: args) scope) m (.expr e scope) m
  | nextArg {name e args scope m fuel v n} :
    e.eval (s.call fuel) scope m = .ok v n →
    Starts s 0 (.args (.mk name e :: args) scope) m (.args args scope) n
  | bind {name args scope location m f slots} :
    s.target m.store name args.count scope = .ok f → f.body.alive m.store = true →
    f.params.place args = .ok slots →
    Starts s 0 (.call name args scope location) m (.fill slots m.store.next) (m.enter f.body.around)
  | body {name args scope location m f d closure fuel n} :
    s.target m.store name args.count scope = .ok f → f.body = .written d closure →
    f.body.alive m.store = true →
    f.params.bind f.name args (evaluator (s.call fuel)) m.store.next (m.enter f.body.around) =
      .ok () n →
    n.full s.options.maxDepth = false →
    Starts s 1 (.call name args scope location) m (.stmts d.body m.store.next) n.inBody
  | default {slot slots scope m e} :
    slot.given = none → slot.param.default = some e → (∀ v, e ≠ .literal v) →
    Starts s 0 (.fill (slot :: slots) scope) m (.expr e scope) m
  | nextSlot {slot slots scope m fuel v n} :
    slot.value? (evaluator (s.call fuel)) scope m = .ok (some v) n →
    Starts s 0 (.fill (slot :: slots) scope) m (.fill slots scope)
      (n.define scope slot.param.name v)
  | skipSlot {slot slots scope m fuel n} :
    slot.value? (evaluator (s.call fuel)) scope m = .ok none n →
    Starts s 0 (.fill (slot :: slots) scope) m (.fill slots scope) n
  | value {name e rest scope m} :
    Starts s 0 (.stmts (.assign name e :: rest) scope) m (.expr e scope) m
  | afterAssign {name e rest scope m fuel v n} :
    e.eval (s.call fuel) scope m = .ok v n →
    Starts s 0 (.stmts (.assign name e :: rest) scope) m (.stmts rest scope)
      (n.define scope name v)
  | result {e rest scope m} : Starts s 0 (.stmts (.result e :: rest) scope) m (.expr e scope) m
  | afterDefine {name params body location rest scope m} :
    Starts s 0 (.stmts (.define name params body location :: rest) scope) m (.stmts rest scope)
      (m.defineFunction scope (.ofDefinition ⟨name, params, body, location⟩ scope))

/-- A task on a machine starts another one, directly or through tasks in between,
    with as many bodies begun on the way. The task itself counts as started. -/
inductive Comes (s : Session) (t : Task) (m : Machine) : Nat → Task → Machine → Prop where
  | refl : Comes s t m 0 t m
  | step {j k t₁ m₁ t₂ m₂} : Comes s t m j t₁ m₁ → s.Starts k t₁ m₁ t₂ m₂ → Comes s t m (j + k) t₂ m₂

/-! ## What happens before a task is started -/

/-- Before a task is started within a scope, evaluations kept the machine, and then at
    most one name of the scope was written. A call opens a scope for the binding of its
    arguments, and its body runs in that scope after the binding. -/
theorem Starts.change {s : Session} {k : Nat} {t t' : Task} {m m' : Machine}
    (h : s.Starts k t m t' m') :
    (k = 0 ∧ t'.scope = t.scope ∧
      (m.Kept m' ∨ (∃ n name v, m.Kept n ∧ m' = n.define t.scope name v) ∨
        ∃ d : Definition, m' = m.defineFunction t.scope (.ofDefinition d t.scope))) ∨
    ∃ name args location f,
      t = .call name args t.scope location ∧
      s.target m.store name args.count t.scope = .ok f ∧ f.body.alive m.store = true ∧
      t'.scope = m.store.next ∧
      (k = 0 ∧ m' = m.enter f.body.around ∨
        k = 1 ∧ ∃ fuel n,
          f.params.bind f.name args (evaluator (s.call fuel)) m.store.next
            (m.enter f.body.around) = .ok () n ∧
          n.depth < s.options.maxDepth ∧ m' = n.withDepth (n.depth + 1)) := by
  have hcall (fuel : Nat) := s.keeps_call fuel
  have hvalue (fuel : Nat) (slot : Slot) (scope : ScopeId) :=
    Slot.keeps_value? (keeps_evaluator (hcall fuel)) scope slot
  cases h with
  | list | operand | left | args | item | arg | default | value | result =>
    exact .inl ⟨rfl, rfl, .inl (.refl m)⟩
  | right hv _ | nextItem hv | nextArg hv =>
    exact .inl ⟨rfl, rfl, .inl ((Expr.keeps_eval (hcall _) _ _).of_ok hv)⟩
  | call hargs => exact .inl ⟨rfl, rfl, .inl ((keeps_evalArgs (hcall _) _ _).of_ok hargs)⟩
  | skipSlot hv => exact .inl ⟨rfl, rfl, .inl ((hvalue _ _ _).of_ok hv)⟩
  | nextSlot hv => exact .inl ⟨rfl, rfl, .inr (.inl ⟨_, _, _, (hvalue _ _ _).of_ok hv, rfl⟩)⟩
  | afterAssign hv =>
    exact .inl ⟨rfl, rfl, .inr (.inl ⟨_, _, _, (Expr.keeps_eval (hcall _) _ _).of_ok hv, rfl⟩)⟩
  | afterDefine => exact .inl ⟨rfl, rfl, .inr (.inr ⟨_, rfl⟩)⟩
  | bind htarget halive _ =>
    exact .inr ⟨_, _, _, _, rfl, htarget, halive, rfl, .inl ⟨rfl, rfl⟩⟩
  | body htarget _ halive hbind hfull =>
    exact .inr ⟨_, _, _, _, rfl, htarget, halive, rfl,
      .inr ⟨rfl, _, _, hbind, Machine.not_full_iff.1 hfull, rfl⟩⟩

/-! ## The count of running bodies -/

/-- A task that is started finds as many bodies being run as there were, and one
    more when a body begins; no body begins beyond the limit. -/
theorem Starts.depth {s : Session} {k : Nat} {t t' : Task} {m m' : Machine}
    (h : s.Starts k t m t' m') :
    m'.depth = m.depth + k ∧ (k = 0 ∨ m'.depth ≤ s.options.maxDepth) := by
  rcases h.change with ⟨rfl, _, hkept | ⟨n, _, _, hkept, rfl⟩ | ⟨_, rfl⟩⟩ |
    ⟨_, _, _, f, _, _, _, _, ⟨rfl, rfl⟩ | ⟨rfl, fuel, n, hbind, hlimit, rfl⟩⟩
  · exact ⟨hkept.depth, .inl rfl⟩
  · exact ⟨hkept.depth, .inl rfl⟩
  · exact ⟨rfl, .inl rfl⟩
  · exact ⟨rfl, .inl rfl⟩
  · have hdepth : n.depth = m.depth :=
      ((f.params.edits_bind _ _ (keeps_evaluator (s.keeps_call fuel)) _).of_ok hbind).depth
    rw [Machine.depth_withDepth]
    exact ⟨by rw [hdepth], .inr hlimit⟩

/-- At every moment of an evaluation as many bodies are being run as the machine
    counts, and no more than the limit allows unless there were more before. -/
theorem Comes.depth {s : Session} {t t' : Task} {m m' : Machine} {n : Nat}
    (h : s.Comes t m n t' m') :
    m'.depth = m.depth + n ∧ m'.depth ≤ max m.depth s.options.maxDepth := by
  induction h with
  | refl => exact ⟨rfl, Nat.le_max_left _ _⟩
  | @step j k t₁ m₁ t₂ m₂ _ hstart ih =>
    obtain ⟨hdepth, hlimit⟩ := hstart.depth
    refine ⟨by omega, ?_⟩
    rcases hlimit with rfl | hlimit
    · rw [hdepth]
      exact ih.2
    · exact hlimit.trans (Nat.le_max_right _ _)

theorem Comes.trans {s : Session} {t t₁ t₂ : Task} {m m₁ m₂ : Machine} {j k : Nat}
    (h : s.Comes t m j t₁ m₁) (h' : s.Comes t₁ m₁ k t₂ m₂) : s.Comes t m (j + k) t₂ m₂ := by
  induction h' with
  | refl => exact h
  | step _ hstart ih => exact Nat.add_assoc j _ _ ▸ .step ih hstart

end Session

end StyleScript
