-- SUMMARY: A task finishes exactly when all tasks that it starts do.
import StyleScript.Proofs.Tasks

/-!
# Finishing

A task finishes when it comes to an end with some fuel. It does exactly when all
tasks that it starts do. The tasks that a call starts need less fuel than the call
itself, and those of any other task need no more than it.
-/

namespace StyleScript

namespace Session

/-- A task comes to an end when calls are followed to a depth of `fuel`. -/
def Completes (s : Session) (fuel : Nat) : Task → Machine → Prop
  | .expr e scope, m => Outcome.Final (e.eval (s.call fuel) scope m)
  | .items es scope, m => Outcome.Final (evalItems (s.call fuel) scope es m)
  | .args args scope, m => Outcome.Final (evalArgs (s.call fuel) scope args m)
  | .call name args scope location, m => Outcome.Final (s.call fuel name args scope location m)
  | .fill slots scope, m => Outcome.Final (Slot.fill (evaluator (s.call fuel)) scope slots m)
  | .stmts body scope, m => Outcome.Final (Stmt.run (s.call fuel) scope body m)

/-- A task comes to an end. -/
def Finishes (s : Session) (t : Task) (m : Machine) : Prop := ∃ fuel, s.Completes fuel t m

variable {s : Session} {fuel : Nat} {t t' : Task} {m m' : Machine}

theorem Completes.of_le {fuel' : Nat} (h : s.Completes fuel t m) (hle : fuel ≤ fuel') :
    s.Completes fuel' t m := by
  cases t with
  | expr e scope => exact (s.stable_eval e scope).final_of_le hle h
  | items es scope => exact (s.stable_items es scope).final_of_le hle h
  | args args scope => exact (s.stable_args args scope).final_of_le hle h
  | call name args scope location => exact (s.stable_call name args scope location).final_of_le hle h
  | fill slots scope => exact (s.stable_fill slots scope).final_of_le hle h
  | stmts body scope => exact (s.stable_run body scope).final_of_le hle h

theorem not_completes_call_zero {name : String} {args : Args} {scope : ScopeId}
    {location : Option Location} : ¬s.Completes 0 (.call name args scope location) m := id

/-! ## From a task to those that it starts -/

/-- The right side of an operator comes after the left one, unless that decides. -/
theorem eval_binary (call : Caller) (scope : ScopeId) (op : BinaryOp) (left right : Expr)
    (location : Option Location) :
    Expr.eval call scope (.binary op left right location) =
      left.eval call scope >>= fun l =>
        if op.decides l then pure l
        else right.eval call scope >>= fun r =>
          if op = .and ∨ op = .or then pure r
          else Eval.locate location (Eval.build (op.apply l r)) := rfl

/-- A task that is no call and comes to an end starts only tasks that do, with the
    same fuel. -/
theorem Completes.of_starts {k : Nat} (h : s.Completes fuel t m) (hcall : t.isCall = false)
    (hstart : s.Starts k t m t' m') : s.Completes fuel t' m' := by
  cases hstart with
  | list =>
    rw [Completes, Expr.eval] at h
    exact Eval.final_left h
  | operand =>
    rw [Completes, Expr.eval] at h
    exact Eval.final_left h
  | left =>
    rw [Completes, eval_binary] at h
    exact Eval.final_left h
  | right hl hop =>
    rw [Completes, eval_binary] at h
    have hright := (s.stable_eval _ _).final_next hl h
    rw [if_neg hop] at hright
    exact Eval.final_left hright
  | args =>
    rw [Completes, Expr.eval] at h
    exact Eval.final_left h
  | call hargs =>
    rw [Completes, Expr.eval] at h
    exact (s.stable_args _ _).final_next hargs h
  | item =>
    rw [Completes, evalItems] at h
    exact Eval.final_left h
  | nextItem hv =>
    rw [Completes, evalItems] at h
    have hnext := (s.stable_eval _ _).final_next hv h
    exact Eval.final_left hnext
  | arg =>
    rw [Completes, evalArgs] at h
    exact Eval.final_left h
  | nextArg hv =>
    rw [Completes, evalArgs] at h
    have hnext := (s.stable_eval _ _).final_next hv h
    exact Eval.final_left hnext
  | default hgiven hdefault hliteral =>
    rw [Completes, Slot.fill_cons] at h
    have hvalue := Eval.final_left h
    rw [Slot.value?_default hgiven hdefault hliteral, map_eq_pure_bind] at hvalue
    exact Eval.final_left hvalue
  | nextSlot hv =>
    rw [Completes, Slot.fill_cons] at h
    have hnext := (s.stable_value? _ _).final_next hv h
    have hrest := Eval.final_right hnext (Eval.define_apply ..)
    exact hrest
  | skipSlot hv =>
    rw [Completes, Slot.fill_cons] at h
    have hnext := (s.stable_value? _ _).final_next hv h
    exact Eval.final_left hnext
  | value =>
    rw [Completes, Stmt.run] at h
    exact Eval.final_left h
  | afterAssign hv =>
    rw [Completes, Stmt.run] at h
    have hnext := (s.stable_eval _ _).final_next hv h
    have hrest := Eval.final_right hnext (Eval.define_apply ..)
    exact hrest
  | result =>
    rw [Completes, Stmt.run] at h
    exact Eval.final_left h
  | afterDefine =>
    rw [Completes, Stmt.run] at h
    have hrest := Eval.final_right h (Eval.defineFunction_apply ..)
    exact hrest
  | bind | body => cases hcall

/-- A call that comes to an end starts only tasks that do, with less fuel. -/
theorem Completes.of_call_starts {name : String} {args : Args} {scope : ScopeId}
    {location : Option Location} {k : Nat}
    (h : s.Completes (fuel + 1) (.call name args scope location) m)
    (hstart : s.Starts k (.call name args scope location) m t' m') : s.Completes fuel t' m' := by
  have hperform {f : Function} (htarget : s.target m.store name args.count scope = .ok f)
      (halive : f.body.alive m.store = true) :
      Outcome.Final (s.perform (s.call fuel) f args scope location m.store.next
        (m.enter f.body.around)) := by
    rw [Completes, call_target htarget, invoke_alive halive, Eval.inNewScope_apply,
      Outcome.final_onMachine] at h
    exact h
  cases hstart with
  | bind htarget halive hplace =>
    have hbind := Eval.final_left (hperform htarget halive)
    rw [Eval.final_locate, Params.bind_of_place_ok hplace] at hbind
    exact Eval.final_left hbind
  | @body _ _ _ _ _ f d closure _ n htarget hbody halive hbind hfull =>
    have hfinal := hperform htarget halive
    have hbound := Eval.final_left hfinal
    rw [Eval.final_locate] at hbound
    have hok := (s.stable_bind _ _ _ _).ok_of_final hbind hbound
    have hfinish := Eval.final_right hfinal (Eval.locate_eq_ok.2 hok)
    rw [finish, hbody] at hfinish
    simp only at hfinish
    rw [Eval.final_locate, d.run_below_limit (Machine.not_full_iff.1 hfull)] at hfinish
    have hrun := Eval.final_left hfinish
    rwa [Eval.nested_apply, Outcome.final_onMachine] at hrun

/-! ## From the tasks that a task starts to the task -/

open Eval

/-- Every task that a task starts on a machine finishes. -/
def Ready (s : Session) (t : Task) (m : Machine) : Prop :=
  ∀ k t' m', s.Starts k t m t' m' → s.Finishes t' m'

private theorem Ready.expr {e : Expr} {scope : ScopeId} (h : s.Ready (.expr e scope) m) :
    s.Finishes (.expr e scope) m := by
  unfold Finishes Completes
  match e, h with
  | .literal v, _ => exact ⟨0, trivial⟩
  | .variable name location, _ =>
    refine ⟨0, ?_⟩
    change Outcome.Final ((Expr.variable name location).eval (s.call 0) scope m)
    rw [Expr.eval, ofStore_bind_apply]
    cases m.store.lookup? scope name with
    | some v => trivial
    | none => trivial
  | .list items separator, h =>
    simp only [Expr.eval]
    refine (s.stable_items items scope).final_bind (fun _ => stable_const _) (h _ _ _ .list) ?_
    exact fun _ _ _ _ => ⟨0, final_build _ _⟩
  | .unary op operand location, h =>
    simp only [Expr.eval]
    refine (s.stable_eval operand scope).final_bind (fun _ => stable_const _) (h _ _ _ .operand) ?_
    exact fun _ _ _ _ => ⟨0, (final_locate ..).2 (final_build _ _)⟩
  | .binary op left right location, h =>
    simp only [eval_binary]
    refine (s.stable_eval left scope).final_bind (fun l => ?_) (h _ _ _ .left) fun k l n hl => ?_
    · by_cases hop : op.decides l
      · simp only [if_pos hop]
        exact stable_const _
      · simp only [if_neg hop]
        exact (s.stable_eval right scope).bind fun _ => stable_const _
    · by_cases hop : op.decides l
      · simp only [if_pos hop]
        exact ⟨0, trivial⟩
      · simp only [if_neg hop]
        refine (s.stable_eval right scope).final_bind (fun _ => stable_const _)
          (h _ _ _ (.right hl hop)) fun _ r n' _ => ⟨0, ?_⟩
        split
        · trivial
        · exact (final_locate ..).2 (final_build _ _)
  | .call name args location, h =>
    simp only [Expr.eval]
    refine (s.stable_args args scope).final_bind (fun vs => s.stable_call name vs scope location)
      (h _ _ _ .args) ?_
    exact fun _ _ _ hargs => h _ _ _ (.call hargs)

private theorem Ready.items {es : List Expr} {scope : ScopeId} (h : s.Ready (.items es scope) m) :
    s.Finishes (.items es scope) m := by
  unfold Finishes Completes
  cases es with
  | nil => exact ⟨0, trivial⟩
  | cons e es =>
    simp only [evalItems]
    refine (s.stable_eval e scope).final_bind (fun _ => ?_) (h _ _ _ .item) fun _ v n hv => ?_
    · exact (s.stable_items es scope).bind fun _ => stable_const _
    · refine (s.stable_items es scope).final_bind (fun _ => stable_const _)
        (h _ _ _ (.nextItem hv)) ?_
      exact fun _ _ _ _ => ⟨0, trivial⟩

private theorem Ready.args {args : List Arg} {scope : ScopeId} (h : s.Ready (.args args scope) m) :
    s.Finishes (.args args scope) m := by
  unfold Finishes Completes
  cases args with
  | nil => exact ⟨0, trivial⟩
  | cons a args =>
    obtain ⟨name, e⟩ := a
    simp only [evalArgs]
    refine (s.stable_eval e scope).final_bind (fun _ => ?_) (h _ _ _ .arg) fun _ v n hv => ?_
    · exact (s.stable_args args scope).bind fun _ => stable_const _
    · refine (s.stable_args args scope).final_bind (fun _ => stable_const _)
        (h _ _ _ (.nextArg hv)) ?_
      exact fun _ _ _ _ => ⟨0, trivial⟩

/-- The value of a parameter is reached when its default comes to an end. -/
private theorem Ready.value? {slot : Slot} {slots : List Slot} {scope : ScopeId}
    (h : s.Ready (.fill (slot :: slots) scope) m) :
    ∃ fuel, Outcome.Final (slot.value? (evaluator (s.call fuel)) scope m) := by
  cases hgiven : slot.given with
  | some v =>
    simp only [Slot.value?_given hgiven]
    exact ⟨0, trivial⟩
  | none =>
    rcases Slot.default_cases slot.param with hnone | ⟨v, hdefault⟩ | ⟨e, hdefault, hliteral⟩
    · simp only [Slot.value?_none hgiven hnone]
      exact ⟨0, trivial⟩
    · simp only [Slot.value?_literal hgiven hdefault]
      exact ⟨0, trivial⟩
    · obtain ⟨k, hk⟩ := h _ _ _ (.default hgiven hdefault hliteral)
      refine ⟨k, ?_⟩
      rw [Slot.value?_default hgiven hdefault hliteral, map_eq_pure_bind]
      exact Eval.final_bind hk fun _ _ _ => trivial

private theorem Ready.fill {slots : List Slot} {scope : ScopeId}
    (h : s.Ready (.fill slots scope) m) : s.Finishes (.fill slots scope) m := by
  unfold Finishes Completes
  cases slots with
  | nil => exact ⟨0, trivial⟩
  | cons slot slots =>
    simp only [Slot.fill_cons]
    refine (s.stable_value? slot scope).final_bind (fun v => ?_) ?_ fun _ v n hv => ?_
    · cases v with
      | some v => exact (stable_const _).bind fun _ => s.stable_fill slots scope
      | none => exact (s.stable_fill slots scope).bind fun _ => stable_const _
    · exact h.value?
    · cases v with
      | some v => exact h _ _ _ (.nextSlot hv)
      | none =>
        refine (s.stable_fill slots scope).final_bind (fun _ => stable_const _)
          (h _ _ _ (.skipSlot hv)) ?_
        exact fun _ _ _ _ => ⟨0, trivial⟩

private theorem Ready.stmts {body : List Stmt} {scope : ScopeId}
    (h : s.Ready (.stmts body scope) m) : s.Finishes (.stmts body scope) m := by
  unfold Finishes Completes
  cases body with
  | nil => exact ⟨0, trivial⟩
  | cons stmt rest =>
    cases stmt with
    | assign name e =>
      simp only [Stmt.run]
      refine (s.stable_eval e scope).final_bind (fun _ => ?_) (h _ _ _ .value) fun _ v n hv => ?_
      · exact (stable_const _).bind fun _ => s.stable_run rest scope
      · exact h _ _ _ (.afterAssign hv)
    | result e =>
      simp only [Stmt.run]
      refine (s.stable_eval e scope).final_bind (fun _ => stable_const _) (h _ _ _ .result) ?_
      exact fun _ _ _ _ => ⟨0, trivial⟩
    | define name params body location =>
      simp only [Stmt.run]
      exact h _ _ _ .afterDefine

theorem final_complete (p : Params) (function : String) (args : Args) (scope : ScopeId)
    (missing : List String) : Outcome.Final (p.complete function args scope missing m) := by
  cases missing with
  | cons _ _ => trivial
  | nil =>
    unfold Params.complete Params.bindRest
    cases p.rest with
    | none => trivial
    | some rest => exact Eval.final_bind (final_build _ _) fun _ _ _ => trivial

/-- A call whose arguments are bound comes to an end, if its body does in case that
    it begins. -/
private theorem final_finish {f : Function} {inner scope : ScopeId} {location : Option Location}
    (h : ∀ d closure, f.body = .written d closure → m.depth < s.options.maxDepth →
      s.Finishes (.stmts d.body inner) (m.withDepth (m.depth + 1))) :
    ∃ fuel, Outcome.Final (s.finish (s.call fuel) f inner scope location m) := by
  unfold finish
  cases hbody : f.body with
  | native run =>
    have hnative : Outcome.Final (s.runNative f.name run inner scope location m) := by
      rw [runNative, ofStore_bind_apply]
      exact final_build _ _
    exact ⟨0, hnative⟩
  | written d closure =>
    simp only [final_locate]
    by_cases hlimit : m.depth < s.options.maxDepth
    · obtain ⟨k, hk⟩ := h d closure hbody hlimit
      refine ⟨k, ?_⟩
      rw [d.run_below_limit hlimit]
      refine Eval.final_bind ?_ fun v _ _ => ?_
      · rw [nested_apply, Outcome.final_onMachine]
        exact hk
      · cases v with
        | some v => trivial
        | none => trivial
    · refine ⟨0, ?_⟩
      rw [d.run_at_limit (Nat.le_of_not_lt hlimit)]
      trivial

private theorem Ready.call {name : String} {args : Args} {scope : ScopeId}
    {location : Option Location} (h : s.Ready (.call name args scope location) m) :
    s.Finishes (.call name args scope location) m := by
  cases htarget : s.target m.store name args.count scope with
  | error e =>
    refine ⟨1, ?_⟩
    rw [Completes, call_no_target htarget]
    trivial
  | ok f =>
    cases halive : f.body.alive m.store with
    | false =>
      refine ⟨1, ?_⟩
      rw [Completes, call_target htarget, invoke_dead halive]
      trivial
    | true =>
      have hbind : ∃ fuel, Outcome.Final (f.params.bind f.name args (evaluator (s.call fuel))
          m.store.next (m.enter f.body.around)) := by
        cases hplace : f.params.place args with
        | error fault =>
          refine ⟨0, ?_⟩
          rw [Params.bind_of_place_error hplace]
          trivial
        | ok slots =>
          obtain ⟨k, hk⟩ := h _ _ _ (.bind htarget halive hplace)
          refine ⟨k, ?_⟩
          rw [Params.bind_of_place_ok hplace]
          exact Eval.final_bind hk fun missing n _ => final_complete ..
      have hperform : ∃ fuel, Outcome.Final (s.perform (s.call fuel) f args scope location
          m.store.next (m.enter f.body.around)) := by
        refine ((s.stable_bind f.params f.name args _).locate location).final_bind
          (fun _ => s.stable_finish f _ scope location) ?_ fun k _ n hbound => ?_
        · simpa only [final_locate] using hbind
        · apply final_finish
          intro d closure hbody hlimit
          have hfull := Machine.not_full_iff.2 hlimit
          exact h _ _ _ (.body htarget hbody halive (locate_eq_ok.1 hbound) hfull)
      obtain ⟨k, hk⟩ := hperform
      refine ⟨k + 1, ?_⟩
      rw [Completes, call_target htarget, invoke_alive halive, inNewScope_apply,
        Outcome.final_onMachine]
      exact hk

/-- A task finishes when all tasks that it starts do. -/
theorem Ready.finishes (h : s.Ready t m) : s.Finishes t m := by
  cases t with
  | expr e scope => exact h.expr
  | items es scope => exact h.items
  | args args scope => exact h.args
  | call name args scope location => exact h.call
  | fill slots scope => exact h.fill
  | stmts body scope => exact h.stmts

end Session

end StyleScript
