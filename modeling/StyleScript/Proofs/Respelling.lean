-- SUMMARY: Spellings never count: programs that spell names in other ways are answered alike.
import Mathlib
import StyleScript.Proofs.Scripts

/-!
# Respelling

A name may be spelled in several ways, and each occurrence of it may be spelled in another
way. Programs keep the spellings as they were written, in expressions, parameters,
arguments, definitions and functions; wherever names are looked up or compared, this is
done by their canonical spelling. So when the names of a program are spelled in other ways,
each occurrence on its own, all of its answers stay what they were: the same values, or
errors of the same kind at the same location. Only the wording of errors shows spellings.
-/

namespace StyleScript

/-- Programs that differ in spellings only. -/
def Resemblance.respelled : Resemblance :=
  { same with
    name := SameName
    name_refl := fun _ => rfl
    name_canonical := id }

/-- Scripts that differ in spellings only, on machines that do, are answered alike, step by
    step: with the same values, or with errors of the same kind at the same location, after
    as many values were built. The functions in scopes may run the code of any builtin, and
    all other code that is indifferent. -/
theorem runScript_ignores_spellings (options : Options) {m n : Machine} (hm : m.Resembles .respelled n)
    {steps steps' : List Step} (hsteps : List.Forall₂ (Step.Resembles .respelled) steps steps') :
    List.Forall₂ (Outcome.SameBy .respelled id fun e => (e.kind, e.location))
      (runScript ⟨.standard, options⟩ steps m) (runScript ⟨.standard, options⟩ steps' n) := by
  have hlocated : Resemblance.respelled.Located := fun _ _ => id
  refine (resemble_runScript Registry.resembles_standard hsteps hm).imp fun o o' h => ?_
  refine h.sameBy (Value.Resembles.eq hlocated) (fun _ _ => id) fun e e' he => ?_
  rw [he.kind, hlocated _ _ he.location]

/-- A script with two names at many places: a variable, which is also a parameter of the
    function that it defines, and that function. -/
def spelledScript (x f : Nat → String) : List Step :=
  let params : Params := ⟨[⟨x 1, none⟩], none⟩
  let negated : Expr := .unary .not (.variable (x 2) none) none
  let d : Definition :=
    ⟨f 0, params, [.assign (x 3) negated, .result (.variable (x 4) none)], none⟩
  [.enter none,
    .define 0 (x 0) (.null none),
    .defineFunction 0 (.ofDefinition d 0),
    .lookup 0 (x 5),
    .request (.eval (.call (f 1) [.mk (some (x 6)) (.literal (.bool true none))] none) 0) 1]

theorem spelledScript_resembles {x x' f f' : Nat → String} (hx : ∀ k, SameName (x k) (x' k))
    (hf : ∀ k, SameName (f k) (f' k)) :
    List.Forall₂ (Step.Resembles .respelled) (spelledScript x f) (spelledScript x' f') := by
  have hparams : Params.Resembles .respelled ⟨[⟨x 1, none⟩], none⟩ ⟨[⟨x' 1, none⟩], none⟩ :=
    ⟨.cons ⟨hx 1, .none⟩ .nil, .none⟩
  have hnegated : Stmt.Resembles .respelled
      (.assign (x 3) (.unary .not (.variable (x 2) none) none))
      (.assign (x' 3) (.unary .not (.variable (x' 2) none) none)) :=
    .assign (hx 3) (.unary (.variable (hx 2) rfl) rfl)
  have hresult : Stmt.Resembles .respelled (.result (.variable (x 4) none))
      (.result (.variable (x' 4) none)) := .result (.variable (hx 4) rfl)
  refine .cons (.enter .none) (.cons ?_ (.cons ?_ (.cons ?_ (.cons ?_ .nil))))
  · exact .define rfl (hx 0) (.null rfl)
  · exact .defineFunction rfl (.written (hf 0) hparams
      ⟨hf 0, hparams, .cons hnegated (.cons hresult .nil), rfl⟩ rfl)
  · exact .lookup rfl (hx 5)
  · exact .request (.eval (.call (hf 1)
      (.cons (.mk (.some (hx 6)) (.literal (.bool rfl))) .nil) rfl) rfl)

/-- The script with its names spelled in several ways. -/
def variedScript : List Step :=
  spelledScript (fun k => if k % 2 = 0 then "a_b" else "$a-b") fun k => if k = 0 then "f_g" else "f-g"

/-- However the two names are spelled, the function is found, takes the argument under the
    name of its parameter and returns its negation. -/
theorem variedScript_ignores_spellings :
    let s : Session := ⟨.standard, .standard⟩
    List.Forall₂ (Outcome.SameBy .respelled id fun e => (e.kind, e.location))
      (runScript s variedScript .fresh)
      (runScript s (spelledScript (fun _ => "a-b") fun _ => "f-g") .fresh) ∧
    (runScript s variedScript .fresh).getLast?.map Outcome.result =
      some (.ok (.value (some (.bool false none)))) := by
  intro s
  refine ⟨?_, by cbv⟩
  refine runScript_ignores_spellings .standard (Machine.resembles_fresh rfl)
    (spelledScript_resembles (fun k => ?_) fun k => ?_)
  · unfold SameName
    split <;> decide
  · unfold SameName
    split <;> decide

end StyleScript
