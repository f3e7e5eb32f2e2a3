-- SUMMARY: Locations never count: programs that differ in locations only are answered alike, locations aside.
import StyleScript.Proofs.Scripts

/-!
# Locations

A location is attached to what was written or built, and shown with errors. It decides
nothing. So when the locations of a program are changed or erased, each one on its own, in
its literals and in the values of its scopes, in its expressions and definitions, at its
calls and where values are built, all of its answers stay what they were, but for the
locations in them: the same values, or errors of the same kind with the same wording. As
many values are built, and as many bodies are being run.
-/

namespace StyleScript

/-- Programs that differ in locations only, which may be any. -/
def Resemblance.relocated : Resemblance :=
  { same with
    place := fun _ _ => True
    place_refl := fun _ => trivial
    place_orElse := fun _ _ => trivial }

theorem Resemblance.verbatim_relocated : relocated.Verbatim := fun _ _ => id

/-! ## Values without locations -/

mutual

/-- A value with all locations in it erased. -/
def Value.bare : Value → Value
  | .number n _ => .number n none
  | .color c _ => .color c none
  | .string content quoted _ => .string content quoted none
  | .bool b _ => .bool b none
  | .list vs separator _ => .list (Values.bare vs) separator none
  | .null _ => .null none

/-- Values with all locations in them erased. -/
def Values.bare : List Value → List Value
  | [] => []
  | v :: vs => v.bare :: Values.bare vs

end

mutual

theorem Value.Resembles.bare : (v w : Value) → v.Resembles .relocated w → v.bare = w.bare
  | .number .., _, .number _ => rfl
  | .color .., _, .color _ => rfl
  | .string .., _, .string _ => rfl
  | .bool .., _, .bool _ => rfl
  | .list vs separator _, _, .list hvs _ => by
    simp only [Value.bare, Values.Resemble.bare vs _ hvs]
  | .null _, _, .null _ => rfl

theorem Values.Resemble.bare :
    (vs ws : List Value) → Values.Resemble .relocated vs ws → Values.bare vs = Values.bare ws
  | [], _, .nil => rfl
  | v :: vs, _, .cons hv hvs => by
    simp only [Values.bare, Value.Resembles.bare v _ hv, Values.Resemble.bare vs _ hvs]

end

/-! ## Answers without locations -/

/-- Scripts that differ in locations only, on machines that do, are answered alike, step by
    step: with the same values when the locations in them are erased, or with errors of the
    same kind and wording, after as many values were built. The functions in scopes may run
    the code of any builtin, and all other code that is indifferent. -/
theorem runScript_ignores_locations (options : Options) {m n : Machine} (hm : m.Resembles .relocated n)
    {steps steps' : List Step} (hsteps : List.Forall₂ (Step.Resembles .relocated) steps steps') :
    List.Forall₂ (Outcome.SameBy .relocated Value.bare fun e => (e.kind, e.message))
      (runScript ⟨.standard, options⟩ steps m) (runScript ⟨.standard, options⟩ steps' n) := by
  refine (resemble_runScript Registry.resembles_standard hsteps hm).imp fun o o' h => ?_
  refine h.sameBy Value.Resembles.bare (fun _ _ => id) fun e e' he => ?_
  rw [he.kind, he.message Resemblance.verbatim_relocated]

/-- A script with a location at each of its parts. In the scope that it opens there are a
    list and a function whose body reads a variable that there is not; it evaluates the
    variable with the list, and a call of the function. -/
def placedScript (place : Nat → Option Location) : List Step :=
  let f : Definition := ⟨"f", ⟨[⟨"x", none⟩], none⟩, [.result (.variable "y" (place 1))], place 2⟩
  [.enter none,
    .setLocation (place 3),
    .define 0 "v" (.list [.bool true (place 4)] .comma (place 5)),
    .defineFunction 0 (.ofDefinition f 0),
    .request (.eval (.list [.variable "v" (place 6), .literal (.null (place 7))] .space) 0) 1,
    .request (.eval (.call "f" [.mk none (.literal (.bool true (place 8)))] (place 9)) 0) 1]

theorem placedScript_resembles (place place' : Nat → Option Location) :
    List.Forall₂ (Step.Resembles .relocated) (placedScript place) (placedScript place') := by
  have hparams : Params.Resembles .relocated ⟨[⟨"x", none⟩], none⟩ ⟨[⟨"x", none⟩], none⟩ :=
    Params.resembles_refl _
  have hbody : Stmt.Resembles .relocated (.result (.variable "y" (place 1)))
      (.result (.variable "y" (place' 1))) := .result (.variable rfl trivial)
  refine .cons (.enter .none) (.cons (.setLocation trivial) (.cons ?_ (.cons ?_ (.cons ?_ (.cons ?_ .nil)))))
  · exact .define rfl rfl (.list (.cons (.bool trivial) .nil) trivial)
  · exact .defineFunction rfl (.written rfl hparams ⟨rfl, hparams, .cons hbody .nil, trivial⟩ rfl)
  · exact .request (.eval (.list (.cons (.variable rfl trivial)
      (.cons (.literal (.null trivial)) .nil))) rfl)
  · exact .request (.eval (.call rfl (.cons (.mk .none (.literal (.bool trivial))) .nil) trivial) rfl)

/-- With locations the call fails at the variable in the body, and without any it fails
    nowhere, but it fails for the same reason. -/
theorem placedScript_ignores_locations :
    let place : Nat → Option Location := fun line => some ⟨"a", line⟩
    let left := runScript ⟨.standard, .standard⟩ (placedScript place) .fresh
    let right := runScript ⟨.standard, .standard⟩ (placedScript fun _ => none) .fresh
    List.Forall₂ (Outcome.SameBy .relocated Value.bare fun e => (e.kind, e.message)) left right ∧
      (left.getLast?.map Outcome.result = some (.error (.error ⟨.undefinedVariable "y", [], place 1⟩))) ∧
      right.getLast?.map Outcome.result = some (.error (.error ⟨.undefinedVariable "y", [], none⟩)) := by
  refine ⟨?_, rfl, rfl⟩
  exact runScript_ignores_locations .standard (Machine.resembles_fresh rfl)
    (placedScript_resembles _ _)

end StyleScript
