-- SUMMARY: What is true of every candidate of the standard registry.
import StyleScript.Proofs.Building

/-!
# Builtins

The candidates of the standard registry run the code of a builtin, and their
defaults are literals, because a signature can have no other ones. Whatever is true
of all functions that are registered is true of all candidates, and of the one that
a call is resolved to.
-/

namespace StyleScript

/-! ## Signatures -/

/-- Parameters whose defaults are literals. -/
def Params.LiteralDefaults (p : Params) : Prop :=
  ∀ param ∈ p.fixed, ∀ e, param.default = some e → ∃ v, e = .literal v

/-- A build that gives only results with a property. -/
def Build.Gives {α : Type} (P : α → Prop) (x : Build α) : Prop :=
  ∀ b b' a, x b = .ok a b' → P a

namespace Build

variable {α β : Type} {P : α → Prop}

theorem gives_pure {a : α} (h : P a) : Gives P (pure a) := by
  rintro b b' _ hx
  cases hx
  exact h

theorem gives_throw (e : Error) : Gives P (throw e) := nofun

theorem gives_bind {Q : β → Prop} {x : Build α} {f : α → Build β} (hf : ∀ a, Gives Q (f a)) :
    Gives Q (x >>= f) := by
  intro b b' a hx
  cases hxb : x b with
  | ok c n =>
    rw [bind_ok hxb] at hx
    exact hf c n b' a hx
  | error e n =>
    rw [bind_error hxb] at hx
    cases hx

theorem gives_mapError {x : Build α} (f : Error → Error) (hx : Gives P x) :
    Gives P (mapError f x) := by
  intro b b' a h
  unfold mapError at h
  cases hxb : x b with
  | ok c n =>
    rw [hxb] at h
    cases h
    exact hx b b' a hxb
  | error e n =>
    rw [hxb] at h
    cases h

end Build

namespace Signature

open Build

theorem gives_fail {P : Params → Prop} (fault : TokenKind → SignatureFault) (next : List Token) :
    Gives P (fail fault next) := gives_throw _

private theorem literalDefaults_snoc {seen : Params} (h : seen.LiteralDefaults) {param : Param}
    (hparam : ∀ e, param.default = some e → ∃ v, e = .literal v) :
    Params.LiteralDefaults { seen with fixed := seen.fixed ++ [param] } := by
  intro p hp
  rcases List.mem_append.1 hp with hp | hp
  · exact h p hp
  · rw [List.mem_singleton.1 hp]
    exact hparam

mutual

/-- Reading adds literal defaults only. -/
theorem literalDefaults_readParam (seen : Params) (h : seen.LiteralDefaults) :
    (tokens : List Token) → Gives Params.LiteralDefaults (readParam seen tokens)
  | tokens => by
    unfold readParam
    split
    · split
      · exact gives_fail _ _
      · split
        · exact gives_fail _ _
        · split
          · split
            · refine gives_bind fun value => literalDefaults_readComma _ ?_ _
              refine literalDefaults_snoc h ?_
              rintro _ ⟨⟩
              exact ⟨value, rfl⟩
            · exact gives_fail _ _
          · refine literalDefaults_readComma _ ?_ _
            exact h
          · refine literalDefaults_readComma _ (literalDefaults_snoc h ?_) _
            rintro _ ⟨⟩
    · exact gives_fail _ _
termination_by tokens => sizeOf tokens

theorem literalDefaults_readComma (seen : Params) (h : seen.LiteralDefaults) :
    (tokens : List Token) → Gives Params.LiteralDefaults (readComma seen tokens)
  | tokens => by
    unfold readComma
    split
    · exact literalDefaults_readParam seen h _
    · exact gives_pure h
    · exact gives_fail _ _
termination_by tokens => sizeOf tokens

end

/-- A signature has literal defaults only. -/
theorem literalDefaults_read (text : String) : Gives Params.LiteralDefaults (read text) := by
  unfold read
  refine gives_bind fun tokens => gives_mapError _ ?_
  unfold readParams
  split
  · exact gives_pure nofun
  · exact literalDefaults_readParam .empty nofun _

end Signature

/-- Parameters that a signature was read as. -/
def Params.FromSignature (p : Params) : Prop :=
  ∃ text b b', Signature.read text b = .ok p b'

theorem Params.FromSignature.literalDefaults {p : Params} (h : p.FromSignature) :
    p.LiteralDefaults := by
  obtain ⟨text, b, b', hread⟩ := h
  exact Signature.literalDefaults_read text b b' p hread

/-! ## Candidates -/

/-- A function that runs the code of a builtin and has literal defaults. -/
structure Function.IsBuiltin (f : Function) : Prop where
  code : ∃ b : Builtin, f.body = .native b.run
  defaults : f.params.LiteralDefaults

namespace Registry

/-- A registry whose candidates all have a property. -/
def Holds (r : Registry) (P : Function → Prop) : Prop := ∀ name, ∀ f ∈ r.candidates name, P f

/-- A call is resolved to a candidate of its name. -/
theorem mem_candidates_of_resolve {r : Registry} {name : String} {count : Nat} {f : Function}
    (h : r.resolve name count = .ok f) : f ∈ r.candidates name := by
  unfold resolve at h
  unfold candidates
  split at h
  · cases h
  · rename_i only hget
    cases h
    rw [hget]
    exact List.mem_singleton_self f
  · rename_i several _ hget
    cases hfind : several.find? (·.params.accepts count) with
    | none =>
      rw [hfind] at h
      cases h
    | some g =>
      rw [hfind] at h
      cases h
      rw [hget]
      exact List.mem_of_find?_eq_some hfind

variable {P : Function → Prop} {r : Registry}

/-- Candidates differ from what was added in the mark of overloading only. -/
theorem holds_add (hmark : ∀ f, P f → P { f with overloaded := true }) (hr : r.Holds P)
    {f : Function} (hf : P f) : (r.add f).Holds P := by
  intro name g hg
  rw [candidates_add] at hg
  split at hg
  · have hall : ∀ g ∈ r.candidates f.name ++ [f], P g := by
      intro g hg
      rcases List.mem_append.1 hg with hg | hg
      · exact hr f.name g hg
      · rw [List.mem_singleton.1 hg]
        exact hf
    unfold mark at hg
    split at hg
    · obtain ⟨g, hmem, rfl⟩ := List.mem_map.1 hg
      exact hmark g (hall g hmem)
    · exact hall g hg
  · exact hr name g hg

theorem holds_register (hmark : ∀ f, P f → P { f with overloaded := true }) (hr : r.Holds P)
    {name signature : String} {run : NativeCode}
    (hnew : ∀ params : Params, params.FromSignature → P (.native name params run)) {r' : Registry}
    (h : r.register name signature run = .ok r') : r'.Holds P := by
  unfold register at h
  split at h
  · rename_i params _ hread
    cases h
    exact holds_add hmark hr (hnew params ⟨_, _, _, hread⟩)
  · cases h

theorem holds_addAll (hmark : ∀ f, P f → P { f with overloaded := true }) (bs : List Builtin)
    (hnew : ∀ b ∈ bs, ∀ params : Params, params.FromSignature → P (.native b.name params b.run))
    (hr : r.Holds P) {r' : Registry} (h : r.addAll bs = .ok r') : r'.Holds P := by
  induction bs generalizing r with
  | nil =>
    cases h
    exact hr
  | cons b bs ih =>
    unfold addAll at h
    cases hregister : r.register b.name b.signature b.run with
    | ok r₁ =>
      rw [hregister] at h
      refine ih (fun b' hb' => hnew b' (List.mem_cons_of_mem b hb')) ?_ h
      exact holds_register hmark hr (hnew b List.mem_cons_self) hregister
    | error e =>
      rw [hregister] at h
      cases h

/-- What is true of every builtin with parameters from a signature is true of the candidates of
    the standard registry. -/
theorem holds_standard (hmark : ∀ f, P f → P { f with overloaded := true })
    (hnew : ∀ b ∈ Builtin.all, ∀ params : Params, params.FromSignature →
      P (.native b.name params b.run)) : standard.Holds P := by
  have hempty : empty.Holds P := nofun
  unfold standard
  cases hall : empty.addAll Builtin.all with
  | ok r => exact holds_addAll hmark Builtin.all hnew hempty hall
  | error e => exact hempty

/-- Every candidate of the standard registry is a builtin. -/
theorem isBuiltin_standard : standard.Holds Function.IsBuiltin := by
  refine holds_standard (fun f hf => ⟨hf.code, hf.defaults⟩) fun b _ params hparams => ?_
  exact ⟨⟨b, rfl⟩, hparams.literalDefaults⟩

end Registry

end StyleScript
