-- SUMMARY: The standard registry has every builtin under its name, and nothing else.
import StyleScript.Proofs.Histories

/-!
# The standard registry

Setting up the registry reads one signature after the other and would stop at the first that
is none. All of them are signatures, so every builtin is registered. Two builtins share a
name; every other name has one candidate, which calls of the name are resolved to whatever
their arguments are.
-/

namespace StyleScript

/-- The parameters of a signature, or none at all if the text is no signature. -/
def Signature.paramsOf (text : String) : Params :=
  match read text .fresh with
  | .ok p _ => p
  | .error _ _ => .empty

namespace Builtin

/-- The parameters that a builtin is registered with. -/
def params (b : Builtin) : Params := Signature.paramsOf b.signature

/-- The function that a builtin is registered as. -/
def function (b : Builtin) : Function := .native b.name b.params b.run

/-- Every signature can be read. -/
theorem read_signature {b : Builtin} (hb : b ∈ all) :
    ∃ n, Signature.read b.signature .fresh = .ok b.params n := by
  -- computed for all builtins, through the lexer and the reader
  have hall : ∀ b ∈ all, (match Signature.read b.signature .fresh with
      | .ok _ _ => true
      | .error _ _ => false) = true := by decide +kernel
  have hread := hall b hb
  unfold params Signature.paramsOf
  split at hread
  · rename_i p n hok
    exact ⟨n, by rw [hok]⟩
  · cases hread

/-- Only `rgba` is the name of two builtins. -/
theorem names_pairwise :
    (all.map fun b => canonical b.name).Pairwise fun x y => x = y → x = "rgba" := by
  decide +kernel

end Builtin

/-- A function that is a builtin as it was registered. Whether it is overloaded depends on the
    other candidates of its name. -/
structure Function.Is (f : Function) (b : Builtin) : Prop where
  name : f.name = b.name
  params : f.params = b.params
  body : f.body = .native b.run

/-- The defaults of a builtin are literals. -/
theorem Builtin.literalDefaults {b : Builtin} (hb : b ∈ all) : b.params.LiteralDefaults := by
  obtain ⟨n, hread⟩ := read_signature hb
  exact Signature.literalDefaults_read b.signature .fresh n _ hread

namespace Registry

/-- Builtins whose signatures can be read are all added. -/
theorem Records.addAll {r : Registry} {fs : List Function} (h : r.Records fs) {bs : List Builtin}
    (hbs : ∀ b ∈ bs, ∃ n, Signature.read b.signature .fresh = .ok b.params n) :
    ∃ r', r.addAll bs = .ok r' ∧ r'.Records (fs ++ bs.map Builtin.function) := by
  induction bs generalizing r fs with
  | nil => exact ⟨r, rfl, by simpa using h⟩
  | cons b bs ih =>
    obtain ⟨⟨n, hread⟩, hrest⟩ := List.forall_mem_cons.1 hbs
    have hregister : r.register b.name b.signature b.run = .ok (r.add b.function) := by
      rw [register, hread]
      rfl
    obtain ⟨r', hadd, hrecords⟩ := ih (h.add b.function) hrest
    refine ⟨r', ?_, by simpa using hrecords⟩
    rw [Registry.addAll, hregister]
    exact hadd

theorem records_standard : standard.Records (Builtin.all.map Builtin.function) := by
  obtain ⟨r, hadd, hrecords⟩ := records_empty.addAll fun _ hb => Builtin.read_signature hb
  rw [List.nil_append] at hrecords
  rw [standard, hadd]
  exact hrecords

/-- Candidates of the standard registry are builtins of the name. -/
theorem exists_of_mem_candidates {name : String} {f : Function} (h : f ∈ standard.candidates name) :
    ∃ b ∈ Builtin.all, canonical b.name = canonical name ∧ f.Is b := by
  rw [records_standard.candidates, mark_eq_map] at h
  obtain ⟨g, hg, rfl⟩ := List.mem_map.1 h
  obtain ⟨hmem, hname⟩ := List.mem_filter.1 hg
  obtain ⟨b, hb, rfl⟩ := List.mem_map.1 hmem
  exact ⟨b, hb, of_decide_eq_true hname, ⟨rfl, rfl, rfl⟩⟩

/-- Every builtin is a candidate of its name. -/
theorem exists_mem_candidates {b : Builtin} {name : String} (hb : b ∈ Builtin.all)
    (hname : canonical b.name = canonical name) : ∃ f ∈ standard.candidates name, f.Is b := by
  have hnamed : b.function ∈ named (Builtin.all.map Builtin.function) name :=
    List.mem_filter.2 ⟨List.mem_map_of_mem hb, decide_eq_true hname⟩
  rw [records_standard.candidates, mark_eq_map]
  exact ⟨_, List.mem_map_of_mem hnamed, ⟨rfl, rfl, rfl⟩⟩

/-- What a call is resolved to is a builtin of the name. -/
theorem exists_of_resolve {name : String} {count : Nat} {f : Function}
    (h : standard.resolve name count = .ok f) :
    ∃ b ∈ Builtin.all, canonical b.name = canonical name ∧ f.Is b :=
  exists_of_mem_candidates (mem_candidates_of_resolve h)

/-- A builtin that shares its name with no other one is what calls of the name are resolved
    to, whatever their arguments are. -/
theorem exists_resolve {b : Builtin} (hb : b ∈ Builtin.all) (hname : canonical b.name ≠ "rgba")
    (count : Nat) : ∃ f, standard.resolve b.name count = .ok f ∧ f.Is b := by
  have hsingle : Builtin.all.filter (fun b' => canonical b'.name = canonical b.name) = [b] := by
    have hmem : b ∈ Builtin.all.filter fun b' => canonical b'.name = canonical b.name :=
      List.mem_filter.2 ⟨hb, decide_eq_true rfl⟩
    have hpairwise := (List.pairwise_map.1 Builtin.names_pairwise).filter
      fun b' => canonical b'.name = canonical b.name
    have hsame : ∀ b' ∈ Builtin.all.filter (fun b' => canonical b'.name = canonical b.name),
        canonical b'.name = canonical b.name := fun b' hb' => by simpa using (List.mem_filter.1 hb').2
    generalize Builtin.all.filter (fun b' => canonical b'.name = canonical b.name) = own at *
    match own, hmem with
    | [b'], hmem => rw [List.mem_singleton.1 hmem]
    | x :: y :: others, _ =>
      -- two builtins of one name are those of `rgba`
      have hx := hsame x List.mem_cons_self
      have hy := hsame y (List.mem_cons_of_mem x List.mem_cons_self)
      have hrgba := List.rel_of_pairwise_cons hpairwise List.mem_cons_self (hx.trans hy.symm)
      exact absurd (hx.symm.trans hrgba) hname
  have hnamed : named (Builtin.all.map Builtin.function) b.name = [b.function] := by
    rw [named, List.filter_map]
    exact congrArg (List.map Builtin.function) hsingle
  have hcandidates : standard.candidates b.name = [b.function] := by
    rw [records_standard.candidates, hnamed]
    rfl
  exact ⟨b.function, records_standard.resolve_only hcandidates count, ⟨rfl, rfl, rfl⟩⟩

end Registry

end StyleScript
