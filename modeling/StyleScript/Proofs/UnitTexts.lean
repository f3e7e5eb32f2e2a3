-- SUMMARY: Which units read back from their text, and that those with one slash at most in their origins do.
import Mathlib.Data.List.DropRight
import StyleScript.Proofs.FactorOrder

/-!
# Texts of units

Reading a text cuts it at the first slash and then at stars, drops the blanks around the
pieces, and leaves out pieces that are empty or `1`. So a name that was read has none of
these, and the text of such names is cut where they were joined. A name that was read above
has no slash either. One below can have slashes, from the second one of its text on, and then
the units do not read back when it gets above by a division.

Main statement: units that come about from texts with one slash at most read back from their
text.
-/

namespace StyleScript

namespace Text

variable {separator c : Char} {cs : List Char} {p : List Char} {ps : List (List Char)}

/-! ## Cutting and joining -/

/-- A text without the separator is one piece. -/
theorem pieces_of_not_mem (h : separator ∉ cs) : pieces separator cs = [cs] := by
  induction cs with
  | nil => rfl
  | cons c cs ih =>
    rw [List.mem_cons, not_or] at h
    rw [pieces, if_neg (Ne.symm h.1), ih h.2]

/-- What stands before a separator is the first piece. -/
theorem pieces_append_cons (h : separator ∉ p) (cs : List Char) :
    pieces separator (p ++ separator :: cs) = p :: pieces separator cs := by
  induction p with
  | nil => rw [List.nil_append, pieces, if_pos rfl]
  | cons c p ih =>
    rw [List.mem_cons, not_or] at h
    rw [List.cons_append, pieces, if_neg (Ne.symm h.1), ih h.2]

/-- Pieces that were joined are cut where they were joined. -/
theorem pieces_join (hne : ps ≠ []) (h : ∀ p ∈ ps, separator ∉ p) :
    pieces separator (join [separator] ps) = ps := by
  induction ps with
  | nil => exact absurd rfl hne
  | cons p ps ih =>
    obtain ⟨hp, hps⟩ := List.forall_mem_cons.1 h
    cases ps with
    | nil => exact pieces_of_not_mem hp
    | cons q qs =>
      rw [join, List.append_assoc, List.singleton_append, pieces_append_cons hp,
        ih (List.cons_ne_nil q qs) hps]

/-- The characters of a piece are those of the text, and none is a separator. -/
theorem mem_of_mem_pieces (hp : p ∈ pieces separator cs) (hc : c ∈ p) : c ∈ cs ∧ c ≠ separator := by
  induction cs generalizing p with
  | nil =>
    rw [pieces, List.mem_singleton] at hp
    rw [hp] at hc
    cases hc
  | cons d cs ih =>
    unfold pieces at hp
    split at hp
    · rcases List.mem_cons.1 hp with rfl | hp
      · cases hc
      · exact (ih hp hc).imp_left (List.mem_cons_of_mem d)
    · rename_i hd
      split at hp
      · rename_i hnil
        exact absurd hnil (pieces_ne_nil separator cs)
      · rename_i q qs hpieces
        rcases List.mem_cons.1 hp with rfl | hp
        · rcases List.mem_cons.1 hc with rfl | hc
          · exact ⟨List.mem_cons_self, hd⟩
          · exact (ih (hpieces ▸ List.mem_cons_self) hc).imp_left (List.mem_cons_of_mem d)
        · exact (ih (hpieces ▸ List.mem_cons_of_mem q hp) hc).imp_left (List.mem_cons_of_mem d)

theorem mem_join (hc : c ∈ join [separator] ps) : c = separator ∨ ∃ p ∈ ps, c ∈ p := by
  induction ps with
  | nil => cases hc
  | cons p ps ih =>
    cases ps with
    | nil => exact .inr ⟨p, List.mem_cons_self, hc⟩
    | cons q qs =>
      rw [join, List.append_assoc, List.mem_append, List.singleton_append, List.mem_cons] at hc
      rcases hc with hc | hc | hc
      · exact .inr ⟨p, List.mem_cons_self, hc⟩
      · exact .inl hc
      · obtain heq | ⟨r, hr, hcr⟩ := ih hc
        · exact .inl heq
        · exact .inr ⟨r, List.mem_cons_of_mem p hr, hcr⟩

theorem cut_append_cons (h : separator ∉ p) (cs : List Char) :
    cut separator (p ++ separator :: cs) = (p, cs) := by
  have hp : ∀ c ∈ p, (c != separator) = true := fun c hc => by
    simpa using fun heq : c = separator => h (heq ▸ hc)
  simp [cut, List.takeWhile_append_of_pos hp, List.dropWhile_append_of_pos hp]

theorem cut_of_not_mem (h : separator ∉ cs) : cut separator cs = (cs, []) := by
  have hcs : ∀ c ∈ cs, (c != separator) = true := fun c hc => by
    simpa using fun heq : c = separator => h (heq ▸ hc)
  simp [cut, List.takeWhile_eq_self_iff.2 hcs, List.dropWhile_eq_nil_iff.2 hcs]

/-- The separator does not stand before where a text is cut. -/
theorem not_mem_cut_left (separator : Char) (cs : List Char) : separator ∉ (cut separator cs).1 := by
  intro h
  simpa using List.mem_takeWhile_imp h

/-- A separator that stands once in a text does not stand behind where it is cut. -/
theorem not_mem_cut_right (h : cs.count separator ≤ 1) : separator ∉ (cut separator cs).2 := by
  by_cases hmem : separator ∈ cs
  · obtain ⟨before, after, rfl, hbefore⟩ := List.eq_append_cons_of_mem hmem
    rw [List.count_append, List.count_cons_self] at h
    have hafter : after.count separator = 0 := by omega
    rw [cut_append_cons hbefore]
    exact List.count_eq_zero.1 hafter
  · rw [cut_of_not_mem hmem]
    exact List.not_mem_nil

/-! ## Trimming -/

theorem mem_of_mem_trim (hc : c ∈ trim cs) : c ∈ cs :=
  (List.dropWhile_sublist _).mem ((List.rdropWhile_prefix _ _).mem hc)

/-- A trimmed text has no blanks at its ends. -/
@[simp] theorem trim_trim (cs : List Char) : trim (trim cs) = trim cs := by
  have htrim (cs : List Char) : trim cs = (cs.dropWhile isBlank).rdropWhile isBlank := rfl
  have hfirst : (trim cs).dropWhile isBlank = trim cs := by
    rw [List.dropWhile_eq_self_iff]
    intro hlength
    -- what is left after dropping from the end begins as what was there before
    have hprefix := List.rdropWhile_prefix isBlank (cs.dropWhile isBlank)
    have hlonger : 0 < (cs.dropWhile isBlank).length := hlength.trans_le hprefix.length_le
    have hhead : (trim cs)[0] = (cs.dropWhile isBlank)[0] := hprefix.getElem hlength
    rw [hhead]
    exact List.dropWhile_eq_self_iff.1 (List.dropWhile_idempotent isBlank cs) hlonger
  rw [htrim (trim cs), hfirst, htrim cs, List.rdropWhile_idempotent]

end Text

namespace Units

/-! ## Names -/

/-- A name that can be read from one side of a text. -/
structure IsName (name : String) : Prop where
  not_empty : name.toList ≠ []
  not_one : name.toList ≠ ['1']
  trimmed : Text.trim name.toList = name.toList
  no_star : '*' ∉ name.toList

/-- What is read from one side of a text are names, and their characters are those of the
    text. -/
theorem isName_of_mem_namesOf {side : List Char} {name : String} (h : name ∈ namesOf side) :
    IsName name ∧ ∀ c ∈ name.toList, c ∈ side := by
  simp only [namesOf, List.mem_map, List.mem_filter, Bool.and_eq_true, bne_iff_ne] at h
  obtain ⟨_, ⟨⟨piece, hpiece, rfl⟩, hnotEmpty, hnotOne⟩, rfl⟩ := h
  have hmem {c : Char} (hc : c ∈ Text.trim piece) := Text.mem_of_mem_pieces hpiece (Text.mem_of_mem_trim hc)
  rw [String.toList_ofList]
  constructor
  · constructor
    all_goals rw [String.toList_ofList]
    · exact hnotEmpty
    · exact hnotOne
    · exact Text.trim_trim piece
    · exact fun hstar => (hmem hstar).2 rfl
  · exact fun c hc => (hmem hc).1

/-- The text of one side. -/
def sideText (names : List String) : List Char := Text.join ['*'] (names.map String.toList)

/-- Names read back from the text of their side. -/
theorem namesOf_sideText {names : List String} (h : ∀ name ∈ names, IsName name) :
    namesOf (sideText names) = names := by
  cases names with
  | nil => rfl
  | cons name others =>
    have hpieces : Text.pieces '*' (sideText (name :: others)) = (name :: others).map String.toList :=
      Text.pieces_join (by simp) (List.forall_mem_map.2 fun n hn => (h n hn).no_star)
    have htrim : ((name :: others).map String.toList).map Text.trim =
        (name :: others).map String.toList := by
      rw [List.map_map]
      exact List.map_congr_left fun n hn => (h n hn).trimmed
    have hfilter : ((name :: others).map String.toList).filter (fun p => p != [] && p != ['1']) =
        (name :: others).map String.toList := by
      rw [List.filter_eq_self, List.forall_mem_map]
      intro n hn
      simp [(h n hn).not_empty, (h n hn).not_one]
    rw [namesOf, hpieces, htrim, hfilter, List.map_map]
    exact List.map_id'' (fun n => String.ofList_toList) _

theorem not_mem_sideText {names : List String} (h : ∀ name ∈ names, '/' ∉ name.toList) :
    '/' ∉ sideText names := by
  intro hslash
  rcases Text.mem_join hslash with hstar | ⟨_, hp, hmem⟩
  · exact absurd hstar (by decide)
  · obtain ⟨name, hname, rfl⟩ := List.mem_map.1 hp
    exact h name hname hmem

/-! ## Reading back -/

/-- Units of names that can be read, and that stand above without slashes and on one side
    only. -/
structure Legible (u : Units) : Prop where
  cancelled : u.Cancelled
  above : ∀ name ∈ u.numerator, IsName name ∧ '/' ∉ name.toList
  below : ∀ name ∈ u.denominator, IsName name

variable {u v : Units}

/-- A text is cut where its units were joined. -/
theorem cut_text (h : ∀ name ∈ u.numerator, '/' ∉ name.toList) :
    Text.cut '/' u.text.toList = (sideText u.numerator, sideText u.denominator) := by
  have habove := not_mem_sideText h
  cases hbelow : u.denominator with
  | nil =>
    have htext : u.text.toList = sideText u.numerator := by simp [text, sideText, hbelow]
    rw [htext, Text.cut_of_not_mem habove]
    rfl
  | cons name names =>
    have htext : u.text.toList = sideText u.numerator ++ '/' :: sideText (name :: names) := by
      simp [text, sideText, hbelow]
    rw [htext, Text.cut_append_cons habove]

/-- Whatever is read from a text is legible. -/
theorem legible_ofText (text : String) : (ofText text).Legible where
  cancelled := cancelled_ofNames _ _
  above name hname := by
    have hread := isName_of_mem_namesOf ((sublist_ofNames _ _).1.mem hname)
    exact ⟨hread.1, fun hslash => Text.not_mem_cut_left _ _ (hread.2 _ hslash)⟩
  below name hname := (isName_of_mem_namesOf ((sublist_ofNames _ _).2.mem hname)).1

/-- The units that read back from their text are those that can be read from any. -/
theorem ofText_text_iff : ofText u.text = u ↔ u.Legible := by
  constructor
  · intro h
    rw [← h]
    exact legible_ofText u.text
  · intro h
    rw [ofText, cut_text fun name hname => (h.above name hname).2]
    simp only
    rw [namesOf_sideText fun name hname => (h.above name hname).1, namesOf_sideText h.below]
    exact ofNames_of_disjoint h.cancelled

/-- A name without slashes is read as itself. -/
theorem ofText_name {name : String} (h : IsName name) (hslash : '/' ∉ name.toList) :
    ofText name = single name := by
  have hlegible : (single name).Legible := by
    constructor
    · exact List.disjoint_nil_right _
    · exact List.forall_mem_singleton.2 ⟨h, hslash⟩
    · nofun
  have htext : (single name).text = name := by simp [text, single, Text.join]
  rw [← ofText_text_iff, htext] at hlegible
  exact hlegible

/-! ## Units from texts with one slash at most -/

/-- Units that come about from texts with one slash at most. -/
inductive PlainlyReachable : Units → Prop where
  | ofText {text : String} : text.toList.count '/' ≤ 1 → PlainlyReachable (ofText text)
  | mul {u v : Units} : PlainlyReachable u → PlainlyReachable v → PlainlyReachable (u.mul v)
  | div {u v : Units} : PlainlyReachable u → PlainlyReachable v → PlainlyReachable (u.div v)

/-- All names of both sides can be read, and have no slashes. -/
def Plain (u : Units) : Prop := ∀ name ∈ u.names, IsName name ∧ '/' ∉ name.toList

/-- Names that are put together and cancelled are among those that were there. -/
theorem mem_names_ofNames {above below : List String} {name : String}
    (h : name ∈ (ofNames above below).names) : name ∈ above ++ below :=
  ((sublist_ofNames above below).1.append (sublist_ofNames above below).2).mem h

theorem plain_ofText {text : String} (h : text.toList.count '/' ≤ 1) : (ofText text).Plain := by
  intro name hname
  rcases List.mem_append.1 (mem_names_ofNames hname) with habove | hbelow
  · have hread := isName_of_mem_namesOf habove
    exact ⟨hread.1, fun hslash => Text.not_mem_cut_left _ _ (hread.2 _ hslash)⟩
  · have hread := isName_of_mem_namesOf hbelow
    exact ⟨hread.1, fun hslash => Text.not_mem_cut_right h (hread.2 _ hslash)⟩

theorem Plain.mul (hu : u.Plain) (hv : v.Plain) : (u.mul v).Plain := by
  intro name hname
  have hmem := mem_names_ofNames hname
  simp only [List.mem_append] at hmem
  rcases hmem with (hmem | hmem) | hmem | hmem
  · exact hu name (List.mem_append_left _ hmem)
  · exact hv name (List.mem_append_left _ hmem)
  · exact hu name (List.mem_append_right _ hmem)
  · exact hv name (List.mem_append_right _ hmem)

theorem Plain.inverse (h : u.Plain) : u.inverse.Plain := by
  intro name hname
  rcases List.mem_append.1 hname with hmem | hmem
  · exact h name (List.mem_append_right _ hmem)
  · exact h name (List.mem_append_left _ hmem)

theorem PlainlyReachable.plain (h : u.PlainlyReachable) : u.Plain := by
  induction h with
  | ofText hslash => exact plain_ofText hslash
  | mul _ _ hu hv => exact hu.mul hv
  | div _ _ hu hv => exact hu.mul hv.inverse

theorem PlainlyReachable.reachable (h : u.PlainlyReachable) : u.Reachable := by
  induction h with
  | ofText => exact .ofText _
  | mul _ _ hu hv => exact hu.mul hv
  | div _ _ hu hv => exact hu.div hv

/-- Units that come about from texts with one slash at most read back from their text, with
    the same names in the same order on both sides. -/
theorem ofText_text (h : u.PlainlyReachable) : ofText u.text = u := by
  have hplain := h.plain
  apply ofText_text_iff.2
  constructor
  · exact h.reachable.cancelled
  · exact fun name hname => hplain name (List.mem_append_left _ hname)
  · exact fun name hname => (hplain name (List.mem_append_right _ hname)).1

/-- Blanks, a factor `1` and an empty name are gone when the quotient is written. -/
theorem ofText_text_quotient :
    let u := (ofText " px *1*em").div (ofText "s**px/ e m ")
    u.text = "em*e m/s" ∧ ofText u.text = u := by
  intro u
  have hone : (" px *1*em" : String).toList.count '/' ≤ 1 := by decide
  have hother : ("s**px/ e m " : String).toList.count '/' ≤ 1 := by decide
  exact ⟨by decide +kernel, ofText_text ((PlainlyReachable.ofText hone).div (.ofText hother))⟩

/-- A second slash belongs to a name below. When a division gets that name above, its slash
    divides the text. -/
example :
    let u := unitless.div (ofText "px/em/s")
    u = ⟨["em/s"], ["px"]⟩ ∧ ofText u.text = ⟨["em"], ["s/px"]⟩ := by
  decide +kernel

end Units

end StyleScript
