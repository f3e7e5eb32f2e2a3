-- SUMMARY: The parameters that a function shows are read back as the same parameters.
import Mathlib.Data.List.Forall2
import StyleScript.Function
import StyleScript.Proofs.Lexemes

/-!
# Reading what functions show

A function shows its parameters as a signature is written. What was read from one text may
be shown as another: blanks are set by rule, a string comes between double quotes whichever
quotes it had, and the digits of a color are six and lower case.

Main statement: the parameters that were read from a text, none of them with a number for
its default, are shown as a text from which they are read again, with the same names in the
same order and with equal defaults.
-/

namespace StyleScript

/-! ## What is kept -/

/-- An equal value of the same kind. A string has the same content and the same quotes, a
    color the same whole channels. -/
structure Value.Keeps (v v' : Value) : Prop where
  same : v.same v' = true
  typeName : v'.typeName = v.typeName
  string : ∀ content quoted l, v = .string content quoted l → ∃ l', v' = .string content quoted l'
  color : ∀ c l, v = .color c l → ∃ c' l', v' = .color c' l' ∧ c'.rounded = c.rounded

/-- A parameter of the same name, with a default that is kept if there is one. -/
inductive Param.Keeps : Param → Param → Prop where
  | required (name : String) : Keeps ⟨name, none⟩ ⟨name, none⟩
  | optional (name : String) {v v' : Value} :
    v.Keeps v' → Keeps ⟨name, some (.literal v)⟩ ⟨name, some (.literal v')⟩

/-- As many parameters in the same order, one by one, and the same name for the rest. -/
structure Params.Keeps (p p' : Params) : Prop where
  fixed : List.Forall₂ Param.Keeps p.fixed p'.fixed
  rest : p'.rest = p.rest

theorem Param.Keeps.name {param param' : Param} (h : param.Keeps param') :
    param'.name = param.name := by
  cases h <;> rfl

theorem Params.Keeps.names {p p' : Params} (h : p.Keeps p') : p'.names = p.names := by
  have hfixed : p.fixed.map (·.name) = p'.fixed.map (·.name) := by
    rw [← List.forall₂_eq_eq_eq, List.forall₂_map_left_iff, List.forall₂_map_right_iff]
    exact h.fixed.imp fun _ _ hparam => hparam.name.symm
  rw [Params.names, Params.names, hfixed, h.rest]

/-- No default is a number. -/
def Params.NumberFree (p : Params) : Prop :=
  ∀ param ∈ p.fixed, ∀ n l, param.default ≠ some (.literal (.number n l))

/-! ## Colors -/

namespace Color

theorem isHexDigit_digitChar : ∀ n < 16, Signature.isHexDigit (Nat.digitChar n) = true := by decide

theorem map_hexDigit_hexByte (b : UInt8) :
    (hexByte b).map hexDigit = [b.toNat / 16, b.toNat % 16] := by
  have hb := b.toNat_lt
  have hhigh := hexDigit_digitChar (b.toNat / 16) (by omega)
  have hlow := hexDigit_digitChar (b.toNat % 16) (by omega)
  simp [hexByte, hhigh, hlow]

theorem isHexDigit_hexByte (b : UInt8) : ∀ d ∈ hexByte b, Signature.isHexDigit d = true := by
  have hb := b.toNat_lt
  have hhigh := isHexDigit_digitChar (b.toNat / 16) (by omega)
  have hlow := isHexDigit_digitChar (b.toNat % 16) (by omega)
  simp [hexByte, hhigh, hlow]

/-- The double of a byte is a channel already, and rounds to the byte. -/
theorem toByte_channel_ofNat :
    ∀ n < 256, Binary64.toByte (channel (Float.ofNat n)) = UInt8.ofNat n := by
  -- computed for each byte: the conversion goes through a product of doubles
  decide +kernel

/-- The digits of the whole channels of a color. -/
def digits (c : Color Float) : List Char :=
  hexByte c.rounded.1 ++ hexByte c.rounded.2.1 ++ hexByte c.rounded.2.2

theorem toByte_channel_hexByte (b : UInt8) :
    Binary64.toByte (channel (Float.ofNat (b.toNat / 16 * 16 + b.toNat % 16))) = b := by
  rw [Nat.div_add_mod', toByte_channel_ofNat b.toNat b.toNat_lt, UInt8.ofNat_toNat]

theorem rounded_ofHex_digits (c : Color Float) : (ofHex c.digits).rounded = c.rounded := by
  simp only [ofHex, digits, List.map_append, map_hexDigit_hexByte, List.cons_append, List.nil_append,
    rgb, rgba, rounded, toByte_channel_hexByte]

theorem alpha_ofHex (digits : List Char) : (ofHex digits).alpha = Scalar.clamp 0 1 1 := by
  unfold ofHex
  split <;> rfl

theorem near_alpha_ofHex (digits : List Char) : near (ofHex digits).alpha 1 = true := by
  rw [alpha_ofHex]
  decide +kernel

theorem text_ofHex (hex : List Char) :
    (ofHex hex).text = String.ofList ('#' :: (ofHex hex).digits) := by
  simp only [text, near_alpha_ofHex, if_true, digits]

theorem same_ofHex {hex hex' : List Char} (h : (ofHex hex').rounded = (ofHex hex).rounded) :
    (ofHex hex).same (ofHex hex') = true := by
  have halpha : near (Scalar.clamp 0 1 1) (Scalar.clamp 0 1 1) = true := by decide +kernel
  simp [same, h, alpha_ofHex, halpha]

theorem reads_digits (c : Color Float) :
    Signature.Reads ('#' :: c.digits) [.color (String.ofList c.digits)] := by
  refine Signature.reads_color (fun d hd => ?_) rfl
  simp only [digits, List.mem_append] at hd
  obtain (hd | hd) | hd := hd
  · exact isHexDigit_hexByte _ d hd
  · exact isHexDigit_hexByte _ d hd
  · exact isHexDigit_hexByte _ d hd

end Color

namespace Signature

variable {location : Option Location}

/-! ## Literals -/

/-- The text of a literal that is no number is read as one token, which stands for an equal
    value of the same kind. -/
theorem Denotes.reads_text {kind : TokenKind} {v : Value} (h : Denotes location kind v)
    (hkind : kind.WellSpelled) (hnumber : ∀ n l, v ≠ .number n l) (location' : Option Location) :
    ∃ kind' v', Reads v.text.toList [kind'] ∧ Denotes location' kind' v' ∧ v.Keeps v' := by
  cases h with
  | number x unit => exact absurd rfl (hnumber _ _)
  | yes =>
    have htrue : IsIdentifier "true".toList := ⟨rfl, List.all_eq_true.1 rfl⟩
    exact ⟨_, _, htrue.reads_ident, .yes, rfl, rfl, nofun, nofun⟩
  | no =>
    have hfalse : IsIdentifier "false".toList := ⟨rfl, List.all_eq_true.1 rfl⟩
    exact ⟨_, _, hfalse.reads_ident, .no, rfl, rfl, nofun, nofun⟩
  | null =>
    have hnull : IsIdentifier "null".toList := ⟨rfl, List.all_eq_true.1 rfl⟩
    exact ⟨_, _, hnull.reads_ident, .null, rfl, rfl, nofun, nofun⟩
  | @word text htrue hfalse hnull =>
    refine ⟨_, _, ?_, .word htrue hfalse hnull, by simp [Value.same], rfl, ?_, nofun⟩
    · simpa [Value.text, Value.inspect] using hkind.reads_ident
    · rintro _ _ _ ⟨⟩
      exact ⟨_, rfl⟩
  | string content =>
    refine ⟨_, _, ?_, .string content, by simp [Value.same], rfl, ?_, nofun⟩
    · simpa [Value.text, Value.inspect] using reads_string content.toList
    · rintro _ _ _ ⟨⟩
      exact ⟨_, rfl⟩
  | color digits =>
    have hrounded := Color.rounded_ofHex_digits (.ofHex digits.toList)
    refine ⟨_, _, ?_, .color (String.ofList (Color.digits (.ofHex digits.toList))), ?_, rfl, nofun, ?_⟩
    · simpa [Value.text, Value.inspect, Color.text_ofHex] using
        Color.reads_digits (.ofHex digits.toList)
    · rw [Value.same, String.toList_ofList]
      exact Color.same_ofHex hrounded
    · rintro _ _ ⟨⟩
      refine ⟨_, _, rfl, ?_⟩
      rwa [String.toList_ofList]

/-! ## Parameters -/

theorem paramText_required (name : String) : Function.paramText ⟨name, none⟩ = "$" ++ name := rfl

theorem paramText_optional (name : String) (v : Value) :
    Function.paramText ⟨name, some (.literal v)⟩ = "$" ++ name ++ ": " ++ v.text := rfl

theorem paramsText_rest (name : String) :
    Function.paramsText ⟨[], some name⟩ = "$" ++ name ++ "..." := String.intercalate_singleton

theorem reads_variable {name : String} (h : (TokenKind.variable name).WellSpelled) :
    Reads ('$' :: name.toList) [.variable name] := by
  simpa using IsIdentifier.reads_variable h

/-- The text of a parameter is read as a parameter that is kept. -/
theorem IsParam.reads_paramText {kinds : List TokenKind} {param : Param}
    (h : IsParam location kinds param) (hkinds : ∀ kind ∈ kinds, kind.WellSpelled)
    (hnumber : ∀ n l, param.default ≠ some (.literal (.number n l))) (location' : Option Location) :
    ∃ kinds' param', Reads (Function.paramText param).toList kinds' ∧
      IsParam location' kinds' param' ∧ param.Keeps param' := by
  cases h with
  | required name =>
    refine ⟨_, _, ?_, .required name, .required name⟩
    simpa [paramText_required] using reads_variable (hkinds _ List.mem_cons_self)
  | @optional name literal value hvalue =>
    have hvariable : (TokenKind.variable name).WellSpelled := hkinds _ (by simp)
    obtain ⟨literal', value', hreads, hvalue', hkeeps⟩ :=
      hvalue.reads_text (hkinds _ (by simp)) (fun n l hv => hnumber n l (by rw [hv])) location'
    refine ⟨_, _, ?_, .optional hvalue', .optional name hkeeps⟩
    have hdefault := (reads_variable hvariable).append hreads.space.colon
      fun rest _ => by simp [isIdentPart]
    simpa [paramText_optional] using hdefault

/-- The texts of all parameters. -/
def paramTexts (p : Params) : List String :=
  p.fixed.map Function.paramText ++ p.rest.toList.map fun name => s!"${name}..."

theorem paramTexts_ne_nil {kinds : List TokenKind} {p : Params} (h : IsParams location kinds p) :
    paramTexts p ≠ [] := by
  cases h <;> simp [paramTexts]

/-- The text of parameters is read as parameters that are kept. -/
theorem IsParams.reads_paramsText {kinds : List TokenKind} {p : Params}
    (h : IsParams location kinds p) (hkinds : ∀ kind ∈ kinds, kind.WellSpelled)
    (hnumber : p.NumberFree) (location' : Option Location) :
    ∃ kinds' p', Reads (Function.paramsText p).toList kinds' ∧ IsParams location' kinds' p' ∧
      p.Keeps p' := by
  induction h with
  | last hparam =>
    obtain ⟨kinds', param', hreads, hparam', hkeeps⟩ :=
      hparam.reads_paramText hkinds (hnumber _ List.mem_cons_self) location'
    exact ⟨kinds', _, hreads, .last hparam', .cons hkeeps .nil, rfl⟩
  | rest name =>
    refine ⟨_, _, ?_, .rest name, .nil, rfl⟩
    have hrest := (reads_variable (hkinds _ List.mem_cons_self)).append reads_ellipsis
      fun rest _ => by simp [isIdentPart]
    simpa [paramsText_rest] using hrest
  | @cons first kinds param others hparam hothers ih =>
    obtain ⟨first', param', hreads, hparam', hkeeps⟩ :=
      hparam.reads_paramText (fun kind hkind => hkinds kind (by simp [hkind]))
        (hnumber _ List.mem_cons_self) location'
    obtain ⟨kinds', others', hreads', hothers', hkeeps'⟩ :=
      ih (fun kind hkind => hkinds kind (by simp [hkind]))
        (fun param hmem => hnumber param (List.mem_cons_of_mem _ hmem))
    refine ⟨_, _, ?_, .cons hparam' hothers', .cons hkeeps hkeeps'.fixed, hkeeps'.rest⟩
    have hboth := hreads.append hreads'.space.comma fun rest _ => by simp [isIdentPart]
    have htext : Function.paramsText ⟨param :: others.fixed, others.rest⟩ =
        Function.paramText param ++ ", " ++ Function.paramsText others :=
      String.intercalate_cons_of_ne_nil (paramTexts_ne_nil hothers)
    simpa [htext] using hboth

/-! ## Signatures -/

theorem IsSignature.reads_paramsText {kinds : List TokenKind} {p : Params}
    (h : IsSignature location kinds p) (hkinds : ∀ kind ∈ kinds, kind.WellSpelled)
    (hnumber : p.NumberFree) (location' : Option Location) :
    ∃ kinds' p', Reads (Function.paramsText p).toList kinds' ∧ IsSignature location' kinds' p' ∧
      p.Keeps p' := by
  cases h with
  | empty => exact ⟨[], .empty, reads_nil, .empty, .nil, rfl⟩
  | params hparams hnodup =>
    obtain ⟨kinds', p', hreads, hparams', hkeeps⟩ :=
      hparams.reads_paramsText hkinds hnumber location'
    exact ⟨kinds', p', hreads, .params hparams' (hkeeps.names ▸ hnodup), hkeeps⟩

/-- What a function shows between its parentheses is read back. When its parameters were
    read from any text, and no default of them is a number, the text that is shown gives the
    same names in the same order, the same name for the rest, and for each default an equal
    value of the same kind. -/
theorem read_shown_params {text : String} {b b' : Builder} {p : Params}
    (hread : read text b = .ok p b') (hnumber : p.NumberFree) (f : Function) (hf : f.params = p)
    (c : Builder) :
    f.signature = f.name ++ "(" ++ Function.paramsText p ++ ")" ∧
      ∃ p' c', read (Function.paramsText p) c = .ok p' c' ∧ p'.names = p.names ∧ p.Keeps p' := by
  refine ⟨by rw [← hf]; rfl, ?_⟩
  obtain ⟨ts, before, htokens, hkinds, hsignature⟩ := read_eq_ok_iff.1 ⟨b', hread⟩
  have hspelled (kind : TokenKind) (hkind : kind ∈ before) : kind.WellSpelled :=
    wellSpelled_scan htokens kind (by simp [hkinds, hkind])
  obtain ⟨kinds', p', hreads, hsignature', hkeeps⟩ :=
    hsignature.reads_paramsText hspelled hnumber c.location
  obtain ⟨ts', htokens', hkinds'⟩ := hreads.tokens
  obtain ⟨c', hread'⟩ := read_eq_ok_iff.2 ⟨ts', kinds', htokens', hkinds', hsignature'⟩
  exact ⟨p', c', hread', hkeeps.names, hkeeps⟩

/-- `$a, $b: 'x,"\\', $c :#AbC, $d: auto ,$more...` -/
def variedParams : Params :=
  ⟨[⟨"a", none⟩, ⟨"b", some (.literal (.string "x,\"\\" true none))⟩,
    ⟨"c", some (.literal (.color (.ofHex ['A', 'b', 'C']) none))⟩,
    ⟨"d", some (.literal (.string "auto" false none))⟩], some "more"⟩

/-- A string in other quotes, which has a quote and a backslash in it, and a color of three
    digits are shown in another way, and are read as what they were. -/
theorem read_shown_variedParams :
    let f : Function := .ofDefinition ⟨"f", variedParams, [], none⟩ 0
    f.signature = "f($a, $b: \"x,\\\"\\\\\", $c: #aabbcc, $d: auto, $more...)" ∧
      ∃ p' c', read (Function.paramsText variedParams) .fresh = .ok p' c' ∧
        p'.names = ["a", "b", "c", "d", "more"] ∧ variedParams.Keeps p' := by
  intro f
  have htokens : Signature.tokens "$a, $b: 'x,\"\\\\', $c :#AbC, $d: auto ,$more..." =
      .ok [⟨.variable "a", 1⟩, ⟨.comma, 3⟩, ⟨.variable "b", 5⟩, ⟨.colon, 7⟩, ⟨.string "x,\"\\", 9⟩,
        ⟨.comma, 16⟩, ⟨.variable "c", 18⟩, ⟨.colon, 21⟩, ⟨.color "AbC", 22⟩, ⟨.comma, 26⟩,
        ⟨.variable "d", 28⟩, ⟨.colon, 30⟩, ⟨.ident "auto", 32⟩, ⟨.comma, 37⟩, ⟨.variable "more", 38⟩,
        ⟨.ellipsis, 43⟩, ⟨.done, 46⟩] := by
    decide +kernel
  have hread : read "$a, $b: 'x,\"\\\\', $c :#AbC, $d: auto ,$more..." .fresh =
      .ok variedParams ⟨none, 3⟩ := by
    rw [read, htokens]
    rfl
  have hnumber : variedParams.NumberFree := by
    simp [Params.NumberFree, variedParams]
  refine ⟨by decide +kernel, ?_⟩
  exact (read_shown_params hread hnumber f rfl .fresh).2

end Signature

end StyleScript
