-- SUMMARY: Reading a signature accepts exactly what the grammar of signatures allows.
import Mathlib.Data.List.Nodup
import StyleScript.Proofs.Builtins
import StyleScript.Proofs.UnitTexts

/-!
# The grammar of signatures

The grammar relates the tokens of a signature, without the one that ends them, to the
parameters that they stand for. It says nothing about how tokens are read: the reader
goes through them once, keeps the parameters it has seen and looks one token ahead.

Main statement: a text is read exactly when its tokens are in the grammar, the
parameters are those that the grammar gives, and whatever is not read is refused as a
malformed signature.
-/

namespace StyleScript

/-! ## Hexadecimal digits -/

namespace Color

theorem hexDigit_digitChar : ∀ n < 16, hexDigit (Nat.digitChar n) = n := by decide

theorem hexDigit_toUpper_digitChar : ∀ n < 16, hexDigit (Nat.digitChar n).toUpper = n := by decide

/-- The character is the hexadecimal digit of a number, in either case. -/
def IsDigitOf (n : Nat) (c : Char) : Prop :=
  n < 16 ∧ (c = Nat.digitChar n ∨ c = (Nat.digitChar n).toUpper)

theorem IsDigitOf.hexDigit_eq {n : Nat} {c : Char} (h : IsDigitOf n c) : hexDigit c = n := by
  obtain ⟨hn, rfl | rfl⟩ := h
  · exact hexDigit_digitChar n hn
  · exact hexDigit_toUpper_digitChar n hn

end Color

namespace Signature

variable {location : Option Location}

/-! ## The grammar -/

/-- Which token of a literal stands for which value, when it is built at a location. -/
inductive Denotes (location : Option Location) : TokenKind → Value → Prop where
  | number (x : Float) (unit : String) :
    Denotes location (.number x unit) (.number ⟨x, Units.ofText unit⟩ location)
  | yes : Denotes location (.ident "true") (.bool true location)
  | no : Denotes location (.ident "false") (.bool false location)
  | null : Denotes location (.ident "null") (.null location)
  | word {text : String} :
    text ≠ "true" → text ≠ "false" → text ≠ "null" →
    Denotes location (.ident text) (.string text false location)
  | string (content : String) : Denotes location (.string content) (.string content true location)
  | color (digits : String) :
    Denotes location (.color digits) (.color (.ofHex digits.toList) location)

section Meaning

variable {v : Value}

theorem denotes_number_iff {x : Float} {unit : String} :
    Denotes location (.number x unit) v ↔ v = .number ⟨x, Units.ofText unit⟩ location := by
  constructor
  · rintro ⟨⟩
    rfl
  · rintro rfl
    exact .number x unit

/-- The name behind a number is its unit. -/
theorem denotes_named_number_iff {x : Float} {name : String} (hname : Units.IsName name)
    (hslash : '/' ∉ name.toList) :
    Denotes location (.number x name) v ↔ v = .number ⟨x, .single name⟩ location := by
  rw [denotes_number_iff, Units.ofText_name hname hslash]

/-- With nothing behind it a number has no unit. -/
theorem denotes_plain_number_iff {x : Float} :
    Denotes location (.number x "") v ↔ v = .number ⟨x, .unitless⟩ location := by
  have hnone : Units.ofText "" = .unitless := by decide
  rw [denotes_number_iff, hnone]

theorem denotes_color_iff {digits : List Char} :
    Denotes location (.color (String.ofList digits)) v ↔ v = .color (.ofHex digits) location := by
  have hdenotes : Denotes location (.color (String.ofList digits))
      (.color (.ofHex (String.ofList digits).toList) location) := .color _
  rw [String.toList_ofList] at hdenotes
  constructor
  · rintro ⟨⟩
    rw [String.toList_ofList]
  · rintro rfl
    exact hdenotes

open Color

/-- Three digits are doubled each. -/
theorem denotes_three_digits_iff {r g b : Nat} {cr cg cb : Char} (hr : IsDigitOf r cr)
    (hg : IsDigitOf g cg) (hb : IsDigitOf b cb) :
    Denotes location (.color (String.ofList [cr, cg, cb])) v ↔
      v = .color (rgb (Float.ofNat (r * 17)) (Float.ofNat (g * 17)) (Float.ofNat (b * 17)))
        location := by
  rw [denotes_color_iff]
  simp only [ofHex, List.map_cons, List.map_nil, hr.hexDigit_eq, hg.hexDigit_eq, hb.hexDigit_eq]

/-- Six digits are those of three bytes. -/
theorem denotes_six_digits_iff {r₁ r₂ g₁ g₂ b₁ b₂ : Nat} {cr₁ cr₂ cg₁ cg₂ cb₁ cb₂ : Char}
    (hr₁ : IsDigitOf r₁ cr₁) (hr₂ : IsDigitOf r₂ cr₂) (hg₁ : IsDigitOf g₁ cg₁)
    (hg₂ : IsDigitOf g₂ cg₂) (hb₁ : IsDigitOf b₁ cb₁) (hb₂ : IsDigitOf b₂ cb₂) :
    Denotes location (.color (String.ofList [cr₁, cr₂, cg₁, cg₂, cb₁, cb₂])) v ↔
      v = .color (rgb (Float.ofNat (r₁ * 16 + r₂)) (Float.ofNat (g₁ * 16 + g₂))
        (Float.ofNat (b₁ * 16 + b₂))) location := by
  rw [denotes_color_iff]
  simp only [ofHex, List.map_cons, List.map_nil, hr₁.hexDigit_eq, hr₂.hexDigit_eq, hg₁.hexDigit_eq,
    hg₂.hexDigit_eq, hb₁.hexDigit_eq, hb₂.hexDigit_eq]

end Meaning

/-- A variable, which a literal may follow after a colon as its default. -/
inductive IsParam (location : Option Location) : List TokenKind → Param → Prop where
  | required (name : String) : IsParam location [.variable name] ⟨name, none⟩
  | optional {name literal value} :
    Denotes location literal value →
    IsParam location [.variable name, .colon, literal] ⟨name, some (.literal value)⟩

/-- Parameters divided by commas. The last one may be a variable with an ellipsis. -/
inductive IsParams (location : Option Location) : List TokenKind → Params → Prop where
  | last {kinds param} : IsParam location kinds param → IsParams location kinds ⟨[param], none⟩
  | rest (name : String) : IsParams location [.variable name, .ellipsis] ⟨[], some name⟩
  | cons {first kinds param others} :
    IsParam location first param → IsParams location kinds others →
    IsParams location (first ++ .comma :: kinds) ⟨param :: others.fixed, others.rest⟩

/-- Nothing, or parameters with no name written twice. -/
inductive IsSignature (location : Option Location) : List TokenKind → Params → Prop where
  | empty : IsSignature location [] .empty
  | params {kinds p} : IsParams location kinds p → p.names.Nodup → IsSignature location kinds p

/-! ## Literals -/

/-- A literal is built as one value, the one that it stands for. -/
theorem denotes_of_literal? {kind : TokenKind} {build : Build Value} (h : literal? kind = some build)
    (b : Builder) : ∃ v, Denotes b.location kind v ∧ build b = .ok v (b.grow 1) := by
  cases kind with
  | number x unit =>
    cases h
    exact ⟨_, .number x unit, rfl⟩
  | ident text =>
    simp only [literal?, Option.some.injEq] at h
    split at h
    · subst_vars
      exact ⟨_, .yes, rfl⟩
    split at h
    · subst_vars
      exact ⟨_, .no, rfl⟩
    split at h
    · subst_vars
      exact ⟨_, .null, rfl⟩
    · subst h
      exact ⟨_, .word ‹_› ‹_› ‹_›, rfl⟩
  | string content =>
    cases h
    exact ⟨_, .string content, rfl⟩
  | color digits =>
    cases h
    exact ⟨_, .color digits, rfl⟩
  | _ => cases h

theorem literal?_of_denotes {kind : TokenKind} {v : Value} {b : Builder}
    (h : Denotes b.location kind v) :
    ∃ build, literal? kind = some build ∧ build b = .ok v (b.grow 1) := by
  cases h with
  | number => exact ⟨_, rfl, rfl⟩
  | yes => exact ⟨_, rfl, rfl⟩
  | no => exact ⟨_, rfl, rfl⟩
  | null => exact ⟨_, rfl, rfl⟩
  | word htrue hfalse hnull =>
    simp only [literal?, if_neg htrue, if_neg hfalse, if_neg hnull]
    exact ⟨_, rfl, rfl⟩
  | string => exact ⟨_, rfl, rfl⟩
  | color => exact ⟨_, rfl, rfl⟩

/-! ## Tokens -/

/-- The kinds of tokens. -/
def kinds (tokens : List Token) : List TokenKind := tokens.map (·.kind)

@[simp] theorem kinds_cons (token : Token) (tokens : List Token) :
    kinds (token :: tokens) = token.kind :: kinds tokens := rfl

theorem kinds_eq_cons {tokens : List Token} {kind : TokenKind} {others : List TokenKind}
    (h : kinds tokens = kind :: others) :
    ∃ column next, tokens = ⟨kind, column⟩ :: next ∧ kinds next = others := by
  obtain ⟨token, next, rfl, rfl, hnext⟩ := List.map_eq_cons_iff.1 h
  exact ⟨token.column, next, rfl, hnext⟩

/-- Reading does not give the token that ends all others. -/
def Unended (x : Read TokenKind) : Prop := ∀ r, x = .ok r → r.1 ≠ .done

theorem unended_ok {kind : TokenKind} {cs : List Char} (h : kind ≠ .done) :
    Unended (.ok (kind, cs)) := by
  rintro _ ⟨⟩
  exact h

theorem unended_error (fault : SignatureFault) : Unended (.error fault) := by
  rintro _ ⟨⟩

theorem unended_ite {P : Prop} [Decidable P] {x y : Read TokenKind} (hx : Unended x)
    (hy : Unended y) : Unended (if P then x else y) := by
  split
  · exact hx
  · exact hy

theorem unended_readNumber (negative : Bool) (first : Char) (cs : List Char) :
    Unended (readNumber negative first cs) := by
  unfold readNumber
  simp only
  split
  · exact unended_ok nofun
  · exact unended_error _

theorem unended_readToken (c : Char) (cs : List Char) : Unended (readToken c cs) := by
  unfold readToken
  refine unended_ite (unended_ok nofun) ?_
  refine unended_ite (unended_ok nofun) ?_
  refine unended_ite (unended_ok nofun) ?_
  refine unended_ite (unended_ite (unended_ok nofun) (unended_error _)) ?_
  refine unended_ite (unended_ite (unended_ok nofun) (unended_error _)) ?_
  refine unended_ite ?_ ?_
  -- a string, when it is closed
  · split
    · exact unended_ok nofun
    · exact unended_error _
  refine unended_ite (unended_readNumber _ _ _) ?_
  refine unended_ite ?_ ?_
  -- a minus sign, with a number after it
  · split
    · exact unended_readNumber _ _ _
    · exact unended_error _
  exact unended_ite (unended_ok nofun) (unended_error _)

/-- The tokens of a text end with the one that says so, which is nowhere before. -/
theorem kinds_scan {total : Nat} {cs : List Char} {tokens : List Token}
    (h : scan total cs = .ok tokens) : ∃ before, kinds tokens = before ++ [.done] ∧ .done ∉ before := by
  fun_induction scan total cs generalizing tokens with
  | case1 =>
    cases h
    exact ⟨[], rfl, nofun⟩
  | case2 => cases h
  | case3 =>
    rename_i kind after hread ih
    cases hscan : scan total after with
    | error e =>
      rw [hscan] at h
      cases h
    | ok others =>
      rw [hscan] at h
      cases h
      obtain ⟨before, hkinds, hdone⟩ := ih hscan
      refine ⟨kind :: before, by simp [hkinds], ?_⟩
      have hkind : kind ≠ .done := unended_readToken _ _ _ hread
      simp [hdone, hkind.symm]

/-! ## One parameter -/

/-- Parameters with one more that is not the rest. -/
def push (seen : Params) (param : Param) : Params := { seen with fixed := seen.fixed ++ [param] }

theorem names_push {seen : Params} (hrest : seen.rest = none) (param : Param) :
    (push seen param).names = seen.names ++ [param.name] := by
  simp [push, Params.names, hrest]

variable {seen p : Params} {tokens : List Token} {b b' : Builder}

/-- After a parameter there is the end, or a comma and another parameter. -/
theorem readComma_eq_ok (h : readComma seen tokens b = .ok p b') :
    (∃ after, kinds tokens = .done :: after ∧ p = seen) ∨
      ∃ next, kinds tokens = .comma :: kinds next ∧ next.length < tokens.length ∧
        readParam seen next b = .ok p b' := by
  unfold readComma at h
  split at h
  · exact .inr ⟨_, rfl, Nat.lt_succ_self _, h⟩
  · cases h
    exact .inl ⟨_, rfl, rfl⟩
  · cases h

/-- A parameter that is read has a new name, and comes before any rest parameter. -/
theorem readParam_eq_ok (h : readParam seen tokens b = .ok p b') :
    seen.rest = none ∧ ∃ next, next.length < tokens.length ∧
      ((∃ before param n, kinds tokens = before ++ kinds next ∧
          IsParam b.location before param ∧ param.name ∉ seen.names ∧
          n.location = b.location ∧ readComma (push seen param) next n = .ok p b') ∨
        ∃ name, kinds tokens = .variable name :: .ellipsis :: kinds next ∧ name ∉ seen.names ∧
          readComma { seen with rest := some name } next b = .ok p b') := by
  unfold readParam at h
  split at h
  · rename_i name column next
    split at h
    · cases h
    · rename_i hrest
      refine ⟨by simpa using hrest, ?_⟩
      split at h
      · cases h
      · rename_i hname
        split at h
        · rename_i token next
          cases hliteral : literal? token.kind with
          | none =>
            rw [hliteral] at h
            cases h
          | some build =>
            obtain ⟨value, hvalue, hbuilt⟩ := denotes_of_literal? hliteral b
            simp only [hliteral, Build.bind_ok hbuilt] at h
            exact ⟨next, by simp only [List.length_cons]; omega,
              .inl ⟨_, _, b.grow 1, rfl, .optional hvalue, hname, rfl, h⟩⟩
        · rename_i next
          exact ⟨next, by simp only [List.length_cons]; omega, .inr ⟨name, rfl, hname, h⟩⟩
        · exact ⟨next, Nat.lt_succ_self _, .inl ⟨[.variable name], _, b, rfl, .required name, hname, rfl, h⟩⟩
  · cases h

/-! ## All parameters -/

private theorem nodup_snoc {names : List String} {name : String} (h : names.Nodup)
    (hname : name ∉ names) : (names ++ [name]).Nodup := by
  rw [← List.concat_eq_append]
  exact h.concat hname

/-- What is read is in the grammar, up to the end. -/
theorem isParams_of_readParam (h : readParam seen tokens b = .ok p b') (hseen : seen.names.Nodup) :
    ∃ before after others, kinds tokens = before ++ .done :: after ∧
      IsParams b.location before others ∧ p = ⟨seen.fixed ++ others.fixed, others.rest⟩ ∧
      (seen.names ++ others.names).Nodup := by
  -- a parameter and the comma after it are read by two functions, so the induction is
  -- on how many tokens are left and not along one of them
  induction hlength : tokens.length using Nat.strongRecOn generalizing tokens seen b with
  | ind length ih =>
    obtain ⟨hrest, next, hnext, ⟨before, param, n, htokens, hparam, hname, hn, hread⟩ |
      ⟨name, htokens, hname, hread⟩⟩ := readParam_eq_ok h
    · have hpush := nodup_snoc hseen hname
      rw [← names_push hrest] at hpush
      rcases readComma_eq_ok hread with ⟨after, hdone, rfl⟩ | ⟨next', hcomma, hnext', hread'⟩
      · refine ⟨before, after, ⟨[param], none⟩, by rw [htokens, hdone], .last hparam, ?_, ?_⟩
        · simp [push, hrest]
        · rwa [names_push hrest] at hpush
      · obtain ⟨before', after, others, hkinds, hothers, hp, hnodup⟩ :=
          ih next'.length (by omega) hread' hpush rfl
        refine ⟨before ++ .comma :: before', after, ⟨param :: others.fixed, others.rest⟩, ?_, ?_, ?_, ?_⟩
        · simp [htokens, hcomma, hkinds]
        · exact .cons hparam (hn ▸ hothers)
        · simp [hp, push]
        · rw [names_push hrest] at hnodup
          simpa [Params.names] using hnodup
    · rcases readComma_eq_ok hread with ⟨after, hdone, rfl⟩ | ⟨next', _, _, hread'⟩
      · refine ⟨[.variable name, .ellipsis], after, ⟨[], some name⟩, by rw [htokens, hdone]; rfl,
          .rest name, by simp, ?_⟩
        exact nodup_snoc hseen hname
      · cases (readParam_eq_ok hread').1

/-- A parameter of the grammar is read, up to the comma or the end after it. -/
theorem readParam_of_isParam {first after : List TokenKind} {stop : TokenKind} {param : Param}
    (h : IsParam b.location first param) (htokens : kinds tokens = first ++ stop :: after)
    (hstop : stop = .comma ∨ stop = .done) (hrest : seen.rest = none) (hname : param.name ∉ seen.names) :
    ∃ next k, kinds next = stop :: after ∧
      readParam seen tokens b = readComma (push seen param) next (b.grow k) := by
  cases h with
  | required name =>
    obtain ⟨_, next, rfl, hnext⟩ := kinds_eq_cons htokens
    refine ⟨next, 0, hnext, ?_⟩
    obtain ⟨_, _, rfl, _⟩ := kinds_eq_cons hnext
    -- the reader looks one token ahead for a colon or an ellipsis
    rcases hstop with rfl | rfl <;> simp [readParam, hrest, hname, push]
  | optional hvalue =>
    obtain ⟨_, _, rfl, hcolon⟩ := kinds_eq_cons htokens
    obtain ⟨_, _, rfl, hliteral⟩ := kinds_eq_cons hcolon
    obtain ⟨_, next, rfl, hnext⟩ := kinds_eq_cons hliteral
    obtain ⟨build, hbuild, hbuilt⟩ := literal?_of_denotes hvalue
    refine ⟨next, 1, hnext, ?_⟩
    simp [readParam, hrest, hname, hbuild, Build.bind_ok hbuilt, push]

/-- What is in the grammar is read. -/
theorem readParam_of_isParams {before after : List TokenKind} {others : Params}
    (h : IsParams location before others) (hlocation : b.location = location)
    (htokens : kinds tokens = before ++ .done :: after) (hrest : seen.rest = none)
    (hnodup : (seen.names ++ others.names).Nodup) :
    ∃ b', readParam seen tokens b = .ok ⟨seen.fixed ++ others.fixed, others.rest⟩ b' := by
  induction h generalizing seen tokens b with
  | @last first param hparam =>
    have hname : param.name ∉ seen.names := fun hmem =>
      List.disjoint_of_nodup_append hnodup hmem List.mem_cons_self
    obtain ⟨next, k, hnext, hread⟩ :=
      readParam_of_isParam (hlocation ▸ hparam) htokens (.inr rfl) hrest hname
    obtain ⟨_, _, rfl, _⟩ := kinds_eq_cons hnext
    refine ⟨b.grow k, ?_⟩
    rw [hread, readComma, push, hrest]
    rfl
  | rest name =>
    have hname : name ∉ seen.names := fun hmem =>
      List.disjoint_of_nodup_append hnodup hmem List.mem_cons_self
    obtain ⟨_, _, rfl, hellipsis⟩ := kinds_eq_cons htokens
    obtain ⟨_, _, rfl, hdone⟩ := kinds_eq_cons hellipsis
    obtain ⟨_, _, rfl, _⟩ := kinds_eq_cons hdone
    exact ⟨b, by simp [readParam, readComma, hrest, hname]; rfl⟩
  | @cons first kinds param others hparam hothers ih =>
    rw [List.append_assoc] at htokens
    have hname : param.name ∉ seen.names := fun hmem =>
      List.disjoint_of_nodup_append hnodup hmem List.mem_cons_self
    obtain ⟨next, k, hnext, hread⟩ :=
      readParam_of_isParam (hlocation ▸ hparam) htokens (.inl rfl) hrest hname
    obtain ⟨_, next', rfl, hnext'⟩ := kinds_eq_cons hnext
    have hn : (b.grow k).location = location := hlocation
    have hrest' : (push seen param).rest = none := hrest
    have hnames : ((push seen param).names ++ others.names).Nodup := by
      rw [names_push hrest, List.append_assoc]
      exact hnodup
    obtain ⟨b', hread'⟩ := ih hn hnext' hrest' hnames
    refine ⟨b', ?_⟩
    rw [hread, readComma, hread', push, List.append_assoc]
    rfl

/-! ## Whole signatures -/

theorem IsParams.ne_nil {before : List TokenKind} (h : IsParams location before p) : before ≠ [] := by
  cases h with
  | last hparam => cases hparam <;> nofun
  | rest => nofun
  | cons => simp

/-- Nothing is before the end when the end comes first. -/
theorem eq_nil_of_done {before : List TokenKind} {column : Nat}
    (htokens : kinds (⟨.done, column⟩ :: tokens) = before ++ [.done]) (hdone : .done ∉ before) :
    before = [] := by
  cases before with
  | nil => rfl
  | cons kind before =>
    obtain ⟨rfl, _⟩ := List.cons_eq_cons.1 htokens
    exact absurd List.mem_cons_self hdone

/-- All tokens but the last one are read as the grammar says. -/
theorem readParams_eq_ok_iff {before : List TokenKind} (htokens : kinds tokens = before ++ [.done])
    (hdone : .done ∉ before) :
    (∃ b', readParams tokens b = .ok p b') ↔ IsSignature b.location before p := by
  constructor
  · rintro ⟨b', h⟩
    unfold readParams at h
    split at h
    · cases h
      rw [eq_nil_of_done htokens hdone]
      exact .empty
    · obtain ⟨before', after, others, hkinds, hothers, rfl, hnodup⟩ :=
        isParams_of_readParam h List.nodup_nil
      obtain ⟨rfl, _, _⟩ :=
        (List.append_cons_inj_of_notMem hdone List.not_mem_nil).1 (htokens.symm.trans hkinds)
      exact .params hothers hnodup
  · intro h
    cases h with
    | empty =>
      obtain ⟨_, _, rfl, _⟩ := kinds_eq_cons htokens
      exact ⟨b, rfl⟩
    | params hparams hnodup =>
      unfold readParams
      split
      · exact absurd (eq_nil_of_done htokens hdone) hparams.ne_nil
      · exact readParam_of_isParams hparams rfl htokens rfl hnodup

/-! ## Refusals -/

/-- A build whose failures are all malformed signatures. -/
def Refuses {α : Type} (x : Build α) : Prop := ∀ b e b', x b = .error e b' → e.kind = .signature

variable {α β : Type}

theorem refuses_pure (a : α) : Refuses (pure a) := by
  rintro b _ _ ⟨⟩

theorem refuses_fail (fault : TokenKind → SignatureFault) (next : List Token) :
    Refuses (fail fault next : Build α) := by
  rintro b _ _ ⟨⟩
  rfl

theorem refuses_bind {x : Build α} {f : α → Build β} (hx : Refuses x) (hf : ∀ a, Refuses (f a)) :
    Refuses (x >>= f) := by
  intro b e b' h
  cases hxb : x b with
  | ok a n =>
    rw [Build.bind_ok hxb] at h
    exact hf a n e b' h
  | error e' n =>
    rw [Build.bind_error hxb] at h
    cases h
    exact hx b e b' hxb

theorem refuses_inContext {x : Build α} (context : String) (hx : Refuses x) :
    Refuses (Build.mapError (·.inContext context) x) := by
  intro b e b' h
  unfold Build.mapError at h
  cases hxb : x b with
  | ok a n =>
    rw [hxb] at h
    cases h
  | error e' n =>
    rw [hxb] at h
    cases h
    exact hx b e' b' hxb

theorem refuses_literal? {kind : TokenKind} {build : Build Value} (h : literal? kind = some build) :
    Refuses build := by
  intro b e b' hbuild
  obtain ⟨v, _, hbuilt⟩ := denotes_of_literal? h b
  rw [hbuilt] at hbuild
  cases hbuild

mutual

theorem refuses_readParam (seen : Params) : (tokens : List Token) → Refuses (readParam seen tokens)
  | tokens => by
    unfold readParam
    split
    · split
      · exact refuses_fail _ _
      split
      · exact refuses_fail _ _
      split
      · split
        · exact refuses_bind (refuses_literal? ‹_›) fun _ => refuses_readComma _ _
        · exact refuses_fail _ _
      · exact refuses_readComma _ _
      · exact refuses_readComma _ _
    · exact refuses_fail _ _
termination_by tokens => sizeOf tokens

theorem refuses_readComma (seen : Params) : (tokens : List Token) → Refuses (readComma seen tokens)
  | tokens => by
    unfold readComma
    split
    · exact refuses_readParam _ _
    · exact refuses_pure _
    · exact refuses_fail _ _
termination_by tokens => sizeOf tokens

end

theorem refuses_readParams (tokens : List Token) : Refuses (readParams tokens) := by
  unfold readParams
  split
  · exact refuses_pure _
  · exact refuses_readParam _ _

/-- A text that is not divided into tokens is a malformed signature. -/
theorem kind_of_scan {total : Nat} {cs : List Char} {e : Error} (h : scan total cs = .error e) :
    e.kind = .signature := by
  fun_induction scan total cs generalizing e with
  | case1 => cases h
  | case2 =>
    cases h
    rfl
  | case3 =>
    rename_i after _ ih
    cases hscan : scan total after with
    | ok others =>
      rw [hscan] at h
      cases h
    | error e' =>
      rw [hscan] at h
      cases h
      exact ih hscan

theorem refuses_read (text : String) : Refuses (read text) := by
  refine refuses_bind ?_ fun _ => refuses_inContext _ (refuses_readParams _)
  intro b e b' h
  cases htokens : Signature.tokens text with
  | ok ts =>
    rw [htokens] at h
    cases h
  | error e' =>
    rw [htokens] at h
    cases h
    exact kind_of_scan htokens

/-! ## Texts -/

theorem mapError_eq_ok {α : Type} {f : Error → Error} {x : Build α} {a : α} :
    Build.mapError f x b = .ok a b' ↔ x b = .ok a b' := by
  unfold Build.mapError
  cases x b <;> simp

theorem read_eq_ok_iff {text : String} :
    (∃ b', read text b = .ok p b') ↔
      ∃ ts before, Signature.tokens text = .ok ts ∧ kinds ts = before ++ [.done] ∧
        IsSignature b.location before p := by
  unfold read
  cases htokens : Signature.tokens text with
  | error e =>
    have hfail : Build.ofExcept (.error e : Except Error (List Token)) b = .error e b := rfl
    rw [Build.bind_error hfail]
    constructor <;> nofun
  | ok ts =>
    have hok : Build.ofExcept (.ok ts : Except Error (List Token)) b = .ok ts b := rfl
    obtain ⟨before, hkinds, hdone⟩ := kinds_scan htokens
    simp only [Build.bind_ok hok, mapError_eq_ok, readParams_eq_ok_iff hkinds hdone]
    constructor
    · intro h
      exact ⟨ts, before, rfl, hkinds, h⟩
    · rintro ⟨_, before', ⟨⟩, hkinds', h⟩
      rw [List.append_cancel_right (hkinds.symm.trans hkinds')]
      exact h

/-- A text is read as the parameters that the grammar gives to its tokens, and when
it gives none, then it is refused as a malformed signature. -/
theorem read_accepts_grammar (text : String) (b : Builder) :
    (∀ p, (∃ b', read text b = .ok p b') ↔
      ∃ ts before, Signature.tokens text = .ok ts ∧ kinds ts = before ++ [.done] ∧
        IsSignature b.location before p) ∧
    ∀ e b', read text b = .error e b' → e.kind = .signature :=
  ⟨fun _ => read_eq_ok_iff, refuses_read text b⟩

example : read "$a, $b: auto, $more..." .fresh =
    .ok ⟨[⟨"a", none⟩, ⟨"b", some (.literal (.string "auto" false none))⟩], some "more"⟩ ⟨none, 1⟩ := by
  have htokens : Signature.tokens "$a, $b: auto, $more..." =
      .ok [⟨.variable "a", 1⟩, ⟨.comma, 3⟩, ⟨.variable "b", 5⟩, ⟨.colon, 7⟩, ⟨.ident "auto", 9⟩,
        ⟨.comma, 13⟩, ⟨.variable "more", 15⟩, ⟨.ellipsis, 20⟩, ⟨.done, 23⟩] := by decide +kernel
  rw [read, htokens]
  rfl

end Signature

end StyleScript
