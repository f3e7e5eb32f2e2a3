-- SUMMARY: Texts that are read as one token, and how texts of tokens are put together.
import StyleScript.Proofs.Grammar

/-!
# Texts of tokens

A token can be written in a text that is read as this token again, wherever the text
stands: names as they are, strings between double quotes and with their escapes, colors by
six digits. Only names and digits need care, for they go on as long as they can; what
follows them has to break them off.

Texts of tokens are put one after the other, so the text of a whole signature is read as
the tokens of its pieces.
-/

namespace StyleScript.Signature

variable {total : Nat} {c : Char} {cs digits rest t t' : List Char} {kind : TokenKind}
  {ks ks' : List TokenKind}

/-! ## Characters -/

theorem isAlpha_iff : c.isAlpha = true ↔ ('A' ≤ c ∧ c ≤ 'Z') ∨ ('a' ≤ c ∧ c ≤ 'z') := by
  have hranges : c.isAlpha = (decide ('A' ≤ c ∧ c ≤ 'Z') || ('a' ≤ c && c ≤ 'z')) := rfl
  simp [hranges]

theorem isIdentPart_iff :
    isIdentPart c = true ↔ c.isAlpha = true ∨ c.isDigit = true ∨ c = '_' ∨ c = '-' := by
  have hclasses : isIdentPart c = (c.isAlpha || c.isDigit || c == '_' || c == '-') := rfl
  simp [hclasses, or_assoc]

theorem isIdentPart_of_isIdentStart (h : isIdentStart c = true) : isIdentPart c = true := by
  simp only [isIdentStart, Bool.or_eq_true, beq_iff_eq] at h
  rw [isIdentPart_iff]
  obtain halpha | hlow := h
  · exact .inl halpha
  · exact .inr (.inr (.inl hlow))

theorem isIdentPart_of_isHexDigit (h : isHexDigit c = true) : isIdentPart c = true := by
  simp only [isHexDigit, Bool.or_eq_true, Bool.and_eq_true, decide_eq_true_eq] at h
  rw [isIdentPart_iff, isAlpha_iff]
  obtain (hdigit | ⟨ha, hf⟩) | ⟨ha, hf⟩ := h
  · exact .inr (.inl hdigit)
  · exact .inl (.inr ⟨ha, Char.le_trans hf (by decide)⟩)
  · exact .inl (.inl ⟨ha, Char.le_trans hf (by decide)⟩)

theorem isDigit_of_isIdentStart (h : isIdentStart c = true) : c.isDigit = false := by
  rw [Bool.eq_false_iff]
  intro hdigit
  obtain ⟨-, hnine⟩ := Char.isDigit_iff_toNat.1 hdigit
  simp only [isIdentStart, Bool.or_eq_true, isAlpha_iff, beq_iff_eq, Char.le_def,
    UInt32.le_iff_toNat_le, Char.toNat_val, Char.reduceToNat] at h hnine
  obtain halpha | rfl := h
  · omega
  · contradiction

/-! ## Dividing a text -/

/-- Dividing a text: gaps are left out, and one token comes first. -/
theorem scan_eq (total : Nat) (cs : List Char) :
    scan total cs =
      match cs.dropWhile isGap with
      | [] => .ok [⟨.done, total + 1⟩]
      | c :: rest =>
        let column := total - byteCount (c :: rest) + 1
        match readToken c rest with
        | .error fault => .error (.ofCause (.signature column fault))
        | .ok (kind, after) => (scan total after).map (⟨kind, column⟩ :: ·) := by
  rw [scan]
  split
  · simp only [*]
  · simp only [*]
    split <;> simp only [*]

/-- The kinds of the tokens of a text, whatever comes before it. -/
def Tokenizes (cs : List Char) (ks : List TokenKind) : Prop :=
  ∀ total, ∃ ts, scan total cs = .ok ts ∧ kinds ts = ks

theorem tokenizes_nil : Tokenizes [] [.done] := fun total =>
  ⟨[⟨.done, total + 1⟩], scan_eq total [], rfl⟩

theorem Tokenizes.gap (h : Tokenizes cs ks) (hc : isGap c = true) : Tokenizes (c :: cs) ks := by
  intro total
  rw [scan_eq, List.dropWhile_cons_of_pos hc, ← scan_eq]
  exact h total

theorem Tokenizes.token (h : Tokenizes rest ks) (hc : isGap c = false)
    (hread : readToken c cs = .ok (kind, rest)) : Tokenizes (c :: cs) (kind :: ks) := by
  intro total
  obtain ⟨ts, hts, rfl⟩ := h total
  have hdrop : (c :: cs).dropWhile isGap = c :: cs := by simp [hc]
  refine ⟨⟨kind, total - byteCount (c :: cs) + 1⟩ :: ts, ?_, rfl⟩
  simp only [scan_eq total (c :: cs), hdrop, hread, hts, Except.map]

/-! ## Names -/

/-- The characters of an identifier. -/
def IsIdentifier : List Char → Prop
  | [] => False
  | c :: cs => isIdentStart c = true ∧ ∀ d ∈ cs, isIdentPart d = true

theorem IsIdentifier.forall_isIdentPart (h : IsIdentifier cs) : ∀ d ∈ cs, isIdentPart d = true := by
  cases cs with
  | nil => cases h
  | cons c cs => exact List.forall_mem_cons.2 ⟨isIdentPart_of_isIdentStart h.1, h.2⟩

/-- A token whose name, if it has one, is an identifier. -/
def TokenKind.WellSpelled : TokenKind → Prop
  | .ident name | .variable name => IsIdentifier name.toList
  | _ => True

theorem isIdentifier_takeWhile (hc : isIdentStart c = true) (cs : List Char) :
    IsIdentifier (c :: cs.takeWhile isIdentPart) :=
  ⟨hc, List.all_eq_true.1 List.all_takeWhile⟩

theorem wellSpelled_readNumber {negative : Bool} {r : TokenKind × List Char}
    (h : readNumber negative c cs = .ok r) : r.1.WellSpelled := by
  unfold readNumber at h
  simp only at h
  split at h
  · cases h
    trivial
  · cases h

theorem wellSpelled_readToken {r : TokenKind × List Char} (h : readToken c cs = .ok r) :
    r.1.WellSpelled := by
  revert h
  fun_cases readToken c cs
  case case4 =>
    rename_i name after _ hstart hspan
    rintro ⟨⟩
    obtain ⟨rfl, rfl⟩ := Prod.mk.inj hspan
    cases cs with
    | nil => cases hstart
    | cons d cs =>
      have hd : isIdentStart d = true := hstart
      simpa [TokenKind.WellSpelled, isIdentPart_of_isIdentStart hd] using isIdentifier_takeWhile hd cs
  case case10 => exact wellSpelled_readNumber
  case case11 => exact wellSpelled_readNumber
  case case13 =>
    rename_i hstart name after _ _ hspan
    rintro ⟨⟩
    obtain ⟨rfl, rfl⟩ := Prod.mk.inj hspan
    simpa [TokenKind.WellSpelled] using isIdentifier_takeWhile hstart cs
  -- no other token has a name
  all_goals
    rintro ⟨⟩ <;> trivial

theorem wellSpelled_scan {ts : List Token} (h : scan total cs = .ok ts) :
    ∀ kind ∈ kinds ts, kind.WellSpelled := by
  fun_induction scan total cs generalizing ts with
  | case1 =>
    cases h
    simp [kinds, TokenKind.WellSpelled]
  | case2 => cases h
  | case3 =>
    rename_i kind after hread ih
    cases hscan : scan total after with
    | error e =>
      rw [hscan] at h
      cases h
    | ok others =>
      rw [hscan] at h
      cases h
      exact List.forall_mem_cons.2 ⟨wellSpelled_readToken hread, ih hscan⟩

/-! ## Texts of tokens -/

/-- A text with which no name and no digits go on. -/
def Breaks (rest : List Char) : Prop := ∀ d ∈ rest.head?, isIdentPart d = false

theorem breaks_nil : Breaks [] := nofun

@[simp] theorem breaks_cons : Breaks (c :: cs) ↔ isIdentPart c = false := by simp [Breaks]

/-- A text that is read as the tokens, whatever follows, as long as it breaks names off. -/
def Reads (t : List Char) (ks : List TokenKind) : Prop :=
  ∀ rest rks, Breaks rest → Tokenizes rest rks → Tokenizes (t ++ rest) (ks ++ rks)

theorem reads_nil : Reads [] [] := fun _ _ _ => id

/-- The text of one token that is read, when what follows breaks names off. -/
theorem Reads.single (hc : isGap c = false)
    (hread : ∀ rest, Breaks rest → readToken c (cs ++ rest) = .ok (kind, rest)) :
    Reads (c :: cs) [kind] :=
  fun rest _ hbreaks hrest => hrest.token hc (hread rest hbreaks)

theorem Reads.space (h : Reads t ks) : Reads (' ' :: t) ks :=
  fun rest rks hbreaks hrest => (h rest rks hbreaks hrest).gap rfl

/-- A token that is a single character, whatever follows. -/
theorem Reads.cons (h : Reads t ks) (hc : isGap c = false)
    (hread : ∀ cs, readToken c cs = .ok (kind, cs)) : Reads (c :: t) (kind :: ks) :=
  fun rest rks hbreaks hrest => (h rest rks hbreaks hrest).token hc (hread _)

/-- Two texts one after the other, when the second one breaks names off. -/
theorem Reads.append (h : Reads t ks) (h' : Reads t' ks')
    (hbreaks : ∀ rest, Breaks rest → Breaks (t' ++ rest)) : Reads (t ++ t') (ks ++ ks') := by
  intro rest rks hrest htokenizes
  rw [List.append_assoc, List.append_assoc]
  exact h _ _ (hbreaks rest hrest) (h' rest rks hrest htokenizes)

theorem Reads.colon (h : Reads t ks) : Reads (':' :: t) (.colon :: ks) :=
  h.cons rfl fun _ => rfl

theorem Reads.comma (h : Reads t ks) : Reads (',' :: t) (.comma :: ks) :=
  h.cons rfl fun _ => rfl

theorem reads_ellipsis : Reads ['.', '.', '.'] [.ellipsis] :=
  .single rfl fun rest _ => by simp [readToken]

/-! ## Names, strings and colors -/

theorem spanClass_append {p : Char → Bool} (ht : ∀ d ∈ t, p d = true)
    (hrest : ∀ d ∈ rest.head?, p d = false) : spanClass p (t ++ rest) = (t, rest) := by
  rw [spanClass, List.takeWhile_append_of_pos ht, List.dropWhile_append_of_pos ht]
  cases rest with
  | nil => simp
  | cons d rest =>
    have hd : p d = false := hrest d rfl
    simp [hd]

theorem readToken_variable (h : (cs.head?.any isIdentStart) = true) :
    readToken '$' cs =
      .ok (.variable (String.ofList (spanClass isIdentPart cs).1), (spanClass isIdentPart cs).2) := by
  simp [readToken, h]

theorem readToken_ident (h : isIdentStart c = true) (cs : List Char) :
    readToken c cs =
      .ok (.ident (String.ofList (c :: (spanClass isIdentPart cs).1)), (spanClass isIdentPart cs).2) := by
  have hne (d : Char) (hd : isIdentStart d = false) : c ≠ d := by
    rintro rfl
    exact Bool.false_ne_true (hd.symm.trans h)
  simp [readToken, h, isDigit_of_isIdentStart h, hne ':' rfl, hne ',' rfl, hne '.' rfl, hne '$' rfl,
    hne '#' rfl, hne '"' rfl, hne '\'' rfl, hne '-' rfl]

theorem isGap_of_isIdentStart (h : isIdentStart c = true) : isGap c = false := by
  rw [Bool.eq_false_iff]
  intro hgap
  simp only [isGap, Bool.or_eq_true, beq_iff_eq] at hgap
  obtain (((rfl | rfl) | rfl) | rfl) | rfl := hgap <;> contradiction

theorem IsIdentifier.reads_variable (h : IsIdentifier cs) :
    Reads ('$' :: cs) [.variable (String.ofList cs)] := by
  refine .single rfl fun rest hbreaks => ?_
  cases cs with
  | nil => cases h
  | cons c cs =>
    rw [readToken_variable (by simpa using h.1), spanClass_append h.forall_isIdentPart hbreaks]

theorem IsIdentifier.reads_ident (h : IsIdentifier cs) : Reads cs [.ident (String.ofList cs)] := by
  cases cs with
  | nil => cases h
  | cons c cs =>
    refine .single (isGap_of_isIdentStart h.1) fun rest hbreaks => ?_
    rw [readToken_ident h.1, spanClass_append h.2 hbreaks]

theorem stringContent_quote (quote : Char) (rest : List Char) :
    stringContent quote (quote :: rest) = some ([], rest) := by
  unfold stringContent
  simp

theorem stringContent_backslash {quote : Char} (hquote : '\\' ≠ quote) (rest : List Char) :
    stringContent quote ('\\' :: c :: rest) =
      (stringContent quote rest).map fun r => (c :: r.1, r.2) := by
  rw [stringContent.eq_def]
  simp [hquote]

theorem stringContent_cons {quote : Char} (hquote : c ≠ quote) (hslash : c ≠ '\\') (rest : List Char) :
    stringContent quote (c :: rest) = (stringContent quote rest).map fun r => (c :: r.1, r.2) := by
  rw [stringContent.eq_def]
  simp [hquote, hslash]

/-- Escaping is undone by reading the content of a string up to its quote. -/
theorem stringContent_escape (cs rest : List Char) :
    stringContent '"' (Value.escape cs ++ '"' :: rest) = some (cs, rest) := by
  induction cs with
  | nil => exact stringContent_quote '"' rest
  | cons c cs ih =>
    unfold Value.escape
    split
    · rw [List.cons_append, List.cons_append, stringContent_backslash (by decide), ih]
      rfl
    · rename_i hc
      obtain ⟨hslash, hquote⟩ := not_or.1 hc
      rw [List.cons_append, stringContent_cons hquote hslash, ih]
      rfl

theorem reads_string (cs : List Char) :
    Reads ('"' :: (Value.escape cs ++ ['"'])) [.string (String.ofList cs)] := by
  refine .single rfl fun rest _ => ?_
  simp [readToken, stringContent_escape]

theorem reads_color (hdigits : ∀ d ∈ digits, isHexDigit d = true) (hlength : digits.length = 6) :
    Reads ('#' :: digits) [.color (String.ofList digits)] := by
  refine .single rfl fun rest hbreaks => ?_
  have hspan : spanClass isHexDigit (digits ++ rest) = (digits, rest) := by
    refine spanClass_append hdigits fun d hd => Bool.eq_false_iff.2 fun hhex => ?_
    exact Bool.false_ne_true ((hbreaks d hd).symm.trans (isIdentPart_of_isHexDigit hhex))
  simp [readToken, hspan, hlength]

/-! ## Whole texts -/

/-- A text by itself is divided into its tokens and the one that ends them. -/
theorem Reads.tokens {text : String} (h : Reads text.toList ks) :
    ∃ ts, Signature.tokens text = .ok ts ∧ kinds ts = ks ++ [.done] := by
  have htext := h [] [.done] breaks_nil tokenizes_nil
  rw [List.append_nil] at htext
  exact htext (byteCount text.toList)

end StyleScript.Signature
