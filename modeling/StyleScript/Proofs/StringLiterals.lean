-- SUMMARY: Strings survive being shown and read, and no content of a literal is anything but text.
import StyleScript.Proofs.BytewiseTokens

/-!
# String literals

A quoted string is shown between double quotes, with backslashes before those characters that
would end it or be taken for an escape. Escapes are undone byte by byte. A literal begins where a
character does, so what is put together from its bytes are the bytes of whole characters.

Main statement: a shown string is read as one token with its content, and there is no text in
which the bytes of a literal are not those of a text.
-/

namespace StyleScript

namespace Signature

/-! ## Shown strings -/

theorem byteCount_eq_utf8ByteSize (text : String) : byteCount text.toList = text.utf8ByteSize := by
  have h := (Bytewise.at_toUTF8 text).size
  rw [Nat.zero_add] at h
  exact h.symm

/-- A text of one token, which is the whole of it. -/
theorem tokens_of_readToken {text : String} {c : Char} {cs : List Char} {kind : TokenKind}
    (htext : text.toList = c :: cs) (hc : isGap c = false) (hread : readToken c cs = .ok (kind, [])) :
    tokens text = .ok [⟨kind, 1⟩, ⟨.done, text.utf8ByteSize + 1⟩] := by
  have hdrop : (c :: cs).dropWhile isGap = c :: cs := by simp [hc]
  rw [tokens, htext, scan_eq]
  simp only [hdrop, hread, Nat.sub_self, Nat.zero_add]
  rw [scan_eq, ← htext, byteCount_eq_utf8ByteSize]
  rfl

theorem toList_shown_string (places : Nat) (s : String) (l : Option Location) :
    ((Value.string s true l).inspect places).toList = '"' :: (Value.escape s.toList ++ ['"']) := by
  simp [Value.inspect]

theorem tokens_shown_string (places : Nat) (s : String) (l : Option Location) :
    tokens ((Value.string s true l).inspect places) =
      .ok [⟨.string s, 1⟩, ⟨.done, ((Value.string s true l).inspect places).utf8ByteSize + 1⟩] := by
  refine tokens_of_readToken (toList_shown_string places s l) rfl ?_
  simp [readToken, stringContent_escape]

/-! ## Literals of any text -/

namespace Bytewise

/-- The positions at which a token is read. -/
inductive Visits (source : ByteArray) : Nat → Prop where
  | first {gap : List Char} {start : Nat}
      (hgap : readWhile source (fun c _ => isGap c) 0 = .ok (gap, start)) : Visits source start
  | next {start after : Nat} {kind : TokenKind} {gap : List Char} {start' : Nat}
      (h : Visits source start) (hread : readToken source start = .ok (kind, after))
      (hgap : readWhile source (fun c _ => isGap c) after = .ok (gap, start')) : Visits source start'

/-- The bytes that are put together, without the escapes, for a literal that is read. -/
inductive Literal (source : ByteArray) (bytes : List UInt8) : Prop where
  | intro {start next : Nat} (h : Visits source start)
      (hquote : byteAt source start = '"' ∨ byteAt source start = '\'')
      (hread : stringBytes source (byteAt source start) (start + 1) (start + 1) = .ok (bytes, next))

variable {source : ByteArray} {pos : Nat} {cs : List Char} {bytes : List UInt8}

theorem At.skip {gap : List Char} {start : Nat} (h : At source pos cs)
    (hgap : readWhile source (fun c _ => isGap c) pos = .ok (gap, start)) :
    ∃ cs, At source start cs := by
  obtain ⟨next, hread, hat⟩ := h.gives_span ascii_isGap
  cases hread.symm.trans hgap
  exact ⟨(spanClass isGap cs).2, hat⟩

/-- After a token a character begins again. -/
theorem At.after_token {kind : TokenKind} {next : Nat} (h : At source pos cs)
    (hread : readToken source pos = .ok (kind, next)) : ∃ cs, At source next cs := by
  cases cs with
  | nil =>
    have hadvance : advance source pos = .error (.outside pos) :=
      dif_neg (Nat.not_lt.2 (h.size_le_iff.2 rfl))
    rw [readToken_apply, bind_of_error hadvance] at hread
    cases hread
  | cons c rest =>
    obtain ⟨after, -, hat⟩ := h.agrees_token.of_ok hread
    exact ⟨after, hat⟩

/-- Tokens are read where a character begins, or at the end. -/
theorem Visits.exists_at (h : Visits source pos) (hsource : At source 0 cs) :
    ∃ cs, At source pos cs := by
  induction h with
  | first hgap => exact hsource.skip hgap
  | next h hread hgap ih =>
    obtain ⟨here, hhere⟩ := ih
    obtain ⟨rest, hrest⟩ := hhere.after_token hread
    exact hrest.skip hgap

/-- The bytes of a literal are those of characters. -/
theorem Literal.exists_encode (h : Literal source bytes) (hsource : At source 0 cs) :
    ∃ content, bytes = encode content := by
  obtain ⟨hvisits, hquote, hread⟩ := h
  rename_i start next
  obtain ⟨here, hhere⟩ := hvisits.exists_at hsource
  have hlow : (byteAt source start).toNat < 128 := by
    obtain hquote | hquote := hquote <;> rw [hquote] <;> decide
  cases here with
  | nil =>
    -- nothing is a quote behind the end
    rw [hhere.byteAt_eq] at hquote
    cases hquote <;> contradiction
  | cons c rest =>
    have hc : c.toNat < 128 := by
      rw [hhere.byteAt_eq] at hlow
      exact Nat.not_le.1 fun hle => Nat.not_le.2 hlow (le_toNat_shownAs hle)
    obtain ⟨b, -, -, hrest⟩ := hhere.advance_ascii hc
    obtain ⟨after, hcontent, -⟩ := (hrest.agrees_stringBytes hlow (start + 1)).of_ok hread
    exact encode_of_contentBytes hcontent

/-- The literal of a shown string is made of the bytes of the string. -/
theorem literal_shown_string (places : Nat) (s : String) (l : Option Location) :
    Literal ((Value.string s true l).inspect places).toUTF8 (encode s.toList) := by
  have h := at_toUTF8 ((Value.string s true l).inspect places)
  rw [toList_shown_string] at h
  have hbyte := h.byteAt_eq
  rw [seen, shownAs_eq (by decide)] at hbyte
  obtain ⟨b, -, -, hrest⟩ := h.advance_ascii (by decide)
  have hquote : '"'.toNat < 128 := by decide
  have hbytes := hrest.agrees_stringBytes hquote 1
  rw [contentBytes, stringContent_escape, ← hbyte] at hbytes
  obtain ⟨next, hread, -⟩ := hbytes
  have hgap : readWhile _ (fun c _ => isGap c) 0 = .ok ([], 0) := readWhile_stop (by rw [hbyte]; rfl)
  exact ⟨.first hgap, .inl hbyte, hread⟩

end Bytewise

/-- Any string is shown as a text that is read as one token with its content, from characters and
    from bytes. Whatever the text is, the bytes that are put together for a literal of it are
    those of a text, so none is refused for not being one. -/
theorem strings_survive (text : String) (column : Nat) :
    (∀ places s l,
      let shown := (Value.string s true l).inspect places
      tokens shown = .ok [⟨.string s, 1⟩, ⟨.done, shown.utf8ByteSize + 1⟩] ∧
      Bytewise.tokens shown = .ok [⟨.string s, 1⟩, ⟨.done, shown.utf8ByteSize + 1⟩] ∧
      Bytewise.Literal shown.toUTF8 (Bytewise.encode s.toList)) ∧
    (∀ bytes, Bytewise.Literal text.toUTF8 bytes → bytes.toByteArray.IsValidUTF8) ∧
    Bytewise.tokens text ≠ .error (.notUtf8 column) := by
  refine ⟨fun places s l => ?_, fun bytes hbytes => ?_, fun herror => ?_⟩
  · have htokens := tokens_shown_string places s l
    refine ⟨htokens, ?_, Bytewise.literal_shown_string places s l⟩
    rw [Bytewise.tokens_eq, htokens]
    rfl
  · obtain ⟨content, rfl⟩ := hbytes.exists_encode (Bytewise.at_toUTF8 text)
    exact Bytewise.isValidUTF8_encode content
  · obtain ⟨e, he⟩ := Bytewise.exists_refused herror
    cases he

end Signature

end StyleScript
