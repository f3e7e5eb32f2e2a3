-- SUMMARY: Dividing the bytes of a text is dividing its characters.
import StyleScript.Proofs.CharacterBytes

/-!
# Readers of bytes

Where a character begins, a reader of bytes does what the reader of characters does, and where it
ends a character begins again. Runs end where something outside of ASCII is seen. The content of a
string alone holds characters of many bytes; they are taken whole, even when their first byte is
escaped.

Main statement: both divide every text in the same way.
-/

namespace StyleScript.Signature.Bytewise

variable {source : ByteArray} {pos next column : Nat} {b : UInt8} {bytes rest : List UInt8}
  {c d quote : Char} {cs : List Char} {α β : Type}

/-! ## Readers that agree -/

/-- From a position on, bytes are read as the first of the two, and the characters after it are
    the second. -/
def Gives (source : ByteArray) (pos : Nat) (r : Reader α) (q : α × List Char) : Prop :=
  ∃ next, r pos = .ok (q.1, next) ∧ At source next q.2

/-- From a position on, bytes are read as characters are: with the same result and the same
    rest, or with the same fault. -/
def Agrees (source : ByteArray) (pos column : Nat) (r : Reader α) : Signature.Read α → Prop
  | .ok q => Gives source pos r q
  | .error fault => r pos = .error (.refused (.ofCause (.signature column fault)))

variable {r : Reader α} {f : α → Reader β} {q : α × List Char} {x : Signature.Read α}
  {y : Signature.Read β}

theorem agrees_pure (h : At source pos cs) (a : α) :
    Agrees source pos column (pure a) (.ok (a, cs)) :=
  ⟨pos, rfl, h⟩

theorem agrees_refuse (fault : SignatureFault) :
    Agrees (α := α) source pos column (refuse column fault) (.error fault) :=
  rfl

theorem Agrees.of_eq {r' : Reader α} (h : Agrees source next column r' x) (heq : r pos = r' next) :
    Agrees source pos column r x := by
  cases x with
  | error fault => exact heq.trans h
  | ok q =>
    obtain ⟨after, hr, hat⟩ := h
    exact ⟨after, heq.trans hr, hat⟩

/-- What is read from bytes is read from characters, and a character begins behind it. -/
theorem Agrees.of_ok {a : α} (h : Agrees source pos column r x) (hr : r pos = .ok (a, next)) :
    ∃ rest, x = .ok (a, rest) ∧ At source next rest := by
  cases x with
  | error fault => cases hr.symm.trans h
  | ok q =>
    obtain ⟨after, hok, hat⟩ := h
    cases hr.symm.trans hok
    exact ⟨q.2, rfl, hat⟩

theorem Gives.bind (hr : Gives source pos r q)
    (hf : ∀ next, At source next q.2 → Agrees source next column (f q.1) y) :
    Agrees source pos column (r >>= f) y := by
  obtain ⟨next, hok, hat⟩ := hr
  exact (hf next hat).of_eq (bind_of_ok hok)

theorem agrees_ite {r r' : Reader α} {x x' : Signature.Read α} {P : Prop} [Decidable P]
    (hthen : P → Agrees source pos column r x) (helse : ¬P → Agrees source pos column r' x') :
    Agrees source pos column (if P then r else r') (if P then x else x') := by
  by_cases hP : P
  · rw [if_pos hP, if_pos hP]
    exact hthen hP
  · rw [if_neg hP, if_neg hP]
    exact helse hP

/-! ## Runs -/

variable {p : Char → Char → Bool}

theorem readWhile_stop (h : p (byteAt source pos) (byteAt source (pos + 1)) = false) :
    readWhile source p pos = .ok ([], pos) := by
  rw [readWhile, if_neg (Bool.eq_false_iff.1 h)]

theorem readWhile_step (h : p (byteAt source pos) (byteAt source (pos + 1)) = true)
    (hadvance : advance source pos = .ok (b, next)) :
    readWhile source p pos = (readWhile source p next).map fun r => (latin b :: r.1, r.2) := by
  rw [readWhile, if_pos h]
  split
  · cases hadvance.symm.trans ‹_›
  · cases hadvance.symm.trans ‹_›
    rfl

/-- Whether a run goes on is decided by the characters. -/
theorem At.class_eq (hp : ∀ z, Ascii (p · z)) (h : At source pos (c :: cs)) :
    p (byteAt source pos) (byteAt source (pos + 1)) = p c (seen cs) := by
  have hfirst (z : Char) : p (byteAt source pos) z = p c z := by
    rw [h.byteAt_eq]
    exact (hp z).seen (c :: cs)
  rw [hfirst]
  by_cases hc : c.toNat < 128
  · obtain ⟨b, -, -, hcs⟩ := h.advance_ascii hc
    rw [hcs.byteAt_eq]
  · have houtside (z : Char) : p c z = false := (hp z).eq_false (Nat.not_lt.1 hc)
    rw [houtside, houtside]

theorem At.gives_nil (hp : ∀ z, Ascii (p · z)) (h : At source pos []) :
    Gives source pos (readWhile source p) ([], []) := by
  refine ⟨pos, readWhile_stop ?_, h⟩
  rw [h.byteAt_eq]
  exact (hp _).seen []

theorem At.gives_stop (hp : ∀ z, Ascii (p · z)) (h : At source pos (c :: cs))
    (hc : p c (seen cs) = false) : Gives source pos (readWhile source p) ([], c :: cs) :=
  ⟨pos, readWhile_stop ((h.class_eq hp).trans hc), h⟩

theorem At.gives_cons {run : List Char × List Char} (hp : ∀ z, Ascii (p · z))
    (h : At source pos (c :: cs)) (hc : p c (seen cs) = true)
    (hrun : ∀ next, At source next cs → Gives source next (readWhile source p) run) :
    Gives source pos (readWhile source p) (c :: run.1, run.2) := by
  obtain ⟨b, hadvance, hb, hcs⟩ := h.advance_ascii (hp _ c hc).2
  obtain ⟨next, hread, hnext⟩ := hrun (pos + 1) hcs
  refine ⟨next, ?_, hnext⟩
  rw [readWhile_step ((h.class_eq hp).trans hc) hadvance, hread, hb]
  rfl

theorem At.gives_span {p : Char → Bool} (hp : Ascii p) (h : At source pos cs) :
    Gives source pos (readWhile source fun c _ => p c) (spanClass p cs) := by
  induction cs generalizing pos with
  | nil => exact h.gives_nil fun _ => hp
  | cons c cs ih =>
    cases hc : p c with
    | true =>
      have hspan : spanClass p (c :: cs) = (c :: (spanClass p cs).1, (spanClass p cs).2) := by
        simp [spanClass, hc]
      rw [hspan]
      exact h.gives_cons (fun _ => hp) hc fun next => ih
    | false =>
      have hspan : spanClass p (c :: cs) = ([], c :: cs) := by simp [spanClass, hc]
      rw [hspan]
      exact h.gives_stop (fun _ => hp) hc

theorem ascii_isMagnitudePart (z : Char) : Ascii (isMagnitudePart · z) := by
  intro c hc
  simp only [isMagnitudePart, Bool.or_eq_true, Bool.and_eq_true, beq_iff_eq] at hc
  obtain hdigit | ⟨rfl, -⟩ := hc
  · exact ascii_isDigit c hdigit
  · decide

theorem isMagnitudePart_seen (c : Char) (cs : List Char) :
    isMagnitudePart c (seen cs) = (c.isDigit || (c == '.' && cs.head?.any Char.isDigit)) := by
  rw [isMagnitudePart, ascii_isDigit.seen]

theorem At.gives_magnitude (h : At source pos cs) :
    Gives source pos (readWhile source isMagnitudePart) (magnitudeText cs) := by
  fun_induction magnitudeText cs generalizing pos with
  | case1 => exact h.gives_nil ascii_isMagnitudePart
  | case2 c cs hc =>
    rename_i ih
    exact h.gives_cons ascii_isMagnitudePart ((isMagnitudePart_seen c cs).trans hc) fun next => ih
  | case3 c cs hc =>
    exact h.gives_stop ascii_isMagnitudePart
      ((isMagnitudePart_seen c cs).trans (Bool.eq_false_iff.2 hc))

/-! ## Units, numbers, names and colors -/

theorem At.gives_unit (h : At source pos cs) : Gives source pos (readUnit source) (unitText cs) := by
  have hpeek : readUnit source pos = (if seen cs = '%' then
      advance source >>= fun _ => pure ['%'] else readWhile source fun c _ => c.isAlpha) pos := by
    rw [← h.byteAt_eq]
    rfl
  by_cases hpercent : seen cs = '%'
  · rw [if_pos hpercent] at hpeek
    obtain ⟨cs, rfl⟩ := List.head?_eq_some_iff.1 ((seen_eq_iff (by decide)).1 hpercent)
    obtain ⟨b, hadvance, -, hcs⟩ := h.advance_ascii (by decide)
    exact ⟨pos + 1, hpeek.trans (bind_of_ok hadvance), hcs⟩
  · rw [if_neg hpercent] at hpeek
    have hunit : unitText cs = spanClass Char.isAlpha cs := by
      unfold unitText
      split
      · exact absurd rfl hpercent
      · rfl
    obtain ⟨next, hread, hnext⟩ := h.gives_span ascii_isAlpha
    rw [hunit]
    exact ⟨next, hpeek.trans hread, hnext⟩

theorem At.agrees_number (h : At source pos cs) (negative : Bool) (first : Char) :
    Agrees source pos column (readNumber source negative first column)
      (Signature.readNumber negative first cs) := by
  refine h.gives_magnitude.bind fun next hnext => hnext.gives_unit.bind fun after hafter => ?_
  rw [Signature.readNumber]
  simp only
  cases magnitude? (first :: (magnitudeText cs).1) with
  | some x => exact agrees_pure hafter _
  | none => exact agrees_refuse _

theorem At.agrees_color (h : At source pos cs) :
    Agrees source pos column (readColor source column)
      (if (spanClass isHexDigit cs).1.length = 3 ∨ (spanClass isHexDigit cs).1.length = 6 then
        .ok (.color (String.ofList (spanClass isHexDigit cs).1), (spanClass isHexDigit cs).2)
      else .error (.badColor (String.ofList (spanClass isHexDigit cs).1))) := by
  refine (h.gives_span ascii_isHexDigit).bind fun next hnext => ?_
  split
  · exact agrees_pure hnext _
  · exact agrees_refuse _

theorem At.gives_name (h : At source pos cs) (first : Char) :
    Gives source pos (readName source first)
      (String.ofList (first :: (spanClass isIdentPart cs).1), (spanClass isIdentPart cs).2) := by
  obtain ⟨next, hread, hnext⟩ := h.gives_span ascii_isIdentPart
  exact ⟨next, bind_of_ok hread, hnext⟩

/-! ## Strings -/

theorem stringBytes_end (h : source.size ≤ pos) :
    stringBytes source quote column pos = refuse column .unterminatedString pos := by
  rw [stringBytes, if_pos h]

theorem stringBytes_quote (hadvance : advance source pos = .ok (b, next)) (hb : latin b = quote) :
    stringBytes source quote column pos = .ok ([], next) := by
  rw [stringBytes, if_neg (Nat.not_le.2 (advance_eq_ok hadvance).1)]
  split <;> cases hadvance.symm.trans ‹_›
  rw [if_pos hb]

theorem stringBytes_escape {d : UInt8} {after : Nat} (hadvance : advance source pos = .ok (b, next))
    (hquote : latin b ≠ quote) (hb : latin b = '\\') (hescaped : advance source next = .ok (d, after)) :
    stringBytes source quote column pos =
      (stringBytes source quote column after).map fun r => (d :: r.1, r.2) := by
  rw [stringBytes, if_neg (Nat.not_le.2 (advance_eq_ok hadvance).1)]
  split <;> cases hadvance.symm.trans ‹_›
  rw [if_neg hquote, if_pos ⟨hb, (advance_eq_ok hescaped).1⟩]
  split <;> cases hescaped.symm.trans ‹_›
  rfl

theorem stringBytes_byte (hadvance : advance source pos = .ok (b, next)) (hquote : latin b ≠ quote)
    (hb : latin b = '\\' → source.size ≤ next) :
    stringBytes source quote column pos =
      (stringBytes source quote column next).map fun r => (b :: r.1, r.2) := by
  rw [stringBytes, if_neg (Nat.not_le.2 (advance_eq_ok hadvance).1)]
  split <;> cases hadvance.symm.trans ‹_›
  rw [if_neg hquote, if_neg fun h => Nat.not_lt.2 (hb h.1) h.2]

/-- Bytes that are neither the quote nor a backslash are taken as they are. -/
theorem stringBytes_run (h : Rest source pos (bytes ++ rest))
    (hplain : ∀ b ∈ bytes, latin b ≠ quote ∧ latin b ≠ '\\') :
    stringBytes source quote column pos =
      (stringBytes source quote column (pos + bytes.length)).map fun r => (bytes ++ r.1, r.2) := by
  induction bytes generalizing pos with
  | nil => cases stringBytes source quote column pos <;> rfl
  | cons b bytes ih =>
    obtain ⟨⟨hquote, hslash⟩, hplain⟩ := List.forall_mem_cons.1 hplain
    rw [stringBytes_byte (Rest.advance_eq h) hquote (fun hb => absurd hb hslash), ih h.tail hplain,
      List.length_cons, Nat.add_right_comm, ← Nat.add_assoc]
    cases stringBytes source quote column (pos + bytes.length + 1) <;> rfl

/-- The content of a string, as bytes. -/
def contentBytes (quote : Char) (cs : List Char) : Signature.Read (List UInt8) :=
  (stringContent quote cs).elim (.error .unterminatedString) fun r => .ok (encode r.1, r.2)

theorem encode_of_contentBytes {after : List Char} (h : contentBytes quote cs = .ok (bytes, after)) :
    ∃ content, bytes = encode content := by
  rw [contentBytes] at h
  cases hcontent : stringContent quote cs with
  | none =>
    rw [hcontent] at h
    cases h
  | some q =>
    rw [hcontent] at h
    cases h
    exact ⟨q.1, rfl⟩

theorem contentBytes_of_map {ds : List Char}
    (h : stringContent quote cs = (stringContent quote ds).map fun r => (c :: r.1, r.2)) :
    contentBytes quote cs =
      (contentBytes quote ds).map fun q => (String.utf8EncodeChar c ++ q.1, q.2) := by
  rw [contentBytes, h, contentBytes]
  cases stringContent quote ds <;> rfl

theorem Agrees.map {r' : Reader β} {g : α → β} (h : Agrees source next column r x)
    (hr : r' pos = (r next).map fun q => (g q.1, q.2)) :
    Agrees source pos column r' (x.map fun q => (g q.1, q.2)) := by
  cases x with
  | error fault =>
    rw [Agrees] at h
    rw [h] at hr
    exact hr
  | ok q =>
    obtain ⟨after, hok, hat⟩ := h
    rw [hok] at hr
    exact ⟨after, hr, hat⟩

/-- The bytes that are taken for the content of a string are those of its characters. An escape
    takes the first byte of a character, and the others follow as they are. -/
theorem At.agrees_stringBytes (h : At source pos cs) (hquote : quote.toNat < 128) (column : Nat) :
    Agrees source pos column (stringBytes source quote column) (contentBytes quote cs) := by
  have hhigh (b : UInt8) (hb : 128 ≤ b.toNat) : latin b ≠ quote ∧ latin b ≠ '\\' := by
    rw [← toNat_latin] at hb
    refine ⟨fun heq => ?_, fun heq => ?_⟩ <;> rw [heq] at hb
    · exact absurd hquote (Nat.not_lt.2 hb)
    · exact absurd hb (by decide)
  fun_induction stringContent quote cs generalizing pos with
  | case1 => exact stringBytes_end (h.size_le_iff.2 rfl)
  | case2 cs =>
    obtain ⟨b, hadvance, hb, hcs⟩ := h.advance_ascii hquote
    rw [contentBytes, stringContent_quote]
    exact ⟨pos + 1, stringBytes_quote hadvance hb, hcs⟩
  | case3 hne =>
    -- a backslash that is the last character
    obtain ⟨b, hadvance, hb, hend⟩ := h.advance_ascii (by decide)
    have hsize := hend.size_le_iff.2 rfl
    have hcontent : contentBytes quote ['\\'] = .error .unterminatedString := by
      simp [contentBytes, stringContent, hne]
    rw [hcontent, Agrees, stringBytes_byte hadvance (hb.trans_ne hne) fun _ => hsize,
      stringBytes_end hsize]
    rfl
  | case4 d ds hne ih =>
    -- only the first byte of a character is escaped
    obtain ⟨b, hadvance, hb, hds⟩ := h.advance_ascii (by decide)
    obtain ⟨first, more, henc⟩ := exists_encoded d
    rw [At, henc.encode_cons] at hds
    rw [contentBytes_of_map (stringContent_backslash hne ds), henc.bytes]
    refine (ih hds.tail.append).map ?_
    rw [stringBytes_escape hadvance (hb.trans_ne hne) hb (Rest.advance_eq hds),
      stringBytes_run hds.tail fun b hb => hhigh b (henc.later b hb)]
    cases stringBytes source quote column (pos + 1 + 1 + more.length) <;> rfl
  | case5 c cs hne hslash ih =>
    obtain ⟨first, more, henc⟩ := exists_encoded c
    have hplain : ∀ b ∈ String.utf8EncodeChar c, latin b ≠ quote ∧ latin b ≠ '\\' := by
      rw [henc.bytes]
      refine List.forall_mem_cons.2 ⟨?_, fun b hb => hhigh b (henc.later b hb)⟩
      by_cases hc : c.toNat < 128
      · rw [henc.latin_eq hc]
        exact ⟨hne, hslash⟩
      · exact hhigh first (henc.first (Nat.not_lt.1 hc))
    rw [contentBytes_of_map (stringContent_cons hne hslash cs)]
    exact (ih (Rest.append h)).map (stringBytes_run h hplain)

theorem At.agrees_string (h : At source pos cs) (hquote : quote.toNat < 128) :
    Agrees source pos column (readString source quote column)
      (match stringContent quote cs with
      | some (content, rest) => .ok (.string (String.ofList content), rest)
      | none => .error .unterminatedString) := by
  have hbytes := h.agrees_stringBytes hquote column
  rw [contentBytes] at hbytes
  cases hcontent : stringContent quote cs with
  | none =>
    rw [hcontent] at hbytes
    exact bind_of_error hbytes
  | some q =>
    rw [hcontent] at hbytes
    refine hbytes.bind fun next hnext => ?_
    simp only [fromUTF8?_encode]
    exact agrees_pure hnext _

/-! ## Tokens -/

/-- Whether two points follow is decided by the characters. -/
theorem At.points_iff (h : At source pos cs) :
    byteAt source pos = '.' ∧ byteAt source (pos + 1) = '.' ↔ cs.take 2 = ['.', '.'] := by
  rw [h.byteAt_eq, seen_eq_iff (by decide)]
  cases cs with
  | nil => simp
  | cons c cs =>
    by_cases hc : c = '.'
    · subst hc
      obtain ⟨b, -, -, hcs⟩ := h.advance_ascii (by decide)
      rw [hcs.byteAt_eq, seen_eq_iff (by decide)]
      cases cs <;> simp
    · simp [hc]

theorem At.gives_ellipsis (h : At source pos cs) (hpoints : cs.take 2 = ['.', '.']) :
    Gives source pos (advance source >>= fun _ => advance source >>= fun _ => pure .ellipsis)
      (TokenKind.ellipsis, cs.drop 2) := by
  obtain ⟨rest, rfl⟩ : ∃ rest, cs = '.' :: '.' :: rest :=
    ⟨cs.drop 2, (List.take_append_drop 2 cs).symm.trans (by rw [hpoints]; rfl)⟩
  obtain ⟨b, hfirst, -, hrest⟩ := h.advance_ascii (by decide)
  obtain ⟨b, hsecond, -, hrest⟩ := hrest.advance_ascii (by decide)
  exact ⟨pos + 1 + 1, (bind_of_ok hfirst).trans (bind_of_ok hsecond), hrest⟩

theorem At.gives_variable (h : At source pos cs) (hstart : (cs.head?.any isIdentStart) = true) :
    Gives source pos
      (advance source >>= fun first => readName source (latin first) >>= fun name =>
        pure (.variable name))
      (TokenKind.variable (String.ofList (spanClass isIdentPart cs).1),
        (spanClass isIdentPart cs).2) := by
  cases cs with
  | nil => cases hstart
  | cons c cs =>
    have hc : isIdentStart c = true := hstart
    have hspan : spanClass isIdentPart (c :: cs) =
        (c :: (spanClass isIdentPart cs).1, (spanClass isIdentPart cs).2) := by
      simp [spanClass, isIdentPart_of_isIdentStart hc]
    obtain ⟨b, hadvance, hb, hcs⟩ := h.advance_ascii (ascii_isIdentStart c hc).2
    obtain ⟨next, hname, hnext⟩ := hcs.gives_name c
    rw [hspan]
    refine ⟨next, (bind_of_ok hadvance).trans ?_, hnext⟩
    rw [hb]
    exact bind_of_ok hname

theorem At.agrees_negative (h : At source pos cs)
    (hnumber : cs.head?.any (fun d => d.isDigit || d == '.') = true) :
    Agrees source pos column
      (advance source >>= fun first => readNumber source true (latin first) column)
      (match cs with
      | d :: cs => Signature.readNumber true d cs
      | [] => .error (.unexpectedCharacter c)) := by
  cases cs with
  | nil => cases hnumber
  | cons d cs =>
    have hd : d.toNat < 128 := by
      obtain hdigit | hpoint := Bool.or_eq_true_iff.1 (show (d.isDigit || d == '.') = true from hnumber)
      · exact (ascii_isDigit d hdigit).2
      · rw [eq_of_beq hpoint]
        decide
    obtain ⟨b, hadvance, rfl, hcs⟩ := h.advance_ascii hd
    exact (hcs.agrees_number true (latin b)).of_eq (bind_of_ok hadvance)

/-- What follows an ASCII character is read as one token with it. -/
theorem At.agrees_kind (h : At source pos cs) (hc : c.toNat < 128) :
    Agrees source pos column (readKind source c column) (Signature.readToken c cs) := by
  have hstart : isIdentStart (byteAt source pos) = cs.head?.any isIdentStart := by
    rw [h.byteAt_eq, ascii_isIdentStart.seen]
  have hnumber : ((byteAt source pos).isDigit = true ∨ byteAt source pos = '.') ↔
      cs.head?.any (fun d => d.isDigit || d == '.') = true := by
    rw [h.byteAt_eq, ascii_isDigit.seen, seen_eq_iff (by decide)]
    cases cs.head? <;> simp
  refine Agrees.of_eq ?_
    ((bind_of_ok (peek_apply source pos)).trans (bind_of_ok (peekNext_apply source pos)))
  simp only [h.points_iff, hstart, hnumber]
  rw [Signature.readToken.eq_def]
  refine agrees_ite (fun _ => agrees_pure h _) fun _ => ?_
  refine agrees_ite (fun _ => agrees_pure h _) fun _ => ?_
  refine agrees_ite (fun hpoints => h.gives_ellipsis hpoints.2) fun _ => ?_
  refine agrees_ite (fun _ => agrees_ite (fun hname => h.gives_variable hname) fun _ =>
    agrees_refuse _) fun _ => ?_
  refine agrees_ite (fun _ => h.agrees_color) fun _ => ?_
  refine agrees_ite (fun _ => h.agrees_string hc) fun _ => ?_
  refine agrees_ite (fun _ => h.agrees_number false c) fun _ => ?_
  refine agrees_ite (fun hminus => h.agrees_negative hminus.2) fun _ => ?_
  refine agrees_ite (fun _ => ?_) fun _ => ?_
  · obtain ⟨next, hname, hnext⟩ := h.gives_name c
    exact ⟨next, bind_of_ok hname, hnext⟩
  · rw [shownAs_eq hc]
    exact agrees_refuse _

theorem ne_of_le (hc : 128 ≤ c.toNat) (hd : d.toNat < 128) : c ≠ d := by
  rintro rfl
  exact absurd hd (Nat.not_lt.2 hc)

/-- No character outside ASCII begins a token. -/
theorem readToken_of_le (hc : 128 ≤ c.toNat) (cs : List Char) :
    Signature.readToken c cs = .error (.unexpectedCharacter (shownAs c)) := by
  simp [Signature.readToken, ascii_isDigit.eq_false hc, ascii_isIdentStart.eq_false hc,
    ne_of_le (d := ':') hc (by decide), ne_of_le (d := ',') hc (by decide),
    ne_of_le (d := '.') hc (by decide), ne_of_le (d := '$') hc (by decide),
    ne_of_le (d := '#') hc (by decide), ne_of_le (d := '"') hc (by decide),
    ne_of_le (d := '\'') hc (by decide), ne_of_le (d := '-') hc (by decide)]

theorem readKind_of_le (hc : 128 ≤ c.toNat) :
    readKind source c column pos = refuse column (.unexpectedCharacter c) pos := by
  rw [readKind, bind_of_ok (peek_apply source pos), bind_of_ok (peekNext_apply source pos)]
  simp [ascii_isDigit.eq_false hc, ascii_isIdentStart.eq_false hc,
    ne_of_le (d := ':') hc (by decide), ne_of_le (d := ',') hc (by decide),
    ne_of_le (d := '.') hc (by decide), ne_of_le (d := '$') hc (by decide),
    ne_of_le (d := '#') hc (by decide), ne_of_le (d := '"') hc (by decide),
    ne_of_le (d := '\'') hc (by decide), ne_of_le (d := '-') hc (by decide)]

/-- One token is read alike where a character begins. -/
theorem At.agrees_token (h : At source pos (c :: cs)) :
    Agrees source pos (pos + 1) (readToken source) (Signature.readToken c cs) := by
  by_cases hc : c.toNat < 128
  · obtain ⟨b, hadvance, hb, hcs⟩ := h.advance_ascii hc
    refine (hcs.agrees_kind hc).of_eq ?_
    rw [readToken_apply, bind_of_ok hadvance, hb]
  · obtain ⟨b, more, henc⟩ := exists_encoded c
    rw [At, henc.encode_cons] at h
    have hhigh := Nat.not_lt.1 hc
    have hb : 128 ≤ (latin b).toNat := (toNat_latin b).symm ▸ henc.first hhigh
    rw [readToken_of_le hhigh, ← henc.latin_eq_shownAs, Agrees, readToken_apply,
      bind_of_ok (Rest.advance_eq h), readKind_of_le hb]
    rfl

/-! ## Whole texts -/

theorem scan_done {gap : List Char} {start : Nat}
    (hgap : readWhile source (fun c _ => isGap c) pos = .ok (gap, start))
    (hend : source.size ≤ start) : scan source pos = .ok [⟨.done, start + 1⟩] := by
  rw [scan]
  split <;> cases hgap.symm.trans ‹_›
  rw [if_pos hend]

theorem scan_error {gap : List Char} {start : Nat} {halt : Halt}
    (hgap : readWhile source (fun c _ => isGap c) pos = .ok (gap, start))
    (hlt : ¬source.size ≤ start) (hread : readToken source start = .error halt) :
    scan source pos = .error halt := by
  rw [scan]
  split <;> cases hgap.symm.trans ‹_›
  rw [if_neg hlt]
  split <;> cases hread.symm.trans ‹_›
  rfl

theorem scan_token {gap : List Char} {start : Nat} {kind : TokenKind}
    (hgap : readWhile source (fun c _ => isGap c) pos = .ok (gap, start))
    (hlt : ¬source.size ≤ start) (hread : readToken source start = .ok (kind, next)) :
    scan source pos = (scan source next).map (⟨kind, start + 1⟩ :: ·) := by
  rw [scan]
  split <;> cases hgap.symm.trans ‹_›
  rw [if_neg hlt]
  split <;> cases hread.symm.trans ‹_›
  rfl

/-- From where a character begins, bytes are divided as characters are. -/
theorem At.scan_eq (h : At source pos cs) :
    scan source pos = (Signature.scan source.size cs).mapError .refused := by
  obtain ⟨start, hgap, hstart⟩ := h.gives_span ascii_isGap
  fun_induction Signature.scan source.size cs generalizing pos start with
  | case1 cs hcs =>
    rw [spanClass, hcs] at hstart
    rw [scan_done hgap (hstart.size_le_iff.2 rfl), hstart.size]
    rfl
  | case2 cs c rest hcs =>
    rename_i column fault hread
    replace hstart : At source start (c :: rest) := hcs ▸ hstart
    have hlt : ¬source.size ≤ start := fun hle => by cases hstart.size_le_iff.1 hle
    have htoken := hstart.agrees_token
    rw [hread] at htoken
    have hcolumn : column = start + 1 := by
      simp only [column, hstart.size, Nat.add_sub_cancel]
    rw [scan_error hgap hlt htoken, hcolumn]
    rfl
  | case3 cs c rest hcs =>
    rename_i column kind after hread ih
    replace hstart : At source start (c :: rest) := hcs ▸ hstart
    have hlt : ¬source.size ≤ start := fun hle => by cases hstart.size_le_iff.1 hle
    have htoken := hstart.agrees_token
    rw [hread] at htoken
    obtain ⟨next, htoken, hnext⟩ := htoken
    obtain ⟨start', hgap', hstart'⟩ := hnext.gives_span ascii_isGap
    have hcolumn : column = start + 1 := by
      simp only [column, hstart.size, Nat.add_sub_cancel]
    rw [scan_token hgap hlt htoken, ih hnext start' hgap' hstart', hcolumn]
    cases Signature.scan source.size after <;> rfl

/-- The bytes of every text are divided as its characters are. No byte is taken that is not
    there, and no content is anything but text. -/
theorem tokens_eq (text : String) : tokens text = (Signature.tokens text).mapError .refused := by
  have h := at_toUTF8 text
  have hsize : text.toUTF8.size = byteCount text.toList := by
    simpa using h.size
  rw [tokens, h.scan_eq, hsize, Signature.tokens]

/-- A text that is not divided is refused, and stops for no other reason. -/
theorem exists_refused {text : String} {halt : Halt} (h : tokens text = .error halt) :
    ∃ e, halt = .refused e := by
  rw [tokens_eq] at h
  cases htokens : Signature.tokens text with
  | error e =>
    rw [htokens] at h
    exact ⟨e, (Except.error.inj h).symm⟩
  | ok ts =>
    rw [htokens] at h
    cases h

end StyleScript.Signature.Bytewise
