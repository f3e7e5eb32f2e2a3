-- SUMMARY: The bytes of characters, and what is seen of characters in the bytes of a text.
import StyleScript.Proofs.Lexemes
import StyleScript.Signature.Bytewise

/-!
# Bytes of characters

A character is its first byte and those that go on with it. One of ASCII has only the first, and
of any other one every byte is outside of ASCII. So from a position where a character begins, a
character of ASCII is seen exactly where it stands, and no class of tokens holds anything else.
-/

namespace StyleScript.Signature.Bytewise

variable {source : ByteArray} {pos : Nat} {b : UInt8} {bytes rest more : List UInt8} {c d : Char}
  {cs : List Char}

/-! ## The bytes of characters -/

/-- A character and its bytes, of which all but the first go on with it. -/
structure Encoded (c : Char) (b : UInt8) (more : List UInt8) : Prop where
  bytes : String.utf8EncodeChar c = b :: more
  ascii : c.toNat < 128 → b.toNat = c.toNat ∧ more = []
  first : 128 ≤ c.toNat → 128 ≤ b.toNat
  later : ∀ d ∈ more, 128 ≤ d.toNat

theorem encoded_of_le (hc : 128 ≤ c.toNat) (hbytes : String.utf8EncodeChar c = b :: more)
    (hhigh : ∀ d ∈ b :: more, 128 ≤ d.toNat) : Encoded c b more where
  bytes := hbytes
  ascii hlow := absurd hlow (Nat.not_lt.2 hc)
  first _ := hhigh b List.mem_cons_self
  later := (List.forall_mem_cons.1 hhigh).2

theorem exists_encoded (c : Char) : ∃ b more, Encoded c b more := by
  have hval : c.val.toNat = c.toNat := rfl
  by_cases hone : c.toNat ≤ 0x7f
  · have hbytes : String.utf8EncodeChar c = [UInt8.ofNat c.toNat] := by
      simp only [String.utf8EncodeChar, hval, if_pos hone]
    have hbyte : (UInt8.ofNat c.toNat).toNat = c.toNat := by
      rw [UInt8.toNat_ofNat']
      omega
    exact ⟨_, _, hbytes, fun _ => ⟨hbyte, rfl⟩, fun h => by omega, nofun⟩
  -- otherwise each of the bytes has its highest bit set
  have hhigh : 128 ≤ c.toNat := by omega
  by_cases htwo : c.toNat ≤ 0x7ff
  · refine ⟨_, _, encoded_of_le hhigh (by
      simp only [String.utf8EncodeChar, hval, if_neg hone, if_pos htwo]; rfl) ?_⟩
    simp
    omega
  by_cases hthree : c.toNat ≤ 0xffff
  · refine ⟨_, _, encoded_of_le hhigh (by
      simp only [String.utf8EncodeChar, hval, if_neg hone, if_neg htwo, if_pos hthree]; rfl) ?_⟩
    simp
    omega
  · refine ⟨_, _, encoded_of_le hhigh (by
      simp only [String.utf8EncodeChar, hval, if_neg hone, if_neg htwo, if_neg hthree]; rfl) ?_⟩
    simp
    omega

@[simp] theorem toNat_latin (b : UInt8) : (latin b).toNat = b.toNat := by
  have hvalid : b.toNat.isValidChar := .inl (Nat.lt_of_lt_of_le b.toNat_lt (by decide))
  rw [latin, Char.ofNat, dif_pos hvalid]
  rfl

theorem Encoded.latin_eq_shownAs (h : Encoded c b more) : latin b = shownAs c := by
  rw [shownAs, h.bytes]
  rfl

theorem Encoded.latin_eq (h : Encoded c b more) (hc : c.toNat < 128) : latin b = c :=
  Char.toNat_inj.1 ((toNat_latin b).trans (h.ascii hc).1)

/-- The bytes of characters. -/
def encode (cs : List Char) : List UInt8 := cs.flatMap String.utf8EncodeChar

theorem Encoded.encode_cons (h : Encoded c b more) (cs : List Char) :
    encode (c :: cs) = b :: (more ++ encode cs) := by
  rw [encode, List.flatMap_cons, h.bytes]
  rfl

theorem length_encode (cs : List Char) : (encode cs).length = byteCount cs := by
  induction cs with
  | nil => rfl
  | cons c cs ih =>
    rw [encode, List.flatMap_cons, List.length_append, String.length_utf8EncodeChar, ← encode, ih]
    rfl

/-- The bytes of characters are always a text. -/
theorem isValidUTF8_encode (cs : List Char) : (encode cs).toByteArray.IsValidUTF8 :=
  ByteArray.isValidUTF8_utf8Encode

theorem fromUTF8?_encode (cs : List Char) :
    String.fromUTF8? (encode cs).toByteArray = some (String.ofList cs) := by
  rw [String.fromUTF8?, dif_pos (isValidUTF8_encode cs)]
  rfl

/-! ## What stands at a position -/

/-- The bytes from a position on. -/
def Rest (source : ByteArray) (pos : Nat) (bytes : List UInt8) : Prop :=
  ∃ before, source.data.toList = before ++ bytes ∧ before.length = pos

/-- The characters from a position on, where one begins. -/
def At (source : ByteArray) (pos : Nat) (cs : List Char) : Prop := Rest source pos (encode cs)

theorem at_toUTF8 (text : String) : At text.toUTF8 0 text.toList := by
  refine ⟨[], ?_, rfl⟩
  rw [String.toUTF8_eq_toByteArray, ← String.utf8Encode_toList, List.utf8Encode,
    List.toList_data_toByteArray, List.nil_append, encode]

theorem Rest.size (h : Rest source pos bytes) : source.size = pos + bytes.length := by
  obtain ⟨before, hsource, rfl⟩ := h
  rw [← ByteArray.size_data, ← Array.length_toList, hsource, List.length_append]

theorem Rest.tail (h : Rest source pos (b :: bytes)) : Rest source (pos + 1) bytes := by
  obtain ⟨before, hsource, rfl⟩ := h
  exact ⟨before ++ [b], by simp [hsource], by simp⟩

theorem Rest.append (h : Rest source pos (bytes ++ rest)) : Rest source (pos + bytes.length) rest := by
  obtain ⟨before, hsource, rfl⟩ := h
  exact ⟨before ++ bytes, by simp [hsource], by simp⟩

theorem Rest.getElem (h : Rest source pos (b :: bytes)) (hlt : pos < source.size) :
    source[pos] = b := by
  obtain ⟨before, hsource, rfl⟩ := h
  rw [ByteArray.getElem_eq_getElem_data, ← Array.getElem_toList]
  simp [hsource]

theorem Rest.lt (h : Rest source pos (b :: bytes)) : pos < source.size := by
  rw [h.size]
  exact Nat.lt_add_of_pos_right (Nat.succ_pos _)

theorem Rest.byteAt_eq (h : Rest source pos (b :: bytes)) : byteAt source pos = latin b := by
  rw [byteAt, dif_pos h.lt, h.getElem]

theorem Rest.advance_eq (h : Rest source pos (b :: bytes)) :
    advance source pos = .ok (b, pos + 1) := by
  rw [advance, dif_pos h.lt, h.getElem]

theorem At.size (h : At source pos cs) : source.size = pos + byteCount cs := by
  rw [Rest.size h, length_encode]

theorem At.size_le_iff (h : At source pos cs) : source.size ≤ pos ↔ cs = [] := by
  cases cs with
  | nil => simp [h.size, byteCount]
  | cons c cs =>
    have hpos : 0 < c.utf8Size := c.utf8Size_pos
    simp [h.size, byteCount]
    omega

/-! ## What is seen -/

/-- What is seen of characters. -/
def seen : List Char → Char
  | [] => '\x00'
  | c :: _ => shownAs c

theorem At.byteAt_eq (h : At source pos cs) : byteAt source pos = seen cs := by
  cases cs with
  | nil => rw [byteAt, dif_neg (Nat.not_lt.2 (h.size_le_iff.2 rfl))]; rfl
  | cons c cs =>
    obtain ⟨b, more, hc⟩ := exists_encoded c
    rw [At, hc.encode_cons] at h
    rw [Rest.byteAt_eq h, hc.latin_eq_shownAs]
    rfl

theorem shownAs_eq (hc : c.toNat < 128) : shownAs c = c := by
  obtain ⟨b, more, h⟩ := exists_encoded c
  rw [← h.latin_eq_shownAs, h.latin_eq hc]

theorem le_toNat_shownAs (hc : 128 ≤ c.toNat) : 128 ≤ (shownAs c).toNat := by
  obtain ⟨b, more, h⟩ := exists_encoded c
  rw [← h.latin_eq_shownAs, toNat_latin]
  exact h.first hc

/-- An ASCII character is taken as its one byte. -/
theorem At.advance_ascii (h : At source pos (c :: cs)) (hc : c.toNat < 128) :
    ∃ b, advance source pos = .ok (b, pos + 1) ∧ latin b = c ∧ At source (pos + 1) cs := by
  obtain ⟨b, more, henc⟩ := exists_encoded c
  rw [At, henc.encode_cons, (henc.ascii hc).2] at h
  exact ⟨b, Rest.advance_eq h, henc.latin_eq hc, h.tail⟩

/-- A class of ASCII characters, of which the zero that stands for the end is none. -/
def Ascii (p : Char → Bool) : Prop := ∀ c, p c = true → 0 < c.toNat ∧ c.toNat < 128

theorem Ascii.eq_false {p : Char → Bool} (hp : Ascii p) (hc : 128 ≤ c.toNat) : p c = false :=
  Bool.eq_false_iff.2 fun h => absurd (hp c h).2 (Nat.not_lt.2 hc)

theorem Ascii.seen {p : Char → Bool} (hp : Ascii p) (cs : List Char) :
    p (seen cs) = cs.head?.any p := by
  cases cs with
  | nil => exact Bool.eq_false_iff.2 fun h => absurd (hp _ h).1 (by decide)
  | cons c cs =>
    change p (shownAs c) = p c
    by_cases hc : c.toNat < 128
    · rw [shownAs_eq hc]
    · have hhigh := Nat.not_lt.1 hc
      rw [hp.eq_false (le_toNat_shownAs hhigh), hp.eq_false hhigh]

theorem ascii_eq (hd : 0 < d.toNat ∧ d.toNat < 128) : Ascii (· == d) := by
  intro c hc
  rwa [eq_of_beq hc]

/-- A character of tokens is seen exactly where it stands. -/
theorem seen_eq_iff (hd : 0 < d.toNat ∧ d.toNat < 128) : seen cs = d ↔ cs.head? = some d := by
  rw [← beq_iff_eq, (ascii_eq hd).seen]
  cases cs.head? <;> simp

theorem Ascii.mono {p q : Char → Bool} (hq : Ascii q) (h : ∀ c, p c = true → q c = true) : Ascii p :=
  fun c hc => hq c (h c hc)

theorem ascii_isIdentPart : Ascii isIdentPart := by
  intro c hc
  simp only [isIdentPart_iff, isAlpha_iff, Char.isDigit_iff_toNat, Char.le_def,
    UInt32.le_iff_toNat_le, Char.toNat_val, Char.reduceToNat] at hc
  obtain halpha | hdigit | rfl | rfl := hc
  · omega
  · omega
  · decide
  · decide

theorem ascii_isIdentStart : Ascii isIdentStart :=
  ascii_isIdentPart.mono fun _ => isIdentPart_of_isIdentStart

theorem ascii_isHexDigit : Ascii isHexDigit :=
  ascii_isIdentPart.mono fun _ => isIdentPart_of_isHexDigit

theorem ascii_isDigit : Ascii Char.isDigit :=
  ascii_isIdentPart.mono fun _ h => isIdentPart_iff.2 (.inr (.inl h))

theorem ascii_isAlpha : Ascii Char.isAlpha :=
  ascii_isIdentPart.mono fun _ h => isIdentPart_iff.2 (.inl h)

theorem ascii_isGap : Ascii isGap := by
  intro c hc
  simp only [isGap, Bool.or_eq_true, beq_iff_eq] at hc
  obtain (((rfl | rfl) | rfl) | rfl) | rfl := hc <;> decide

end StyleScript.Signature.Bytewise
