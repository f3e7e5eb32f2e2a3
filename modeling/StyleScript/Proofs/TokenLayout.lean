-- SUMMARY: Where the tokens of a text stand, and that gaps between them do not matter.
import Mathlib.Data.List.TakeWhile
import StyleScript.Proofs.Lookahead
import StyleScript.Proofs.StringLiterals

/-!
# The layout of tokens

A text that is divided is its lexemes, one for each token, with a gap before each and after the
last. Nothing else is in it: columns are found by counting the bytes, and another text with the
same lexemes and wider gaps is divided into the same kinds of tokens.

Main statement: every text that is divided is laid out like this, and no division takes a byte
that is not there.
-/

namespace StyleScript.Signature

variable {total offset : Nat} {c : Char} {cs gap last last' rest rest' : List Char} {kind : TokenKind}
  {ts : List Token}

/-! ## Layouts -/

/-- A lexeme with the kind of its token, and the gap before it. -/
structure Piece where
  gap : List Char
  lexeme : List Char
  kind : TokenKind

/-- The text of pieces, with the gap after the last one. -/
def layout : List Piece → List Char → List Char
  | [], last => last
  | p :: ps, last => p.gap ++ (p.lexeme ++ layout ps last)

/-- The tokens of pieces, of which the first gap begins at an offset. -/
def placed (offset : Nat) : List Piece → List Char → List Token
  | [], last => [⟨.done, offset + byteCount last + 1⟩]
  | p :: ps, last =>
    let start := offset + byteCount p.gap
    ⟨p.kind, start + 1⟩ :: placed (start + byteCount p.lexeme) ps last

/-- Characters that separate tokens, and no others. -/
def IsGaps (gap : List Char) : Prop := ∀ c ∈ gap, isGap c = true

/-- The lexeme is all that is taken for the token when the rest of a text follows. -/
def Piece.IsRead (p : Piece) (rest : List Char) : Prop :=
  ∃ c cs, p.lexeme = c :: cs ∧ isGap c = false ∧ readToken c (cs ++ rest) = .ok (p.kind, rest)

/-- Pieces in which each lexeme is read before what follows it. -/
inductive Divided : List Piece → List Char → Prop where
  | last {last : List Char} (hlast : IsGaps last) : Divided [] last
  | cons {p : Piece} {ps : List Piece} {last : List Char} (hgap : IsGaps p.gap)
      (hread : p.IsRead (layout ps last)) (h : Divided ps last) : Divided (p :: ps) last

variable {p p' : Piece} {ps ps' : List Piece}

/-! ## Texts that are divided -/

theorem byteCount_append (cs cs' : List Char) : byteCount (cs ++ cs') = byteCount cs + byteCount cs' := by
  simp only [← Bytewise.length_encode, Bytewise.encode, List.flatMap_append, List.length_append]

theorem IsGaps.dropWhile (h : IsGaps gap) (rest : List Char) :
    (gap ++ rest).dropWhile isGap = rest.dropWhile isGap :=
  List.dropWhile_append_of_pos h

/-- Pieces are divided at their places. -/
theorem Divided.scan (h : Divided ps last) (htotal : total = offset + byteCount (layout ps last)) :
    scan total (layout ps last) = .ok (placed offset ps last) := by
  induction h generalizing offset with
  | @last last hlast =>
    have hdrop : last.dropWhile isGap = [] := List.dropWhile_eq_nil_iff.2 hlast
    rw [scan_eq, layout, hdrop, htotal]
    rfl
  | @cons p ps last hgap hread h ih =>
    obtain ⟨c, cs, hlexeme, hc, hread⟩ := hread
    have hdrop : (layout (p :: ps) last).dropWhile isGap = c :: (cs ++ layout ps last) := by
      rw [layout, hgap.dropWhile, hlexeme, List.cons_append, List.dropWhile_cons_of_neg (by simp [hc])]
    have hbytes : byteCount (layout (p :: ps) last) =
        byteCount p.gap + byteCount (c :: (cs ++ layout ps last)) := by
      rw [layout, byteCount_append, hlexeme]
      rfl
    have hlexemeBytes : byteCount (c :: (cs ++ layout ps last)) =
        byteCount p.lexeme + byteCount (layout ps last) := by
      rw [hlexeme, ← byteCount_append]
      rfl
    have hrest : total =
        offset + byteCount p.gap + byteCount p.lexeme + byteCount (layout ps last) := by
      omega
    have hcolumn : total - byteCount (c :: (cs ++ layout ps last)) = offset + byteCount p.gap := by
      omega
    rw [scan_eq, hdrop]
    simp only [hread, hcolumn]
    rw [ih hrest]
    rfl

/-- A text that is divided is made of pieces. -/
theorem exists_divided (h : scan total cs = .ok ts) :
    ∃ ps last, cs = layout ps last ∧ Divided ps last := by
  fun_induction Signature.scan total cs generalizing ts with
  | case1 cs hcs => exact ⟨[], cs, rfl, .last (List.dropWhile_eq_nil_iff.1 hcs)⟩
  | case2 => cases h
  | case3 cs c rest hcs =>
    rename_i column kind after hread ih
    cases hscan : Signature.scan total after with
    | error e =>
      rw [hscan] at h
      cases h
    | ok others =>
      obtain ⟨ps, last, rfl, hdivided⟩ := ih hscan
      obtain ⟨taken, rfl, -⟩ := readToken_softer hread
      refine ⟨⟨cs.takeWhile isGap, c :: taken, kind⟩ :: ps, last, ?_, .cons ?_ ?_ hdivided⟩
      · rw [layout, List.cons_append, ← hcs, List.takeWhile_append_dropWhile]
      · exact List.all_eq_true.1 List.all_takeWhile
      · refine ⟨c, taken, rfl, ?_, hread⟩
        have hhead := List.head?_dropWhile_not isGap cs
        rw [hcs] at hhead
        exact hhead

/-! ## Columns -/

theorem byteCount_pos (h : cs ≠ []) : 0 < byteCount cs := by
  cases cs with
  | nil => exact absurd rfl h
  | cons c cs => exact Nat.add_pos_left c.utf8Size_pos _

theorem Divided.lt_column (h : Divided ps last) : ∀ t ∈ placed offset ps last, offset < t.column := by
  induction h generalizing offset with
  | last =>
    rintro t ht
    obtain rfl := List.mem_singleton.1 ht
    exact Nat.lt_succ_of_le (Nat.le_add_right _ _)
  | @cons p ps last hgap hread h ih =>
    refine List.forall_mem_cons.2 ⟨?_, fun t ht => ?_⟩
    · exact Nat.lt_succ_of_le (Nat.le_add_right _ _)
    · have hlt := ih t ht
      omega

/-- Columns increase, since there is no lexeme without a byte. -/
theorem Divided.pairwise (h : Divided ps last) :
    (placed offset ps last).Pairwise (·.column < ·.column) := by
  induction h generalizing offset with
  | last => exact List.pairwise_singleton _ _
  | @cons p ps last hgap hread h ih =>
    refine List.pairwise_cons.2 ⟨fun t ht => ?_, ih⟩
    obtain ⟨c, cs, hlexeme, -⟩ := hread
    have hbyte : 0 < byteCount p.lexeme := byteCount_pos (hlexeme ▸ List.cons_ne_nil c cs)
    have hlt := h.lt_column t ht
    simp only
    omega

/-- The last token says that the text is done, and behind it there are no more bytes. -/
theorem placed_eq_append (offset : Nat) (ps : List Piece) (last : List Char) :
    ∃ ts, placed offset ps last = ts ++ [⟨.done, offset + byteCount (layout ps last) + 1⟩] ∧
      kinds ts = ps.map (·.kind) := by
  induction ps generalizing offset with
  | nil => exact ⟨[], rfl, rfl⟩
  | cons p ps ih =>
    obtain ⟨ts, hts, hkinds⟩ := ih (offset + byteCount p.gap + byteCount p.lexeme)
    refine ⟨⟨p.kind, offset + byteCount p.gap + 1⟩ :: ts, ?_, congrArg (p.kind :: ·) hkinds⟩
    rw [placed, hts, layout, byteCount_append, byteCount_append, List.cons_append, ← Nat.add_assoc,
      ← Nat.add_assoc]

theorem kinds_placed (offset : Nat) (ps : List Piece) (last : List Char) :
    kinds (placed offset ps last) = ps.map (·.kind) ++ [.done] := by
  obtain ⟨ts, hts, hkinds⟩ := placed_eq_append offset ps last
  rw [hts, kinds, List.map_append, ← kinds, hkinds]
  rfl

theorem readNumber_ne_done {negative : Bool} {r : TokenKind × List Char}
    (h : readNumber negative c cs = .ok r) : r.1 ≠ .done := by
  unfold readNumber at h
  simp only at h
  split at h
  · cases h
    rintro ⟨⟩
  · cases h

/-- No token that is read says that the text is done. -/
theorem readToken_ne_done {r : TokenKind × List Char} (h : readToken c cs = .ok r) : r.1 ≠ .done := by
  revert h
  fun_cases readToken c cs
  case case10 => exact readNumber_ne_done
  case case11 => exact readNumber_ne_done
  all_goals rintro ⟨⟩ ⟨⟩

theorem Divided.kind_ne_done (h : Divided ps last) : ∀ p ∈ ps, p.kind ≠ .done := by
  induction h with
  | last => exact List.forall_mem_nil _
  | cons hgap hread h ih =>
    obtain ⟨c, cs, -, -, hread⟩ := hread
    exact List.forall_mem_cons.2 ⟨readToken_ne_done hread, ih⟩

/-! ## Wider gaps -/

/-- The same lexeme after a gap into which more is put. -/
structure Piece.Widens (p p' : Piece) : Prop where
  lexeme : p'.lexeme = p.lexeme
  kind : p'.kind = p.kind
  gap : p.gap.Sublist p'.gap
  isGaps : IsGaps p'.gap

theorem IsGaps.softer (h : IsGaps gap) (hne : gap ≠ []) (rest rest' : List Char) :
    Softer rest (gap ++ rest') := by
  refine softer_of_isGap fun d hd => ?_
  cases gap with
  | nil => exact absurd rfl hne
  | cons c gap =>
    obtain rfl : c = d := Option.some.inj hd
    exact h c List.mem_cons_self

/-- A lexeme is read before any text that ends it in the same way. -/
theorem Piece.IsRead.again (h : p.IsRead rest) (hsofter : Softer rest rest') : p.IsRead rest' := by
  obtain ⟨c, cs, hlexeme, hc, hread⟩ := h
  obtain ⟨taken, htaken, -, hagain⟩ := readToken_softer hread
  obtain rfl := List.append_cancel_right htaken
  exact ⟨c, cs, hlexeme, hc, hagain rest' hsofter⟩

/-- What begins with a lexeme ends another one as the lexeme alone does. -/
theorem Piece.IsRead.softer (h : p.IsRead rest) (rest' : List Char) :
    Softer (p.lexeme ++ rest) (p.lexeme ++ rest') := by
  obtain ⟨c, cs, hlexeme, -, hread⟩ := h
  obtain ⟨taken, htaken, hpoint, -⟩ := readToken_softer hread
  obtain rfl := List.append_cancel_right htaken
  rw [hlexeme]
  refine ⟨fun d hd => .inr hd, fun t' heq => ?_⟩
  obtain ⟨hc, rfl⟩ := List.cons.inj heq
  refine ⟨cs ++ rest, by rw [hc, List.cons_append], ?_⟩
  change (cs ++ rest').head? = (cs ++ rest).head?
  rw [List.head?_append_of_ne_nil cs (hpoint hc), List.head?_append_of_ne_nil cs (hpoint hc)]

theorem Piece.IsRead.widen (h : p.IsRead rest) (hp : p.Widens p') : p'.IsRead rest := by
  obtain ⟨c, cs, hlexeme, hc, hread⟩ := h
  exact ⟨c, cs, hp.lexeme.trans hlexeme, hc, hp.kind ▸ hread⟩

theorem Divided.softer (h : Divided ps last) (hps : List.Forall₂ Piece.Widens ps ps')
    (hlast : IsGaps last') : Softer (layout ps last) (layout ps' last') := by
  cases hps with
  | nil => exact softer_of_isGap fun d hd => hlast d (List.mem_of_mem_head? hd)
  | @cons p p' ps ps' hp hps =>
    cases h with
    | cons hgap hread h =>
      by_cases hempty : p'.gap = []
      · have hgap' : p.gap = [] := List.sublist_nil.1 (hempty ▸ hp.gap)
        rw [layout, layout, hempty, hgap', hp.lexeme]
        exact hread.softer _
      · exact hp.isGaps.softer hempty _ _

/-- With wider gaps the same lexemes are read. -/
theorem Divided.widen (h : Divided ps last) (hps : List.Forall₂ Piece.Widens ps ps')
    (hlast : IsGaps last') : Divided ps' last' := by
  induction h generalizing ps' with
  | last =>
    cases hps
    exact .last hlast
  | @cons p ps last hgap hread h ih =>
    cases hps with
    | cons hp hps =>
      have hagain := hread.again (h.softer hps hlast)
      exact .cons hp.isGaps (hagain.widen hp) (ih hps)

theorem map_kind_of_widens (hps : List.Forall₂ Piece.Widens ps ps') :
    ps'.map (·.kind) = ps.map (·.kind) := by
  induction hps with
  | nil => rfl
  | cons hp _ ih => rw [List.map_cons, List.map_cons, hp.kind, ih]

/-! ## All texts -/

theorem bytewise_tokens_eq_ok {text : String} :
    Bytewise.tokens text = .ok ts ↔ tokens text = .ok ts := by
  rw [Bytewise.tokens_eq]
  cases tokens text <;> simp [Except.mapError]

/-- A divided layout has the tokens of its pieces. -/
theorem Divided.tokens_ofList (h : Divided ps last) :
    Bytewise.tokens (String.ofList (layout ps last)) = .ok (placed 0 ps last) := by
  rw [bytewise_tokens_eq_ok, tokens, String.toList_ofList]
  exact h.scan (Nat.zero_add _).symm

/-- The bytes of every text are divided as its characters are, and none is taken that is not
    there. A text that is divided is laid out as lexemes and gaps. Its tokens are those of the
    lexemes, at the columns of their first bytes, and one at the end that is the only one to say
    so. Gaps can be widened, and put where there are none, without changing the kinds of the
    tokens. -/
theorem tokens_laid_out (text : String) :
    Bytewise.tokens text = (tokens text).mapError .refused ∧
    (∀ position, Bytewise.tokens text ≠ .error (.outside position)) ∧
    ∀ ts, Bytewise.tokens text = .ok ts →
      ∃ ps last, text.toList = layout ps last ∧ Divided ps last ∧ ts = placed 0 ps last ∧
        ts.Pairwise (·.column < ·.column) ∧
        (∀ t ∈ ts.dropLast, t.kind ≠ .done) ∧
        ts.getLast? = some ⟨.done, text.utf8ByteSize + 1⟩ ∧
        ∀ ps' last', List.Forall₂ Piece.Widens ps ps' → IsGaps last' →
          ∃ ts', Bytewise.tokens (String.ofList (layout ps' last')) = .ok ts' ∧
            kinds ts' = kinds ts := by
  refine ⟨Bytewise.tokens_eq text, fun position houtside => ?_, fun ts hts => ?_⟩
  · obtain ⟨e, he⟩ := Bytewise.exists_refused houtside
    cases he
  · have hscan : scan (byteCount text.toList) text.toList = .ok ts := bytewise_tokens_eq_ok.1 hts
    obtain ⟨ps, last, htext, hdivided⟩ := exists_divided hscan
    have hlaid := hdivided.tokens_ofList
    rw [← htext, String.ofList_toList] at hlaid
    obtain rfl : ts = placed 0 ps last := Except.ok.inj (hts.symm.trans hlaid)
    obtain ⟨others, hothers, hkinds⟩ := placed_eq_append 0 ps last
    refine ⟨ps, last, htext, hdivided, rfl, hdivided.pairwise, fun t ht => ?_, ?_,
      fun ps' last' hps hlast => ?_⟩
    · rw [hothers, List.dropLast_concat] at ht
      have hkind : t.kind ∈ ps.map (·.kind) := hkinds ▸ List.mem_map_of_mem ht
      obtain ⟨p, hp, hsame⟩ := List.mem_map.1 hkind
      exact hsame ▸ hdivided.kind_ne_done p hp
    · rw [hothers, List.getLast?_concat, ← htext, byteCount_eq_utf8ByteSize, Nat.zero_add]
    · refine ⟨_, (hdivided.widen hps hlast).tokens_ofList, ?_⟩
      rw [kinds_placed, kinds_placed, map_kind_of_widens hps]

end StyleScript.Signature
