-- SUMMARY: What a token depends on of the text behind it.
import StyleScript.Proofs.Lexemes

/-!
# Looking ahead

A reader takes a start of the text, and looks at one or two characters behind it to see that it
ends there. A gap ends everything, so a token stays what it is when a gap comes between it and
what follows. Of a point the readers look at what is behind it too: with two more it is one token,
with a digit it goes on with a number.

Main statement: what is read as a token is read so again before any text that ends it like this.
-/

namespace StyleScript.Signature

variable {c d : Char} {cs mid start rest rest' t : List Char} {kind : TokenKind}
  {p : Char → Bool}

/-- After the second text a token ends where it ends after the first: there is nothing, a gap or
    the same character, and if this is a point the one behind it is the same as well. -/
structure Softer (rest rest' : List Char) : Prop where
  head : ∀ d ∈ rest'.head?, isGap d = true ∨ rest.head? = some d
  point : ∀ t', rest' = '.' :: t' → ∃ t, rest = '.' :: t ∧ t'.head? = t.head?

theorem softer_of_isGap (h : ∀ d ∈ rest'.head?, isGap d = true) : Softer rest rest' where
  head d hd := .inl (h d hd)
  point t' heq := by
    subst heq
    cases h '.' rfl

/-- The same characters before the texts, unless this is a point. -/
theorem Softer.append (h : Softer rest rest') (ht : t.head? ≠ some '.') :
    Softer (t ++ rest) (t ++ rest') := by
  cases t with
  | nil => exact h
  | cons c t =>
    refine ⟨fun d hd => .inr hd, fun t' heq => ?_⟩
    rw [(List.cons.inj heq).1] at ht
    exact absurd rfl ht

theorem Softer.head_eq_false (h : Softer rest rest') (hp : ∀ d, isGap d = true → p d = false)
    (hrest : ∀ d ∈ rest.head?, p d = false) : ∀ d ∈ rest'.head?, p d = false := fun d hd =>
  (h.head d hd).elim (hp d) fun hsame => hrest d hsame

/-! ## Runs -/

theorem spanClass_softer (hp : ∀ d, isGap d = true → p d = false) (cs : List Char) :
    cs = (spanClass p cs).1 ++ (spanClass p cs).2 ∧
      ∀ rest', Softer (spanClass p cs).2 rest' →
        spanClass p ((spanClass p cs).1 ++ rest') = ((spanClass p cs).1, rest') := by
  refine ⟨List.takeWhile_append_dropWhile.symm, fun rest' hsofter => ?_⟩
  refine spanClass_append (List.all_eq_true.1 List.all_takeWhile) (hsofter.head_eq_false hp ?_)
  intro d hd
  have hstop := List.head?_dropWhile_not p cs
  have hdrop : (cs.dropWhile p).head? = some d := hd
  rwa [hdrop] at hstop

theorem isIdentPart_of_isGap (h : isGap c = true) : isIdentPart c = false := by
  simp only [isGap, Bool.or_eq_true, beq_iff_eq] at h
  obtain (((rfl | rfl) | rfl) | rfl) | rfl := h <;> rfl

theorem isHexDigit_of_isGap (h : isGap c = true) : isHexDigit c = false :=
  Bool.eq_false_iff.2 fun hhex =>
    Bool.false_ne_true ((isIdentPart_of_isGap h).symm.trans (isIdentPart_of_isHexDigit hhex))

theorem isAlpha_of_isGap (h : isGap c = true) : c.isAlpha = false :=
  Bool.eq_false_iff.2 fun halpha =>
    Bool.false_ne_true ((isIdentPart_of_isGap h).symm.trans (isIdentPart_iff.2 (.inl halpha)))

theorem isDigit_of_isGap (h : isGap c = true) : c.isDigit = false :=
  Bool.eq_false_iff.2 fun hdigit =>
    Bool.false_ne_true ((isIdentPart_of_isGap h).symm.trans (isIdentPart_iff.2 (.inr (.inl hdigit))))

/-! ## Numbers -/

/-- Whether the digits of a number go on. -/
def digitsGoOn : List Char → Bool
  | [] => false
  | c :: cs => c.isDigit || (c == '.' && cs.head?.any Char.isDigit)

theorem magnitudeText_stop (h : digitsGoOn cs = false) : magnitudeText cs = ([], cs) := by
  cases cs with
  | nil => rfl
  | cons c cs => exact if_neg (Bool.eq_false_iff.1 h)

theorem magnitudeText_cons (h : digitsGoOn (c :: cs) = true) :
    magnitudeText (c :: cs) = (c :: (magnitudeText cs).1, (magnitudeText cs).2) :=
  if_pos h

/-- Digits go on by characters that are taken with them. -/
theorem digitsGoOn_append (h : digitsGoOn (c :: cs) = true) (rest' : List Char) :
    digitsGoOn (c :: ((magnitudeText cs).1 ++ rest')) = true := by
  obtain hdigit | hpoint := Bool.or_eq_true_iff.1 h
  · simp [digitsGoOn, hdigit]
  · obtain ⟨hc, hhead⟩ := Bool.and_eq_true_iff.1 hpoint
    cases cs with
    | nil => cases hhead
    | cons d cs =>
      have hd : d.isDigit = true := hhead
      rw [magnitudeText_cons (by simp [digitsGoOn, hd])]
      simp [digitsGoOn, hc, hd]

theorem digitsGoOn_softer (h : Softer rest rest') (hrest : digitsGoOn rest = false) :
    digitsGoOn rest' = false := by
  cases rest' with
  | nil => rfl
  | cons d t' =>
    obtain hgap | hsame := h.head d rfl
    · have hne : d ≠ '.' := by
        rintro rfl
        cases hgap
      simp [digitsGoOn, isDigit_of_isGap hgap, hne]
    · obtain ⟨t, rfl⟩ := List.head?_eq_some_iff.1 hsame
      by_cases hd : d = '.'
      · subst hd
        obtain ⟨t₂, heq, hhead⟩ := h.point t' rfl
        cases heq
        simpa [digitsGoOn, hhead] using hrest
      · simpa [digitsGoOn, hd] using hrest

theorem magnitudeText_softer (cs : List Char) :
    cs = (magnitudeText cs).1 ++ (magnitudeText cs).2 ∧
      ∀ rest', Softer (magnitudeText cs).2 rest' →
        magnitudeText ((magnitudeText cs).1 ++ rest') = ((magnitudeText cs).1, rest') := by
  induction cs with
  | nil => exact ⟨rfl, fun rest' h => magnitudeText_stop (digitsGoOn_softer h rfl)⟩
  | cons c cs ih =>
    cases hc : digitsGoOn (c :: cs) with
    | true =>
      obtain ⟨hcs, hagain⟩ := ih
      rw [magnitudeText_cons hc]
      refine ⟨congrArg (c :: ·) hcs, fun rest' h => ?_⟩
      rw [List.cons_append, magnitudeText_cons (digitsGoOn_append hc rest'), hagain rest' h]
    | false =>
      rw [magnitudeText_stop hc]
      exact ⟨rfl, fun rest' h => magnitudeText_stop (digitsGoOn_softer h hc)⟩

theorem unitText_softer (cs : List Char) :
    cs = (unitText cs).1 ++ (unitText cs).2 ∧ (unitText cs).1.head? ≠ some '.' ∧
      ∀ rest', Softer (unitText cs).2 rest' →
        unitText ((unitText cs).1 ++ rest') = ((unitText cs).1, rest') := by
  by_cases hpercent : cs.head? = some '%'
  · obtain ⟨cs, rfl⟩ := List.head?_eq_some_iff.1 hpercent
    exact ⟨rfl, by simp [unitText], fun rest' _ => rfl⟩
  · have hletters (cs : List Char) (h : cs.head? ≠ some '%') :
        unitText cs = spanClass Char.isAlpha cs := by
      unfold unitText
      split
      · exact absurd rfl h
      · rfl
    obtain ⟨hcs, hagain⟩ := spanClass_softer (fun d => isAlpha_of_isGap) cs
    have hall : ∀ d ∈ (spanClass Char.isAlpha cs).1, d.isAlpha = true :=
      List.all_eq_true.1 List.all_takeWhile
    rw [hletters cs hpercent]
    refine ⟨hcs, fun hpoint => ?_, fun rest' h => ?_⟩
    · exact absurd (hall '.' (List.mem_of_head? hpoint)) (by decide)
    · refine (hletters _ fun hpercent' => ?_).trans (hagain rest' h)
      -- neither a letter nor what follows is a percent sign
      cases hunit : (spanClass Char.isAlpha cs).1 with
      | nil =>
        rw [hunit] at hpercent' hcs
        have hrest := (h.head '%' hpercent').resolve_left (by decide)
        exact hpercent (hcs ▸ hrest)
      | cons d ds =>
        rw [hunit] at hpercent'
        obtain rfl := Option.some.inj hpercent'
        exact absurd (hall '%' (hunit ▸ List.mem_cons_self)) (by decide)

/-- The digits of a number that begins with a point are not empty. -/
theorem magnitude?_point {more : List Char} {x : Float} (h : magnitude? ('.' :: more) = some x) :
    ∃ d ds, more = d :: ds ∧ d.isDigit = true := by
  have hspan : spanClass Char.isDigit ('.' :: more) = ([], '.' :: more) := rfl
  rw [magnitude?, hspan] at h
  obtain ⟨⟨hdigits, hne⟩, -⟩ := Option.ite_none_right_eq_some.1 h
  cases more with
  | nil => exact absurd rfl hne
  | cons d ds =>
    obtain ⟨-, hall⟩ := hdigits.resolve_left (List.cons_ne_nil _ _)
    exact ⟨d, ds, rfl, List.all_eq_true.1 hall d List.mem_cons_self⟩

/-- The taken part of a number. -/
theorem readNumber_softer {negative : Bool} {first : Char}
    (hread : readNumber negative first cs = .ok (kind, rest)) :
    ∃ taken, cs = taken ++ rest ∧ (first = '.' → ∃ d ds, taken = d :: ds ∧ d.isDigit = true) ∧
      ∀ rest', Softer rest rest' → readNumber negative first (taken ++ rest') = .ok (kind, rest') := by
  obtain ⟨hcs, hmagnitude⟩ := magnitudeText_softer cs
  obtain ⟨hmid, hunit, hagain⟩ := unitText_softer (magnitudeText cs).2
  unfold readNumber at hread
  simp only at hread
  cases hx : magnitude? (first :: (magnitudeText cs).1) with
  | none => rw [hx] at hread; cases hread
  | some x =>
    rw [hx] at hread
    cases hread
    refine ⟨(magnitudeText cs).1 ++ (unitText (magnitudeText cs).2).1, ?_, ?_, fun rest' h => ?_⟩
    · rw [List.append_assoc, ← hmid, ← hcs]
    · rintro rfl
      obtain ⟨d, ds, hmore, hd⟩ := magnitude?_point hx
      exact ⟨d, ds ++ (unitText (magnitudeText cs).2).1, by rw [hmore]; rfl, hd⟩
    · have hsofter := h.append hunit
      rw [← hmid] at hsofter
      rw [readNumber, List.append_assoc, hmagnitude _ hsofter]
      simp only [hagain rest' h, hx]

/-! ## Strings -/

theorem stringContent_append {quote : Char} {content : List Char}
    (hread : stringContent quote cs = some (content, rest)) :
    ∃ taken, cs = taken ++ rest ∧
      ∀ rest', stringContent quote (taken ++ rest') = some (content, rest') := by
  fun_induction stringContent quote cs generalizing content rest with
  | case1 => cases hread
  | case2 cs =>
    cases hread
    exact ⟨[quote], rfl, stringContent_quote quote⟩
  | case3 => cases hread
  | case4 d ds hne ih =>
    obtain ⟨r, hr, hpair⟩ := Option.map_eq_some_iff.1 hread
    cases hpair
    obtain ⟨taken, rfl, hagain⟩ := ih hr
    refine ⟨'\\' :: d :: taken, rfl, fun rest' => ?_⟩
    rw [List.cons_append, List.cons_append, stringContent_backslash hne, hagain]
    rfl
  | case5 c cs hne hslash ih =>
    obtain ⟨r, hr, hpair⟩ := Option.map_eq_some_iff.1 hread
    cases hpair
    obtain ⟨taken, rfl, hagain⟩ := ih hr
    refine ⟨c :: taken, rfl, fun rest' => ?_⟩
    rw [List.cons_append, stringContent_cons hne hslash, hagain]
    rfl

/-! ## Tokens -/

theorem readToken_color (cs : List Char) :
    readToken '#' cs =
      if (spanClass isHexDigit cs).1.length = 3 ∨ (spanClass isHexDigit cs).1.length = 6 then
        .ok (.color (String.ofList (spanClass isHexDigit cs).1), (spanClass isHexDigit cs).2)
      else .error (.badColor (String.ofList (spanClass isHexDigit cs).1)) := by
  simp [readToken]

theorem readToken_string {content : List Char} (hc : c = '"' ∨ c = '\'')
    (hread : stringContent c cs = some (content, rest)) :
    readToken c cs = .ok (.string (String.ofList content), rest) := by
  obtain rfl | rfl := hc <;> simp [readToken, hread]

theorem readToken_negative (hd : (d.isDigit || d == '.') = true) (cs : List Char) :
    readToken '-' (d :: cs) = readNumber true d cs := by
  simp [readToken, hd]

theorem head?_spanClass (h : (cs.head?.any isIdentStart) = true) (rest' : List Char) :
    (((spanClass isIdentPart cs).1 ++ rest').head?.any isIdentStart) = true := by
  cases cs with
  | nil => cases h
  | cons d cs =>
    have hd : isIdentStart d = true := h
    simp [spanClass, isIdentPart_of_isIdentStart hd, hd]

/-- What is taken for a token is taken for it before any text that ends it in the same way. A
    point alone is no token. -/
theorem readToken_softer (hread : readToken c cs = .ok (kind, rest)) :
    ∃ taken, cs = taken ++ rest ∧ (c = '.' → taken ≠ []) ∧
      ∀ rest', Softer rest rest' → readToken c (taken ++ rest') = .ok (kind, rest') := by
  revert hread
  fun_cases readToken c cs
  case case1 hc =>
    rintro ⟨⟩
    subst hc
    exact ⟨[], rfl, fun hpoint => absurd hpoint (by decide), fun rest' _ => rfl⟩
  case case2 _ hc =>
    rintro ⟨⟩
    subst hc
    exact ⟨[], rfl, fun hpoint => absurd hpoint (by decide), fun rest' _ => rfl⟩
  case case3 hpoints =>
    rintro ⟨⟩
    obtain ⟨rfl, htake⟩ := hpoints
    refine ⟨['.', '.'], ?_, fun _ => List.cons_ne_nil _ _, fun rest' _ => by simp [readToken]⟩
    rw [← htake, List.take_append_drop]
  case case4 =>
    rename_i hc name after _ hstart hspan
    rintro ⟨⟩
    subst hc
    obtain ⟨rfl, rfl⟩ := Prod.mk.inj hspan
    obtain ⟨hcs, hagain⟩ := spanClass_softer (fun d => isIdentPart_of_isGap) cs
    refine ⟨_, hcs, fun hpoint => absurd hpoint (by decide), fun rest' h => ?_⟩
    rw [readToken_variable (head?_spanClass hstart rest'), hagain rest' h]
    rfl
  case case6 =>
    rename_i hc digits after hlength _ hspan
    rintro ⟨⟩
    subst hc
    obtain ⟨rfl, rfl⟩ := Prod.mk.inj hspan
    obtain ⟨hcs, hagain⟩ := spanClass_softer (fun d => isHexDigit_of_isGap) cs
    refine ⟨_, hcs, fun hpoint => absurd hpoint (by decide), fun rest' h => ?_⟩
    rw [readToken_color, hagain rest' h]
    exact if_pos hlength
  case case8 =>
    rename_i hquote content after _ hcontent
    rintro ⟨⟩
    obtain ⟨taken, hcs, hagain⟩ := stringContent_append hcontent
    refine ⟨taken, hcs, fun hc => ?_, fun rest' _ => ?_⟩
    · subst hc
      cases hquote <;> contradiction
    · exact readToken_string hquote (hagain rest')
  case case10 hcolon hcomma hdollar hhash hquote hdigit hpoints =>
    intro hread
    obtain ⟨taken, rfl, hpoint, hagain⟩ := readNumber_softer hread
    refine ⟨taken, rfl, fun hc => ?_, fun rest' h => ?_⟩
    · obtain ⟨d, ds, rfl, -⟩ := hpoint hc
      exact List.cons_ne_nil d ds
    · have hpoints' : ¬(c = '.' ∧ (taken ++ rest').take 2 = ['.', '.']) := by
        rintro ⟨rfl, htake⟩
        obtain ⟨d, ds, rfl, hd⟩ := hpoint rfl
        obtain rfl : d = '.' := (List.cons.inj htake).1
        cases hd
      rw [readToken.eq_def, if_neg hcolon, if_neg hcomma, if_neg hpoints', if_neg hdollar,
        if_neg hhash, if_neg hquote, if_pos hdigit]
      exact hagain rest' h
  case case11 =>
    rename_i d cs _ hminus
    intro hread
    obtain ⟨rfl, hd⟩ := hminus
    obtain ⟨taken, rfl, -, hagain⟩ := readNumber_softer hread
    refine ⟨d :: taken, rfl, fun _ => List.cons_ne_nil d taken, fun rest' h => ?_⟩
    rw [List.cons_append, readToken_negative hd]
    exact hagain rest' h
  case case13 =>
    rename_i hstart name after _ _ hspan
    rintro ⟨⟩
    obtain ⟨rfl, rfl⟩ := Prod.mk.inj hspan
    obtain ⟨hcs, hagain⟩ := spanClass_softer (fun d => isIdentPart_of_isGap) cs
    refine ⟨_, hcs, fun hc => ?_, fun rest' h => ?_⟩
    · subst hc
      cases hstart
    · rw [readToken_ident hstart, hagain rest' h]
      rfl
  -- no token at all
  all_goals rintro ⟨⟩

end StyleScript.Signature
