-- SUMMARY: From the text of a signature to its tokens.
import StyleScript.Error
import StyleScript.Signature.Token

/-!
# Lexing signatures

`readToken` takes one token off a text that starts with none of the blanks; it
always takes at least one character, so `scan` ends. Columns count bytes: the
column of a token is found from the bytes that are left.
-/

namespace StyleScript.Signature

/-! ## Character classes, all of them ASCII -/

/-- What separates tokens. -/
def isGap (c : Char) : Bool := c == ' ' || c == '\t' || c == '\n' || c == '\x0c' || c == '\r'

def isIdentStart (c : Char) : Bool := c.isAlpha || c == '_'

def isIdentPart (c : Char) : Bool := c.isAlphanum || c == '_' || c == '-'

def isHexDigit (c : Char) : Bool :=
  c.isDigit || ('a' ≤ c && c ≤ 'f') || ('A' ≤ c && c ≤ 'F')

/-- How a character outside all tokens is shown. One outside ASCII is shown as
    the character with the number of its first byte. -/
def shownAs (c : Char) : Char := Char.ofNat (((String.utf8EncodeChar c).headD 0).toNat)

/-! ## Readers -/

/-- A result of reading, and the text after it. -/
abbrev Read (α : Type) := Except SignatureFault (α × List Char)

/-- The longest start of characters of a class, and the text after it. -/
def spanClass (p : Char → Bool) (cs : List Char) : List Char × List Char :=
  (cs.takeWhile p, cs.dropWhile p)

/-- The content of a string up to its closing quote, or `none` when there is
    none. A backslash makes the next character, whatever it is, part of the
    content. -/
def stringContent (quote : Char) : List Char → Option (List Char × List Char)
  | [] => none
  | c :: cs =>
    if c = quote then some ([], cs)
    else if c = '\\' then
      match cs with
      | [] => none
      | d :: ds => (stringContent quote ds).map fun r => (d :: r.1, r.2)
    else (stringContent quote cs).map fun r => (c :: r.1, r.2)

/-- Digits, and points that a digit follows. -/
def magnitudeText : List Char → List Char × List Char
  | [] => ([], [])
  | c :: cs =>
    if c.isDigit || (c == '.' && cs.head?.any Char.isDigit) then
      let r := magnitudeText cs
      (c :: r.1, r.2)
    else ([], c :: cs)

/-- A percent sign or letters, or nothing. -/
def unitText : List Char → List Char × List Char
  | '%' :: cs => (['%'], cs)
  | cs => spanClass Char.isAlpha cs

/-- The number that decimal digits stand for. -/
def digitsValue (ds : List Char) : Nat := ds.foldl (fun n d => 10 * n + (d.toNat - '0'.toNat)) 0

/-- The double nearest to a decimal with at most one point and at least one
    digit. -/
def magnitude? (cs : List Char) : Option Float :=
  let (whole, rest) := spanClass Char.isDigit cs
  let fraction := rest.drop 1
  if (rest = [] ∨ (rest.head? = some '.' ∧ fraction.all Char.isDigit)) ∧ whole ++ fraction ≠ [] then
    some (Float.ofScientific (digitsValue (whole ++ fraction)) true fraction.length)
  else none

/-- A number whose first character is already taken. -/
def readNumber (negative : Bool) (first : Char) (cs : List Char) : Read TokenKind :=
  let (more, cs) := magnitudeText cs
  let (unit, cs) := unitText cs
  match magnitude? (first :: more) with
  | some x => .ok (.number (if negative then -x else x) (String.ofList unit), cs)
  | none => .error (.malformedNumber (String.ofList (first :: more)))

/-- A token with the first character `c`, and the text after it. -/
def readToken (c : Char) (cs : List Char) : Read TokenKind :=
  if c = ':' then .ok (.colon, cs)
  else if c = ',' then .ok (.comma, cs)
  else if c = '.' ∧ cs.take 2 = ['.', '.'] then .ok (.ellipsis, cs.drop 2)
  else if c = '$' then
    if cs.head?.any isIdentStart then
      let (name, cs) := spanClass isIdentPart cs
      .ok (.variable (String.ofList name), cs)
    else .error .nameExpected
  else if c = '#' then
    let (digits, cs) := spanClass isHexDigit cs
    if digits.length = 3 ∨ digits.length = 6 then .ok (.color (String.ofList digits), cs)
    else .error (.badColor (String.ofList digits))
  else if c = '"' ∨ c = '\'' then
    match stringContent c cs with
    | some (content, cs) => .ok (.string (String.ofList content), cs)
    | none => .error .unterminatedString
  else if c.isDigit ∨ c = '.' then readNumber false c cs
  else if c = '-' ∧ cs.head?.any (fun d => d.isDigit || d == '.') then
    match cs with
    | d :: cs => readNumber true d cs
    | [] => .error (.unexpectedCharacter c)
  else if isIdentStart c then
    let (rest, cs) := spanClass isIdentPart cs
    .ok (.ident (String.ofList (c :: rest)), cs)
  else .error (.unexpectedCharacter (shownAs c))

/-! ## Reading leaves no more than there was -/

theorem length_spanClass (p : Char → Bool) (cs : List Char) :
    (spanClass p cs).2.length ≤ cs.length :=
  (List.dropWhile_suffix p).length_le

theorem length_stringContent {quote : Char} {cs : List Char} {r : List Char × List Char}
    (h : stringContent quote cs = some r) : r.2.length ≤ cs.length := by
  fun_induction stringContent quote cs generalizing r with
  | case1 => cases h
  | case2 => cases h; exact Nat.le_succ _
  | case3 => cases h
  | case4 d ds _ ih =>
    obtain ⟨s, hs, rfl⟩ := Option.map_eq_some_iff.1 h
    have hlen := ih hs
    exact Nat.le_trans hlen (Nat.le_add_right ds.length 2)
  | case5 c cs _ _ ih =>
    obtain ⟨s, hs, rfl⟩ := Option.map_eq_some_iff.1 h
    have hlen := ih hs
    exact Nat.le_succ_of_le hlen

theorem length_magnitudeText (cs : List Char) : (magnitudeText cs).2.length ≤ cs.length := by
  fun_induction magnitudeText cs with
  | case1 => exact Nat.le_refl _
  | case2 c cs _ r ih => exact Nat.le_succ_of_le ih
  | case3 => exact Nat.le_refl _

theorem length_unitText (cs : List Char) : (unitText cs).2.length ≤ cs.length := by
  unfold unitText
  split
  · exact Nat.le_succ _
  · exact length_spanClass _ _

theorem length_readNumber {negative : Bool} {first : Char} {cs : List Char}
    {r : TokenKind × List Char} (h : readNumber negative first cs = .ok r) :
    r.2.length ≤ cs.length := by
  unfold readNumber at h
  simp only at h
  split at h
  · cases h
    exact Nat.le_trans (length_unitText _) (length_magnitudeText _)
  · cases h

theorem length_of_spanClass {p : Char → Bool} {cs start rest : List Char}
    (h : spanClass p cs = (start, rest)) : rest.length ≤ cs.length := by
  have hlen := length_spanClass p cs
  rwa [h] at hlen

theorem length_readToken {c : Char} {cs : List Char} {r : TokenKind × List Char}
    (h : readToken c cs = .ok r) : r.2.length ≤ cs.length := by
  revert h
  fun_cases readToken c cs
  case case3 =>
    rintro ⟨⟩
    exact (List.drop_sublist 2 cs).length_le
  case case8 =>
    rintro ⟨⟩
    exact length_stringContent ‹_›
  case case10 => exact length_readNumber
  case case11 => exact fun h => Nat.le_succ_of_le (length_readNumber h)
  -- a colon, a comma, a name or the digits of a color, or no token at all
  all_goals rintro ⟨⟩
  all_goals first | exact Nat.le_refl _ | exact length_of_spanClass ‹_›

/-! ## All tokens -/

/-- How many bytes a text has. -/
def byteCount (cs : List Char) : Nat := cs.foldr (fun c count => c.utf8Size + count) 0

/-- The tokens of the rest `cs` of a text of `total` bytes, the last of which
    says that the text is done. -/
def scan (total : Nat) (cs : List Char) : Except Error (List Token) :=
  match hcs : cs.dropWhile isGap with
  | [] => .ok [⟨.done, total + 1⟩]
  | c :: rest =>
    let column := total - byteCount (c :: rest) + 1
    match _hr : readToken c rest with
    | .error fault => .error (.ofCause (.signature column fault))
    | .ok (kind, after) => (scan total after).map (⟨kind, column⟩ :: ·)
termination_by cs.length
decreasing_by
  have hlen := length_readToken _hr
  have hdrop := (List.dropWhile_suffix (l := cs) isGap).length_le
  rw [hcs] at hdrop
  simp only [List.length_cons] at hdrop hlen
  omega

/-- The tokens of a text. -/
def tokens (text : String) : Except Error (List Token) :=
  scan (byteCount text.toList) text.toList

end StyleScript.Signature
