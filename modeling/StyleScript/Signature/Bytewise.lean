-- SUMMARY: Signatures divided byte by byte, with every way in which this could stop.
import Mathlib.Tactic.SplitIfs
import StyleScript.Signature.Lexer

/-!
# Lexing bytes

Tokens are found in the bytes of a text as well as in its characters. A position moves over the
bytes. `advance` takes the byte at it and fails behind the last one; the next two bytes are looked
at without being taken, and behind the last byte there seem to be zeros. The content of a string
is put together from bytes, so it could be one that is no text. Columns are positions, counted
from one.

No reader goes back, and a token takes one byte at least, so the text comes to its end.
-/

namespace StyleScript.Signature.Bytewise

/-- Why the division of bytes stops: at what is no token, at content that is no text, or because
    a byte was taken that is not there. -/
inductive Halt where
  | refused (e : Error)
  | notUtf8 (column : Nat)
  | outside (position : Nat)
  deriving DecidableEq

/-- Reading from a position on, which it moves. -/
abbrev Reader := StateT Nat (Except Halt)

/-- The character with the number of a byte. -/
def latin (b : UInt8) : Char := Char.ofNat b.toNat

def refuse {α : Type} (column : Nat) (fault : SignatureFault) : Reader α :=
  throw (.refused (.ofCause (.signature column fault)))

section Readers

variable (source : ByteArray)

/-! ## Primitives -/

/-- What is seen at a position. -/
def byteAt (pos : Nat) : Char := if h : pos < source.size then latin source[pos] else '\x00'

def peek : Reader Char := fun pos => .ok (byteAt source pos, pos)

def peekNext : Reader Char := fun pos => .ok (byteAt source (pos + 1), pos)

theorem peek_apply (pos : Nat) : peek source pos = .ok (byteAt source pos, pos) := rfl

theorem peekNext_apply (pos : Nat) : peekNext source pos = .ok (byteAt source (pos + 1), pos) := rfl

/-- Takes a byte. -/
def advance : Reader UInt8 := fun pos =>
  if h : pos < source.size then .ok (source[pos], pos + 1) else .error (.outside pos)

variable {source} in
theorem advance_eq_ok {pos next : Nat} {b : UInt8} (h : advance source pos = .ok (b, next)) :
    pos < source.size ∧ next = pos + 1 := by
  unfold advance at h
  split at h
  · cases h
    exact ⟨‹_›, rfl⟩
  · cases h

/-- The longest run of characters that are in a class, which is told the character behind them
    as well. -/
def readWhile (p : Char → Char → Bool) : Reader (List Char) := fun pos =>
  if p (byteAt source pos) (byteAt source (pos + 1)) then
    match _h : advance source pos with
    | .error halt => .error halt
    | .ok (b, next) => (readWhile p next).map fun r => (latin b :: r.1, r.2)
  else .ok ([], pos)
termination_by pos => source.size - pos
decreasing_by
  obtain ⟨_, rfl⟩ := advance_eq_ok _h
  omega

/-! ## Readers -/

/-- The digits of a color. -/
def readColor (column : Nat) : Reader TokenKind := do
  let digits ← readWhile source fun c _ => isHexDigit c
  if digits.length = 3 ∨ digits.length = 6 then return .color (String.ofList digits)
  else refuse column (.badColor (String.ofList digits))

/-- The bytes of a string up to its closing quote. A backslash makes the next byte part of the
    content, if there is one. -/
def stringBytes (quote : Char) (column : Nat) : Reader (List UInt8) := fun pos =>
  if source.size ≤ pos then refuse column .unterminatedString pos
  else match _h : advance source pos with
    | .error halt => .error halt
    | .ok (b, next) =>
      if latin b = quote then .ok ([], next)
      else if latin b = '\\' ∧ next < source.size then
        match _h' : advance source next with
        | .error halt => .error halt
        | .ok (d, after) => (stringBytes quote column after).map fun r => (d :: r.1, r.2)
      else (stringBytes quote column next).map fun r => (b :: r.1, r.2)
termination_by pos => source.size - pos
decreasing_by
  · obtain ⟨_, rfl⟩ := advance_eq_ok _h
    obtain ⟨_, rfl⟩ := advance_eq_ok _h'
    omega
  · obtain ⟨_, rfl⟩ := advance_eq_ok _h
    omega

def readString (quote : Char) (column : Nat) : Reader TokenKind := do
  let bytes ← stringBytes source quote column
  match String.fromUTF8? bytes.toByteArray with
  | some content => return .string content
  | none => throw (.notUtf8 column)

/-- A percent sign or letters, or nothing. -/
def readUnit : Reader (List Char) := do
  if (← peek source) = '%' then
    let _ ← advance source
    return ['%']
  else readWhile source fun c _ => c.isAlpha

/-- Digits, and points that a digit follows. -/
def isMagnitudePart (c next : Char) : Bool := c.isDigit || (c == '.' && next.isDigit)

/-- A number whose first character is already taken. -/
def readNumber (negative : Bool) (first : Char) (column : Nat) : Reader TokenKind := do
  let more ← readWhile source isMagnitudePart
  let unit ← readUnit source
  match magnitude? (first :: more) with
  | some x => return .number (if negative then -x else x) (String.ofList unit)
  | none => refuse column (.malformedNumber (String.ofList (first :: more)))

/-- A name whose first character is already taken. -/
def readName (first : Char) : Reader String := do
  let rest ← readWhile source fun c _ => isIdentPart c
  return String.ofList (first :: rest)

/-- A token with the first character `c`, which is already taken. -/
def readKind (c : Char) (column : Nat) : Reader TokenKind := do
  let next ← peek source
  let afterNext ← peekNext source
  if c = ':' then return .colon
  else if c = ',' then return .comma
  else if c = '.' ∧ next = '.' ∧ afterNext = '.' then
    let _ ← advance source
    let _ ← advance source
    return .ellipsis
  else if c = '$' then
    if isIdentStart next then
      let first ← advance source
      return .variable (← readName source (latin first))
    else refuse column .nameExpected
  else if c = '#' then readColor source column
  else if c = '"' ∨ c = '\'' then readString source c column
  else if c.isDigit ∨ c = '.' then readNumber source false c column
  else if c = '-' ∧ (next.isDigit ∨ next = '.') then
    let first ← advance source
    readNumber source true (latin first) column
  else if isIdentStart c then return .ident (← readName source c)
  else refuse column (.unexpectedCharacter c)

/-- The token at a position. -/
def readToken : Reader TokenKind := do
  let column := (← get) + 1
  let first ← advance source
  readKind source (latin first) column

/-! ## Reading goes forward -/

section Forward

variable {source} {α β : Type} {r : Reader α} {f : α → Reader β} {pos next : Nat} {a : α}

theorem bind_of_ok (h : r pos = .ok (a, next)) : (r >>= f) pos = f a next := by
  change r pos >>= (fun q => f q.1 q.2) = f a next
  rw [h]
  rfl

theorem bind_of_error {halt : Halt} (h : r pos = .error halt) : (r >>= f) pos = .error halt := by
  change r pos >>= (fun q => f q.1 q.2) = .error halt
  rw [h]
  rfl

/-- A result of reading that is not before a position. -/
def NotBefore (pos : Nat) (r : Except Halt (α × Nat)) : Prop :=
  ∀ a next, r = .ok (a, next) → pos ≤ next

theorem notBefore_error (halt : Halt) : NotBefore (α := α) pos (.error halt) := nofun

theorem notBefore_ok (h : pos ≤ next) (a : α) : NotBefore pos (.ok (a, next)) := by
  rintro _ _ ⟨⟩
  exact h

theorem NotBefore.map {r : Except Halt (α × Nat)} (h : NotBefore next r) (hle : pos ≤ next)
    (g : α → β) : NotBefore pos (r.map fun q => (g q.1, q.2)) := by
  match r, h with
  | .error halt, _ => exact notBefore_error halt
  | .ok (a, after), h => exact notBefore_ok (Nat.le_trans hle (h a after rfl)) _

/-- Reading that never ends before it began. -/
def Forward (r : Reader α) : Prop := ∀ pos, NotBefore pos (r pos)

theorem forward_pure (a : α) : Forward (pure a) := fun pos => notBefore_ok (Nat.le_refl pos) a

theorem forward_throw (halt : Halt) : Forward (α := α) (throw halt) :=
  fun _ => notBefore_error halt

theorem Forward.bind (hr : Forward r) (hf : ∀ a, Forward (f a)) : Forward (r >>= f) := by
  intro pos b after h
  cases hread : r pos with
  | error halt => cases (bind_of_error hread).symm.trans h
  | ok q =>
    rw [bind_of_ok hread] at h
    exact Nat.le_trans (hr pos q.1 q.2 hread) (hf q.1 q.2 b after h)

theorem forward_peek : Forward (peek source) := fun pos => notBefore_ok (Nat.le_refl pos) _

theorem forward_peekNext : Forward (peekNext source) := fun pos => notBefore_ok (Nat.le_refl pos) _

theorem forward_advance : Forward (advance source) := by
  intro pos b next h
  obtain ⟨-, rfl⟩ := advance_eq_ok h
  exact Nat.le_succ pos

theorem forward_readWhile (p : Char → Char → Bool) : Forward (readWhile source p) := by
  intro pos
  fun_induction readWhile source p pos with
  | case1 => exact notBefore_error _
  | case2 pos _ b next h ih =>
    obtain ⟨-, rfl⟩ := advance_eq_ok h
    exact ih.map (Nat.le_succ pos) _
  | case3 pos => exact notBefore_ok (Nat.le_refl pos) _

theorem forward_stringBytes (quote : Char) (column : Nat) :
    Forward (stringBytes source quote column) := by
  intro pos
  fun_induction stringBytes source quote column pos with
  | case1 => exact notBefore_error _
  | case2 => exact notBefore_error _
  | case3 pos _ b next h =>
    obtain ⟨-, rfl⟩ := advance_eq_ok h
    exact notBefore_ok (Nat.le_succ pos) _
  | case4 => exact notBefore_error _
  | case5 pos _ b next h _ _ d after h' ih =>
    obtain ⟨-, rfl⟩ := advance_eq_ok h
    obtain ⟨-, rfl⟩ := advance_eq_ok h'
    exact ih.map (Nat.le_add_right pos 2) _
  | case6 pos _ b next h _ _ ih =>
    obtain ⟨-, rfl⟩ := advance_eq_ok h
    exact ih.map (Nat.le_succ pos) _

theorem forward_readColor (column : Nat) : Forward (readColor source column) := by
  refine (forward_readWhile _).bind fun digits => ?_
  split
  · exact forward_pure _
  · exact forward_throw _

theorem forward_readString (quote : Char) (column : Nat) :
    Forward (readString source quote column) := by
  refine (forward_stringBytes quote column).bind fun bytes => ?_
  split
  · exact forward_pure _
  · exact forward_throw _

theorem forward_readUnit : Forward (readUnit source) := by
  refine forward_peek.bind fun next => ?_
  split
  · exact forward_advance.bind fun _ => forward_pure _
  · exact forward_readWhile _

theorem forward_readNumber (negative : Bool) (first : Char) (column : Nat) :
    Forward (readNumber source negative first column) := by
  refine (forward_readWhile _).bind fun more => forward_readUnit.bind fun unit => ?_
  split
  · exact forward_pure _
  · exact forward_throw _

theorem forward_readName (first : Char) : Forward (readName source first) :=
  (forward_readWhile _).bind fun _ => forward_pure _

theorem forward_readKind (c : Char) (column : Nat) : Forward (readKind source c column) := by
  refine forward_peek.bind fun next => forward_peekNext.bind fun afterNext => ?_
  split_ifs
  · exact forward_pure _
  · exact forward_pure _
  · exact forward_advance.bind fun _ => forward_advance.bind fun _ => forward_pure _
  · exact forward_advance.bind fun first => (forward_readName _).bind fun _ => forward_pure _
  · exact forward_throw _
  · exact forward_readColor column
  · exact forward_readString c column
  · exact forward_readNumber false c column
  · exact forward_advance.bind fun first => forward_readNumber true _ column
  · exact (forward_readName c).bind fun _ => forward_pure _
  · exact forward_throw _

theorem readToken_apply (pos : Nat) :
    readToken source pos =
      (advance source >>= fun first => readKind source (latin first) (pos + 1)) pos :=
  rfl

/-- A token takes one byte at least. -/
theorem lt_of_readToken {kind : TokenKind} (h : readToken source pos = .ok (kind, next)) :
    pos < next := by
  rw [readToken_apply] at h
  cases hadvance : advance source pos with
  | error halt => cases (bind_of_error hadvance).symm.trans h
  | ok q =>
    obtain ⟨b, after⟩ := q
    obtain ⟨-, rfl⟩ := advance_eq_ok hadvance
    rw [bind_of_ok hadvance] at h
    exact forward_readKind _ _ (pos + 1) kind next h

end Forward

/-! ## All tokens -/

/-- The tokens from a position on, the last of which says that the text is done. -/
def scan (pos : Nat) : Except Halt (List Token) :=
  match _hgap : readWhile source (fun c _ => isGap c) pos with
  | .error halt => .error halt
  | .ok (_, start) =>
    if source.size ≤ start then .ok [⟨.done, start + 1⟩]
    else match _hread : readToken source start with
      | .error halt => .error halt
      | .ok (kind, next) => (scan next).map (⟨kind, start + 1⟩ :: ·)
termination_by source.size - pos
decreasing_by
  have hstart := forward_readWhile _ _ _ _ _hgap
  have hnext := lt_of_readToken _hread
  omega

end Readers

/-- The tokens of the bytes of a text. -/
def tokens (text : String) : Except Halt (List Token) := scan text.toUTF8 0

end StyleScript.Signature.Bytewise
