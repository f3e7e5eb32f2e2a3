-- SUMMARY: Names between double quotes, with what cannot be seen escaped.
import StyleScript.Text.Glyph

/-!
# Quoted names

Listings show names between double quotes. Quotes, backslashes and characters
without a glyph of their own are escaped, the latter by their code points.
-/

namespace StyleScript.Text

/-- The hexadecimal digits of a number. -/
def hex (n : Nat) : List Char := Nat.toDigits 16 n

/-- A character between quotes. -/
def quoteChar (c : Char) : List Char :=
  if c = '\t' then ['\\', 't']
  else if c = '\n' then ['\\', 'n']
  else if c = '\r' then ['\\', 'r']
  else if c = '\x00' then ['\\', '0']
  else if c = '"' ∨ c = '\\' then ['\\', c]
  else if isHidden c then "\\u\x7b".toList ++ hex c.toNat ++ ['\x7d']
  else [c]

/-- A text between double quotes. -/
def quoted (text : String) : String :=
  String.ofList ('"' :: (text.toList.flatMap quoteChar ++ ['"']))

end StyleScript.Text
