-- SUMMARY: The tokens of signatures and how they are described.
import StyleScript.Decimal.Positional

/-! # Tokens of signatures -/

namespace StyleScript.Signature

/-- The kinds of tokens. A number has its unit, a color its digits, a variable
    its name without the dollar sign. -/
inductive TokenKind where
  | number (value : Float) (unit : String)
  | ident (text : String)
  | string (content : String)
  | color (digits : String)
  | variable (name : String)
  | colon
  | comma
  | ellipsis
  | done
  deriving DecidableEq

/-- A kind as diagnostics name it. -/
def TokenKind.describe : TokenKind → String
  | .number value unit =>
    let magnitude := Decimal.text value
    s!"number `{magnitude}{unit}`"
  | .ident text => s!"identifier `{text}`"
  | .string content => s!"string \"{content}\""
  | .color digits => s!"color `#{digits}`"
  | .variable name => s!"variable `${name}`"
  | .colon => "`:`"
  | .comma => "`,`"
  | .ellipsis => "`...`"
  | .done => "end of signature"

/-- A token and the column of its first byte, counted from one. -/
structure Token where
  kind : TokenKind
  column : Nat
  deriving DecidableEq

end StyleScript.Signature
