-- SUMMARY: From the tokens of a signature to parameters with literal defaults.
import StyleScript.Build
import StyleScript.Expr
import StyleScript.Signature.Lexer

/-!
# Reading signatures

A signature lists parameters, divided by commas. A parameter is a variable,
which a literal may follow after a colon as its default. The last one may
instead be followed by an ellipsis and then takes all further arguments:

    signature := (param ("," param)*)?
    param     := VAR (":" literal)? | VAR "..."
    literal   := NUMBER | IDENT | STRING | HEXCOLOR

No name may be written twice. A fault is reported at the column of the token
that does not fit.
-/

namespace StyleScript.Signature

/-- The value of a literal token. Identifiers are unquoted strings, except for
    the names of the truth values and of null. -/
def literal? : TokenKind → Option (Build Value)
  | .number value unit => some (Build.number ⟨value, Units.ofText unit⟩)
  | .ident text =>
    some <|
      if text = "true" then Build.bool true
      else if text = "false" then Build.bool false
      else if text = "null" then Build.null
      else Build.unquoted text
  | .string content => some (Build.quoted content)
  | .color digits => some (Build.color (.ofHex digits.toList))
  | _ => none

/-- The fault of a signature at the next token. -/
def fail (fault : TokenKind → SignatureFault) (next : List Token) : Build α :=
  let token := next.headD ⟨.done, 0⟩
  throw (.ofCause (.signature token.column (fault token.kind)))

mutual

/-- Read the tokens from a parameter on; the parameters before it are `seen`. -/
def readParam (seen : Params) : List Token → Build Params
  | ⟨.variable name, _⟩ :: next =>
    if seen.rest.isSome then fail (fun _ => .restNotLast) next
    else if name ∈ seen.names then fail (fun _ => .duplicateParameter name) next
    else
      match next with
      | ⟨.colon, _⟩ :: token :: next =>
        match literal? token.kind with
        | some build => do
          let value ← build
          readComma { seen with fixed := seen.fixed ++ [⟨name, some (.literal value)⟩] } next
        | none => fail (fun found => .defaultExpected found.describe) (token :: next)
      | ⟨.ellipsis, _⟩ :: next => readComma { seen with rest := some name } next
      | next => readComma { seen with fixed := seen.fixed ++ [⟨name, none⟩] } next
  | next => fail (fun found => .parameterExpected found.describe) next

/-- Read the tokens after a parameter: a comma and further parameters, or the
    end. -/
def readComma (seen : Params) : List Token → Build Params
  | ⟨.comma, _⟩ :: next => readParam seen next
  | ⟨.done, _⟩ :: _ => pure seen
  | next => fail (fun found => .commaExpected found.describe) next

end

/-- Read a whole signature. -/
def readParams : List Token → Build Params
  | ⟨.done, _⟩ :: _ => pure .empty
  | next => readParam .empty next

/-- The parameters that a text stands for. -/
def read (text : String) : Build Params := do
  let tokens ← Build.ofExcept (tokens text)
  Build.mapError (·.inContext s!"in signature `{text}`") (readParams tokens)

end StyleScript.Signature
