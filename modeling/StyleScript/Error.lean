-- SUMMARY: What can go wrong, where, and how it is told.
import StyleScript.Location
import StyleScript.TypeName

/-!
# Errors

An error is a cause, the contexts it was raised in and, when known, the place it
is reported at. The cause determines the kind and the wording; the contexts are
put before the wording, outermost first; of several places the innermost one is
kept, because it is attached first.
-/

namespace StyleScript

/-! ## Kinds -/

/-- The kinds of errors. The first six break the contract of a call, the next
    three arise while a body is evaluated, and the last one belongs to the
    set-up of builtins. -/
inductive ErrorKind where
  | typeMismatch
  | argumentCount
  | argumentRange
  | unit
  | undefinedFunction
  | noMatchingOverload
  | undefinedVariable
  | stackOverflow
  | missingReturn
  | signature
  deriving DecidableEq, Repr

/-- The code that a kind is shown with. -/
def ErrorKind.code : ErrorKind → String
  | .typeMismatch => "F001"
  | .argumentCount => "F002"
  | .argumentRange => "F003"
  | .unit => "F004"
  | .undefinedFunction => "F005"
  | .noMatchingOverload => "F006"
  | .undefinedVariable => "E001"
  | .stackOverflow => "E002"
  | .missingReturn => "E003"
  | .signature => "R001"

/-! ## Causes -/

/-- Why arguments do not fit a parameter list. -/
inductive ArityFault where
  | tooMany (surplus : Nat)
  | unknownName (name : String)
  | givenTwice (name : String)
  | missing (names : List String)
  deriving DecidableEq, Repr

def ArityFault.message : ArityFault → String
  | .tooMany surplus => s!"{surplus} too many"
  | .unknownName name => s!"no parameter named `${name}`"
  | .givenTwice name => s!"`${name}` was passed both by position and by name"
  | .missing names => "missing " ++ ", ".intercalate (names.map ("$" ++ ·))

/-- Why a text is not a signature. What was found instead of what was expected
    is given as it is described. -/
inductive SignatureFault where
  | nameExpected
  | badColor (digits : String)
  | unterminatedString
  | unexpectedCharacter (c : Char)
  | malformedNumber (text : String)
  | parameterExpected (found : String)
  | restNotLast
  | duplicateParameter (name : String)
  | defaultExpected (found : String)
  | commaExpected (found : String)
  deriving DecidableEq, Repr

def SignatureFault.message : SignatureFault → String
  | .nameExpected => "expected a parameter name after `$`"
  | .badColor digits => s!"invalid hex color `#{digits}`"
  | .unterminatedString => "unterminated string literal"
  | .unexpectedCharacter c => s!"unexpected character `{c}`"
  | .malformedNumber text => s!"malformed number `{text}`"
  | .parameterExpected found => s!"expected a parameter, found {found}"
  | .restNotLast => "a rest parameter must be the last parameter"
  | .duplicateParameter name => s!"duplicate parameter `${name}`"
  | .defaultExpected found => s!"expected a default value, found {found}"
  | .commaExpected found => s!"expected `,`, found {found}"

/-- The causes of errors. Values, numbers and units occur in them as they are
    shown in diagnostics. `reported` is for functions that a host program adds
    and that word their own errors. -/
inductive Cause where
  | notOfType (shown : String) (expected : TypeName)
  | undefinedOperation (left symbol right : String) (leftType rightType : TypeName)
  | undefinedNegation (shown : String)
  | wrongArity (function accepted : String) (supplied : Nat) (fault : ArityFault)
  | missingArgument (parameter : String)
  | outOfRange (shown low high : String)
  | zeroOrFractionalIndex (shown : String)
  | indexOutOfBounds (shown : String) (length : Nat)
  | unknownSeparator (text : String)
  | mixedComponents
  | incomparable
  | incompatibleUnits (left right operation : String)
  | unitOfChannel (shown : String)
  | unitNotAllowed (shown : String)
  | undefinedFunction (name : String)
  | noMatchingOverload (name : String) (supplied : Nat)
  | undefinedVariable (name : String)
  | stackOverflow (name : String) (limit : Nat)
  | missingReturn (name : String)
  | signature (column : Nat) (fault : SignatureFault)
  | reported (kind : ErrorKind) (text : String)
  deriving DecidableEq, Repr

def Cause.kind : Cause → ErrorKind
  | .notOfType .. | .undefinedOperation .. | .undefinedNegation .. => .typeMismatch
  | .wrongArity .. | .missingArgument .. => .argumentCount
  | .outOfRange .. | .zeroOrFractionalIndex .. | .indexOutOfBounds .. | .unknownSeparator ..
  | .mixedComponents | .incomparable => .argumentRange
  | .incompatibleUnits .. | .unitOfChannel .. | .unitNotAllowed .. => .unit
  | .undefinedFunction .. => .undefinedFunction
  | .noMatchingOverload .. => .noMatchingOverload
  | .undefinedVariable .. => .undefinedVariable
  | .stackOverflow .. => .stackOverflow
  | .missingReturn .. => .missingReturn
  | .signature .. => .signature
  | .reported kind _ => kind

def Cause.message : Cause → String
  | .notOfType shown expected =>
    let wanted := expected.text
    s!"`{shown}` is not a {wanted}"
  | .undefinedOperation left symbol right leftType rightType =>
    let leftName := leftType.text
    let rightName := rightType.text
    s!"undefined operation `{left} {symbol} {right}` ({leftName} and {rightName})"
  | .undefinedNegation shown => s!"undefined operation `-{shown}`"
  | .wrongArity function accepted supplied fault =>
    let detail := fault.message
    s!"`{function}` takes {accepted} argument(s) but {supplied} were passed: {detail}"
  | .missingArgument parameter => s!"missing argument ${parameter}"
  | .outOfRange shown low high => s!"{shown} must be between {low} and {high}"
  | .zeroOrFractionalIndex shown => s!"`{shown}` must be a non-zero integer"
  | .indexOutOfBounds shown length =>
    s!"index {shown} is out of bounds for a list of length {length}"
  | .unknownSeparator text => s!"must be `space`, `comma` or `auto`, got `{text}`"
  | .mixedComponents => "cannot specify both RGB and HSL values"
  | .incomparable => "cannot compare NaN"
  | .incompatibleUnits left right operation =>
    s!"incompatible units `{left}` and `{right}` for `{operation}`"
  | .unitOfChannel shown => s!"`{shown}` must be unitless or a percentage"
  | .unitNotAllowed shown => s!"`{shown}` must be unitless"
  | .undefinedFunction name => s!"undefined function `{name}`"
  | .noMatchingOverload name supplied => s!"no overload of `{name}` accepts {supplied} argument(s)"
  | .undefinedVariable name => s!"undefined variable `${name}`"
  | .stackOverflow name limit => s!"`{name}` nested more than {limit} calls deep"
  | .missingReturn name => s!"function `{name}` finished without @return"
  | .signature column fault =>
    let detail := fault.message
    s!"column {column}: {detail}"
  | .reported _ text => text

/-! ## Errors -/

/-- A cause, its contexts with the outermost first, and the place it is
    reported at. -/
structure Error where
  cause : Cause
  contexts : List String
  location : Option Location
  deriving DecidableEq, Repr

namespace Error

/-- A cause on its own. -/
def ofCause (cause : Cause) : Error := ⟨cause, [], none⟩

def kind (e : Error) : ErrorKind := e.cause.kind

/-- Put a context around an error, such as the parameter that was being read. -/
def inContext (context : String) (e : Error) : Error :=
  { e with contexts := context :: e.contexts }

/-- Report an error at a place unless it is already reported somewhere. -/
def locate (place : Option Location) (e : Error) : Error :=
  { e with location := e.location <|> place }

/-- The wording of an error after its contexts. -/
def message (e : Error) : String :=
  String.join (e.contexts.map (· ++ ": ")) ++ e.cause.message

/-- An error with its code and place, as it is shown. -/
def text (e : Error) : String :=
  let code := e.kind.code
  let place := match e.location with
    | some l => l.text ++ ": "
    | none => ""
  s!"[{code}] " ++ place ++ e.message

@[simp] theorem kind_ofCause (cause : Cause) : (ofCause cause).kind = cause.kind := rfl
@[simp] theorem kind_inContext (context : String) (e : Error) : (e.inContext context).kind = e.kind := rfl
@[simp] theorem kind_locate (place : Option Location) (e : Error) : (e.locate place).kind = e.kind := rfl

@[simp] theorem location_ofCause (cause : Cause) : (ofCause cause).location = none := rfl
@[simp] theorem location_inContext (context : String) (e : Error) :
    (e.inContext context).location = e.location := rfl
@[simp] theorem location_locate (place : Option Location) (e : Error) :
    (e.locate place).location = (e.location <|> place) := rfl

@[simp] theorem message_locate (place : Option Location) (e : Error) :
    (e.locate place).message = e.message := rfl

theorem message_inContext (context : String) (e : Error) :
    (e.inContext context).message = context ++ ": " ++ e.message := by
  simp [message, inContext, String.join_cons, String.append_assoc]

@[simp] theorem locate_none (e : Error) : e.locate none = e := by
  cases h : e.location <;> simp [locate, h] <;> cases e <;> simp_all

/-- The place that is attached first stays. -/
@[simp] theorem locate_locate (inner outer : Option Location) (e : Error) :
    (e.locate inner).locate outer = e.locate (inner <|> outer) := by
  cases h : e.location <;> simp [locate, h]

end Error

end StyleScript
