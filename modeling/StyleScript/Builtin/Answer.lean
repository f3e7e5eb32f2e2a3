-- SUMMARY: What builtins answer: one new value, or a value that they were given.
import StyleScript.Registry

/-!
# Answers of builtins

A builtin reads its arguments and answers either with what a single new value
is to hold, or with a value that it was given. It builds nothing else, and
nothing at all when it fails.
-/

namespace StyleScript

/-- The answer of a builtin. -/
inductive Answer where
  | fresh (value : Option Location → Value)
  | given (v : Value)

namespace Answer

def number (n : Number) : Answer := fresh (.number n)

/-- A number without units. -/
def unitless (x : Float) : Answer := number (.unitless x)

def color (c : Color Float) : Answer := fresh (.color c)

def quoted (content : String) : Answer := fresh (.string content true)

def unquoted (content : String) : Answer := fresh (.string content false)

def bool (b : Bool) : Answer := fresh (.bool b)

def list (items : List Value) (separator : Separator) : Answer := fresh (.list items separator)

/-- Build the value of an answer. -/
def build : Answer → Build Value
  | fresh value => Build.make value
  | given v => pure v

end Answer

/-- A builtin with its name, its signature and its answer to a call. -/
structure Builtin where
  name : String
  signature : String
  answer : Invocation → Except Error Answer

namespace Builtin

/-- The code of a builtin. -/
def run (b : Builtin) : NativeCode := fun call => Build.ofExcept (b.answer call) >>= Answer.build

/-- Answer with the color that is computed from the arguments. -/
def ofColor (name signature : String) (color : Invocation → Except Error (Color Float)) : Builtin :=
  ⟨name, signature, fun call => (color call).map Answer.color⟩

/-- Answer with the number that is computed from the arguments. -/
def ofNumber (name signature : String) (number : Invocation → Except Error Number) : Builtin :=
  ⟨name, signature, fun call => (number call).map Answer.number⟩

/-- Answer with the truth value that is computed from the arguments. -/
def ofBool (name signature : String) (bool : Invocation → Except Error Bool) : Builtin :=
  ⟨name, signature, fun call => (bool call).map Answer.bool⟩

end Builtin

end StyleScript
