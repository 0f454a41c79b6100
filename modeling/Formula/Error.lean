import Formula.Op.Basic
import Formula.Text

/-!
# Errors

`Fault` is what can be wrong with a text, `ParseError` adds the text and the place, and `Error`
joins parse errors to those of evaluation and differentiation.  The wording is in the `message`
functions.
-/

namespace Formula

/-- What is wrong with a text that writes no expression. -/
inductive Fault where
  | emptyInput
  /-- The tokens end inside a bracket. -/
  | unclosedBracket
  | emptyBracket
  /-- A bracket holds the wrong number of operands for its sign. -/
  | operandCount (sign : String) (expected : Arity) (found : Nat)
  /-- An opening bracket is missing before a sign, or before the whole text. -/
  | missingOpening
  /-- A closing bracket is missing after a sign. -/
  | missingClosing
  /-- An operand stands where a bracket has its sign. -/
  | signExpected (first : Bool) (found : String)
  /-- A word is no variable, no number and no sign. -/
  | unknownWord (word : String)
  /-- Tokens follow a complete expression. -/
  | trailing (symbols : String)
  | tooDeep (limit : Nat)
  deriving DecidableEq, Repr

namespace Fault

/-- What is wrong, in words. -/
def message : Fault → String
  | emptyInput => "Empty input"
  | unclosedBracket =>
    "Tokens are over before correct end of expression, probably missing ')'"
  | emptyBracket => "Empty brackets"
  | operandCount sign expected found =>
    s!"Number of arguments ({found}) doesn't match arity of '{sign}' ({expected.text})"
  | missingOpening => "Missing '('"
  | missingClosing => "Missing ')'"
  | signExpected first found =>
    let which := if first then "First" else "Last"
    s!"{which} token in brackets must be an operation, got '{found}' instead"
  | unknownWord word => s!"Unsupported token: '{word}'"
  | trailing symbols => s!"Redundant symbols after correct expression: '{symbols}'"
  | tooDeep limit => s!"Brackets nested deeper than the limit of {limit}"

end Fault

/-- What is wrong with a text, and where. -/
structure ParseError where
  fault : Fault
  input : String
  span : Text.Span
  deriving DecidableEq, Repr

namespace ParseError

/-- The character offset of the fault. -/
def offset (e : ParseError) : Nat := e.span.start

/-- What is wrong, without the place. -/
def message (e : ParseError) : String := e.fault.message

/-- A line whose caret stands under the fault when the input is quoted in the line above. -/
def caretLine (e : ParseError) : String :=
  String.ofList (List.replicate (e.offset + 1) ' ') ++ "^"

/-- The message, the quoted input and the caret line. -/
def report (e : ParseError) : String :=
  e.message ++ "\n\"" ++ e.input ++ "\"\n" ++ e.caretLine

end ParseError

/-- Everything that can go wrong with an expression. -/
inductive Error where
  | parse (e : ParseError)
  /-- A name stands for no variable, or for one that has no value. -/
  | unboundVariable (name : String)
  | notDifferentiable (o : Op)
  deriving DecidableEq, Repr

namespace Error

/-- What went wrong, in words. -/
def message : Error → String
  | parse e => e.report
  | unboundVariable name => s!"Variable '{name}' has no bound value"
  | notDifferentiable o => s!"Operation '{o.sign}' cannot be differentiated"

/-- The parse error behind an error. -/
def source? : Error → Option ParseError
  | parse e => some e
  | _ => none

end Error

end Formula
