import ListScript.Number.Text
import ListScript.Token.Basic
import ListScript.Token.Error

/-!
# Errors of reading an expression

Why the tokens at hand make no expression, and where that shows.
-/

namespace ListScript

namespace ParseError

/-- Why tokens make no expression. -/
inductive Cause where
  /-- Another token is needed at this place. -/
  | unexpectedToken (actual expected : Token.Kind)
  /-- No expression starts with the token. -/
  | nonExpression (kind : Token.Kind)
  /-- The text ends too early. -/
  | unexpectedEnd
  /-- A function's parameter is not a name. -/
  | invalidParameter
  /-- What follows the reference mark is not an assignment. -/
  | expectedAssignment
  /-- The count of blocks that a signal crosses is no natural number of 32 bits. -/
  | invalidCarry (count : Number)
  /-- A piece of the text is no token. -/
  | lexical (error : LexError)
  /-- There is no room to read more. No text is refused for it, since reading is given room for all
  the tokens of its text. -/
  | outOfRoom
  deriving DecidableEq

namespace Cause

/-- The name of the cause. -/
def name : Cause → String
  | .unexpectedToken .. => "UnexpectedToken"
  | .nonExpression _ => "NonExpression"
  | .unexpectedEnd | .outOfRoom => "UnexpectedEof"
  | .invalidParameter => "InvalidParameter"
  | .expectedAssignment => "ExpectedAssignment"
  | .invalidCarry _ => "InvalidCarryCount"
  | .lexical _ => "LexicalError"

/-- The code under which the cause is documented. -/
def code : Cause → String
  | .unexpectedToken .. => "PA001"
  | .nonExpression _ => "PA002"
  | .unexpectedEnd | .outOfRoom => "PA003"
  | .invalidParameter => "PA004"
  | .expectedAssignment => "PA005"
  | .invalidCarry _ => "PA006"
  | .lexical error => error.cause.code

/-- What went wrong, in a sentence. -/
def message : Cause → String
  | .unexpectedToken actual expected =>
    "Expected " ++ expected.label ++ " but got token " ++ actual.label ++ "."
  | .nonExpression kind => "Expected an expression but got token " ++ kind.label ++ "."
  | .unexpectedEnd | .outOfRoom => "Expected a non-EOF token."
  | .invalidParameter => "Function parameters must be identifiers."
  | .expectedAssignment => "Expected an assignment after `&`."
  | .invalidCarry count => "Carry count `" ++ count.plain ++ "` must be a non-negative integer."
  | .lexical error => "Encountered a lexer error " ++ error.cause.message ++ "."

/-- What went wrong, in a few words. -/
def remark : Cause → String
  | .unexpectedToken actual expected =>
    "Unexpected: A = " ++ actual.label ++ " E = " ++ expected.label
  | .nonExpression kind => "Non-Expression: " ++ kind.label
  | .unexpectedEnd | .outOfRoom => "Unexpected EOF"
  | .invalidParameter => "Invalid Parameter"
  | .expectedAssignment => "Expected Assignment"
  | .invalidCarry count => "Invalid Carry Count: " ++ count.plain
  | .lexical error => "Lexical: " ++ error.cause.message

/-- The headline of a report. -/
def headline : Cause → String
  | .unexpectedToken .. => "Encountered an unexpected token"
  | .nonExpression _ => "Expected the start of an expression"
  | .unexpectedEnd | .outOfRoom => "Source ended in the middle of an expression"
  | _ => "Invalid syntax"

/-- What a report writes under the faulty place. -/
def label : Cause → String
  | .unexpectedToken actual expected => "Expected " ++ expected.label ++ " but got " ++ actual.label
  | .nonExpression kind => "Not an expression token " ++ kind.label
  | .unexpectedEnd | .outOfRoom => "Expected more input here"
  | cause => cause.message

/-- The structural text of a cause. -/
def inspect (cause : Cause) : String :=
  match cause with
  | .unexpectedToken actual expected =>
    Text.Inspect.record cause.name [("actual", actual.inspect), ("expected", expected.inspect)]
  | .nonExpression kind => Text.Inspect.variant cause.name [kind.inspect]
  | .invalidCarry count => Text.Inspect.variant cause.name [count.inspect]
  | .lexical error => Text.Inspect.variant cause.name [error.inspect]
  | .unexpectedEnd | .invalidParameter | .expectedAssignment | .outOfRoom => cause.name

end Cause

end ParseError

/-- A place at which tokens make no expression. -/
structure ParseError where
  /-- Why they make none. -/
  cause : ParseError.Cause
  /-- Where that shows. -/
  span : Span
  deriving DecidableEq

namespace ParseError

/-- A lexical error met while reading an expression. -/
def ofLexError (error : LexError) : ParseError := ⟨.lexical error, error.span⟩

/-- The structural text of the error. -/
def inspect (error : ParseError) : String :=
  Text.Inspect.record "ParserError" [("kind", error.cause.inspect), ("span", error.span.inspect)]

/-- The error on one line, after the number of the line it stands on. -/
def summary (lines : Lines) (error : ParseError) : String :=
  "(" ++ toString (lines.lineAt error.span.start) ++ ") " ++ error.cause.remark

end ParseError

end ListScript
