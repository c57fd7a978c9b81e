import ListScript.Source.Lines

/-!
# Lexical errors

Why a piece of the source is no token, and where it stands.
-/

namespace ListScript

namespace LexError

/-- Why a piece of the source is no token. -/
inductive Cause where
  /-- No token starts with the character. -/
  | unrecognized (c : Char)
  /-- A string literal without its closing quote. -/
  | unclosedString
  /-- A character literal without its character. -/
  | unclosedCharacter
  /-- A backslash before a character that cannot be escaped. -/
  | invalidEscape (c : Char)
  deriving DecidableEq, Repr

namespace Cause

/-- The name of the cause. -/
def name : Cause → String
  | .unrecognized _ => "Unrecognized"
  | .unclosedString => "UnclosedString"
  | .unclosedCharacter => "UnclosedCharacter"
  | .invalidEscape _ => "InvalidEscape"

/-- The code under which the cause is documented. -/
def code : Cause → String
  | .unrecognized _ => "LX001"
  | .unclosedString => "LX002"
  | .unclosedCharacter => "LX003"
  | .invalidEscape _ => "LX004"

/-- What went wrong, in a sentence. -/
def message : Cause → String
  | .unrecognized c => s!"Unrecognized character {c}"
  | .unclosedString => "Unterminated string literal"
  | .unclosedCharacter => "Character literal is missing its character"
  | .invalidEscape c => s!"Invalid escape sequence \\{c}"

/-- What went wrong, in the words of a token listing. -/
def remark : Cause → String
  | .unrecognized c => s!"Unexpected character: {c}"
  | .unclosedString => "Unterminated string."
  | .unclosedCharacter => "Unterminated character."
  | .invalidEscape c => s!"Invalid escape: \\{c}"

/-- The structural text of a cause. -/
def inspect (cause : Cause) : String :=
  match cause with
  | .unrecognized c | .invalidEscape c => Text.Inspect.variant cause.name [Text.quoteChar c]
  | .unclosedString | .unclosedCharacter => cause.name

end Cause

end LexError

/-- A piece of the source that is no token. -/
structure LexError where
  /-- Why it is none. -/
  cause : LexError.Cause
  /-- Where it stands. -/
  span : Span
  deriving DecidableEq, Repr

namespace LexError

/-- The structural text of a lexical error. -/
def inspect (error : LexError) : String :=
  Text.Inspect.record "LexicalError"
    [("kind", error.cause.inspect), ("span", error.span.inspect)]

/-- The line of a token listing that reports the error. -/
def listing (lines : Lines) (error : LexError) : String :=
  s!"[line {lines.lineAt error.span.start}] Error: {error.cause.remark}"

end LexError

end ListScript
