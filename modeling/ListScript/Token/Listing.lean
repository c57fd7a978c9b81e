import ListScript.Number.Text
import ListScript.Token.Scan

/-!
# Token listings

One line for each token: what it is called, its text, and the value it stands for.
-/

namespace ListScript.Token

/-- The value of a string literal, given its text between and with the quotes. -/
def stringValue (lexeme : String) : String :=
  String.ofList (Escape.decode (lexeme.toList.drop 1).dropLast)

/-- The characters of a character literal, given its text with the mark. -/
def characterValue (lexeme : String) : List Char := Escape.decode (lexeme.toList.drop 1)

/-- The line of a listing that shows a token. -/
def listing (token : Token) : String :=
  match token.kind with
  | .endOfText => "EOF  null"
  | .number => s!"NUMBER {token.lexeme} {(Number.ofLiteral token.lexeme).print}"
  | .string => s!"STRING {token.lexeme} {stringValue token.lexeme}"
  | .character => s!"CHARACTER {token.lexeme} {String.ofList (characterValue token.lexeme)}"
  | kind => s!"{kind.label} {token.lexeme} null"

end ListScript.Token
