import ListScript.Expr.Basic
import ListScript.Expr.ParseError
import ListScript.Token.Scan

/-!
# Token streams

A stream holds what is still to be read of a source text and where the last token read ended. A
lexical error in the stream is reported by whoever looks at it, and taken out by whoever takes it.
Past its last item a stream yields the end of the text for ever.
-/

namespace ListScript

/-- What is still to be read of a source text. -/
structure TokenStream where
  /-- The tokens and lexical errors to come. -/
  pending : List (Except LexError Token)
  /-- The number of bytes of the source text. -/
  size : Nat
  /-- The offset after the last token taken. -/
  previousStop : Nat

/-- The stream of a source text. -/
def TokenStream.ofSource (source : String) : TokenStream :=
  ⟨Token.scan source, source.utf8ByteSize, 0⟩

/-- Computations that read a stream. What they took stays taken when they fail. -/
abbrev Parser := EStateM ParseError TokenStream

namespace Parser

/-- The next token, which stays in the stream. -/
def peek : Parser Token := fun s =>
  match s.pending with
  | [] => .ok (.ending s.size) s
  | .ok token :: _ => .ok token s
  | .error error :: _ => .error (.ofLexError error) s

/-- The next token, taken from the stream. -/
def take : Parser Token := fun s =>
  match s.pending with
  | [] => .ok (.ending s.size) { s with previousStop := s.size }
  | .ok token :: rest => .ok token { s with pending := rest, previousStop := token.span.stop }
  | .error error :: rest => .error (.ofLexError error) { s with pending := rest }

/-- Take the next token, which must be of the given kind. -/
def expect (kind : Token.Kind) : Parser Token := do
  let token ← take
  if token.kind = kind then return token
  else if token.kind = .endOfText then throw ⟨.unexpectedEnd, token.span⟩
  else throw ⟨.unexpectedToken token.kind kind, token.span⟩

/-- Take the next token if it is the given symbol or keyword, and say whether it was. -/
def accept (kind : Token.Kind) : Parser Bool := do
  if (← peek).kind = kind then
    let _ ← take
    return true
  else return false

/-- What is left after the semicolons at the front, and the offset after the last of them. -/
def dropSemicolons :
    List (Except LexError Token) → (previousStop : Nat) → List (Except LexError Token) × Nat
  | .ok token :: rest, stop =>
    if token.kind = .symbol .semicolon then dropSemicolons rest token.span.stop
    else (.ok token :: rest, stop)
  | items, stop => (items, stop)

/-- Take all the semicolons that come next. -/
def skipSemicolons : Parser Unit := fun s =>
  let (pending, previousStop) := dropSemicolons s.pending s.previousStop
  .ok () { s with pending, previousStop }

/-- The span from an offset to the end of the last token taken. -/
def spanFrom (start : Nat) : Parser Span := fun s => .ok (.between start s.previousStop) s

/-- A number that the text leaves out, placed after the last token taken. -/
def absentNumber (value : Int) : Parser Expr := fun s =>
  .ok (.number (.empty s.previousStop) (.ofInt value)) s

/-- There is no room to read more. -/
def exhausted {α : Type} : Parser α := fun s => .error ⟨.outOfRoom, .empty s.size⟩ s

end Parser

end ListScript
