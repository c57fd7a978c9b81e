import ListScript.Text.Blank
import ListScript.Token.Basic
import ListScript.Token.Error
import ListScript.Token.Escape

/-!
# Scanning

The scanner skips blanks and comments, then takes the longest token that the text begins with. Each
rule says only how many characters belong to the token or to the faulty piece, so what is taken and
what is left always make up the text.
-/

namespace ListScript.Token

/-- The characters that may start a name or keyword. -/
def isWordStart (c : Char) : Bool := c.isAlpha || c == '_'

/-- The characters that may continue a name or keyword. -/
def isWordPart (c : Char) : Bool := c.isAlphanum || c == '_'

/-- How many characters of blanks and comments the text begins with. A comment runs from two slashes
to the end of its line; `inComment` says that the text begins inside one. -/
def gapLength (inComment : Bool) : List Char → Nat
  | [] => 0
  | c :: rest =>
    if inComment then gapLength (c != '\n') rest + 1
    else if Text.isBlank c then gapLength false rest + 1
    else if c == '/' && rest.head? == some '/' then gapLength true rest + 1
    else 0

/-- What begins at a character: a token of some kind or a faulty piece, together with how many
characters of the text after the first belong to it. -/
structure Piece where
  /-- The kind of the token, or why there is none. -/
  result : Except LexError.Cause Kind
  /-- The number of characters after the first. -/
  tailLength : Nat

namespace Piece

/-- The piece with some more characters before its tail. -/
def after (n : Nat) (piece : Piece) : Piece := { piece with tailLength := piece.tailLength + n }

/-- A string literal, given the text after its opening quote. -/
def string : List Char → Piece
  | [] => ⟨.error .unclosedString, 0⟩
  | '\x22' :: _ => ⟨.ok .string, 1⟩
  | ['\\'] => ⟨.error .unclosedString, 1⟩
  | '\\' :: c :: rest =>
    if (Escape.unescape? c).isSome then (string rest).after 2 else ⟨.error (.invalidEscape c), 2⟩
  | _ :: rest => (string rest).after 1

/-- A character literal, given the text after its mark. -/
def character : List Char → Piece
  | [] => ⟨.error .unclosedCharacter, 0⟩
  | ['\\'] => ⟨.error .unclosedCharacter, 1⟩
  | '\\' :: c :: _ =>
    if (Escape.unescape? c).isSome then ⟨.ok .character, 2⟩ else ⟨.error (.invalidEscape c), 2⟩
  | _ :: _ => ⟨.ok .character, 1⟩

/-- A numeric literal, given the text after its first digit: the digits that follow, and a point
with the digits after it if there is one at least. -/
def number (rest : List Char) : Piece :=
  let digits := (rest.takeWhile Char.isDigit).length
  match rest.drop digits with
  | '.' :: fraction =>
    let places := (fraction.takeWhile Char.isDigit).length
    ⟨.ok .number, if places = 0 then digits else digits + 1 + places⟩
  | _ => ⟨.ok .number, digits⟩

/-- The keyword that a word is. -/
def keyword? (word : List Char) : Option Keyword := Keyword.table.lookup (String.ofList word)

/-- A name or keyword, given its first character and the text after it. -/
def word (first : Char) (rest : List Char) : Piece :=
  let tail := rest.takeWhile isWordPart
  match keyword? (first :: tail) with
  | some k => ⟨.ok (.keyword k), tail.length⟩
  | none => ⟨.ok .identifier, tail.length⟩

/-- The text goes on with the given character. -/
def goesOn (c : Char) (rest : List Char) : Bool := rest.head? == some c

/-- The symbol that begins at a character, given the text after it, and how many characters of that
text it takes. The characters are looked at one by one, as long as there are symbols that go on. -/
def symbol? (first : Char) (rest : List Char) : Option (Symbol × Nat) :=
  match first with
  | '(' => some (.leftParen, 0)
  | ')' => some (.rightParen, 0)
  | '\x7b' => some (.leftBrace, 0)
  | '\x7d' => some (.rightBrace, 0)
  | '[' => some (.leftBracket, 0)
  | ']' => some (.rightBracket, 0)
  | ',' => some (.comma, 0)
  | ';' => some (.semicolon, 0)
  | '.' =>
    if goesOn '.' rest then
      if goesOn '=' (rest.drop 1) then some (.doubleDotEqual, 2) else some (.doubleDot, 1)
    else some (.dot, 0)
  | '+' =>
    if goesOn '+' rest then some (.plusPlus, 1)
    else if goesOn '=' rest then some (.plusEqual, 1)
    else some (.plus, 0)
  | '-' =>
    if goesOn '-' rest then some (.minusMinus, 1)
    else if goesOn '=' rest then some (.minusEqual, 1)
    else if goesOn '>' rest then some (.arrow, 1)
    else some (.minus, 0)
  | '*' => if goesOn '=' rest then some (.starEqual, 1) else some (.star, 0)
  | '/' => if goesOn '=' rest then some (.slashEqual, 1) else some (.slash, 0)
  | '%' => if goesOn '=' rest then some (.percentEqual, 1) else some (.percent, 0)
  | '!' => some (.bang, 0)
  | '=' =>
    if goesOn '=' rest then some (.equalEqual, 1)
    else if goesOn '>' rest then some (.fatArrow, 1)
    else some (.equal, 0)
  | '<' =>
    if goesOn '=' rest then some (.lessEqual, 1)
    else if goesOn '<' rest then some (.leftShift, 1)
    else some (.less, 0)
  | '>' =>
    if goesOn '=' rest then some (.greaterEqual, 1)
    else if goesOn '>' rest then some (.rightShift, 1)
    else some (.greater, 0)
  | ':' =>
    if goesOn '=' rest then some (.colonEqual, 1)
    else if goesOn ':' rest then some (.doubleColon, 1)
    else none
  | '&' => if goesOn '&' rest then some (.andAnd, 1) else some (.ampersand, 0)
  | '|' => if goesOn '|' rest then some (.orOr, 1) else none
  | _ => none

/-- The piece that begins at a character, given the text after it. -/
def beginning (first : Char) (rest : List Char) : Piece :=
  if first == '\x22' then string rest
  else if first == '@' then character rest
  else if first.isDigit then number rest
  else if isWordStart first then word first rest
  else
    match symbol? first rest with
    | some (s, tailLength) => ⟨.ok (.symbol s), tailLength⟩
    | none => ⟨.error (.unrecognized first), 0⟩

end Piece

/-- The number of bytes that characters take in UTF-8. -/
def byteLength (chars : List Char) : Nat := chars.foldr (fun c length => c.utf8Size + length) 0

/-- A place in the source: what is left of the text, and the byte offset at which that begins. -/
structure Cursor where
  /-- The text that is left. -/
  rest : List Char
  /-- Its byte offset. -/
  offset : Nat

namespace Cursor

/-- The start of a source text. -/
def start (source : String) : Cursor := ⟨source.toList, 0⟩

/-- The place after some characters. -/
def advance (cursor : Cursor) (n : Nat) : Cursor :=
  ⟨cursor.rest.drop n, cursor.offset + byteLength (cursor.rest.take n)⟩

/-- The token or lexical error that comes next, and the place after it; nothing at the end. -/
def next? (cursor : Cursor) : Option (Except LexError Token × Cursor) :=
  let gap := gapLength false cursor.rest
  let here := cursor.advance gap
  match here.rest with
  | [] => none
  | first :: rest =>
    let piece := Piece.beginning first rest
    let after := here.advance (piece.tailLength + 1)
    let span := Span.between here.offset after.offset
    match piece.result with
    | .ok kind =>
      some (.ok
        { kind
          span
          lexeme := String.ofList (here.rest.take (piece.tailLength + 1))
          startsLine := (cursor.rest.take gap).contains '\n' }, after)
    | .error cause => some (.error ⟨cause, span⟩, after)

/-- What comes next is taken from the text. -/
theorem length_rest_of_next? {cursor after : Cursor} {item : Except LexError Token}
    (h : cursor.next? = some (item, after)) : after.rest.length < cursor.rest.length := by
  unfold next? at h
  dsimp only at h
  split at h
  · cases h
  · rename_i first rest hrest
    have hafter :
        after = (cursor.advance (gapLength false cursor.rest)).advance
          ((Piece.beginning first rest).tailLength + 1) := by
      split at h <;> cases h <;> rfl
    have hlength := congrArg List.length hrest
    subst hafter
    simp only [advance, List.length_drop, List.length_cons] at hlength ⊢
    omega

/-- The tokens and lexical errors from a place on, in order. -/
def items (cursor : Cursor) : List (Except LexError Token) :=
  match _h : cursor.next? with
  | none => []
  | some (item, after) => item :: after.items
termination_by cursor.rest.length
decreasing_by exact length_rest_of_next? _h

end Cursor

/-- The tokens and lexical errors of a source text, in order, without the end of the text. -/
def scan (source : String) : List (Except LexError Token) := (Cursor.start source).items

/-- The token at the end of a source text of the given number of bytes. -/
def ending (size : Nat) : Token := ⟨.endOfText, .empty size, "", false⟩

end ListScript.Token
