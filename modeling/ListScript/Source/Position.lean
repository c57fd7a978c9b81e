/-!
# Positions for readers

Where in a text a character stands, by line and column. Lines end in any of the line ends that
editors know, so these lines can be shorter than those counted for the short form of an error.
-/

namespace ListScript

/-- A line and a column, both counted from one. -/
structure Position where
  /-- The line. -/
  line : Nat
  /-- The column, in characters. -/
  column : Nat
  deriving DecidableEq, Repr

namespace Position

/-- The first position of a text. -/
def first : Position := ⟨1, 1⟩

/-- The position after a character other than a line end. -/
def right (p : Position) : Position := ⟨p.line, p.column + 1⟩

/-- The start of the next line. -/
def down (p : Position) : Position := ⟨p.line + 1, 1⟩

/-- The characters that end a line. -/
def isLineEnd (c : Char) : Bool :=
  c = '\n' || c = '\r' || c = '\x0b' || c = '\x0c' || c = '\u0085' || c = '\u2028'
    || c = '\u2029'

/-- The position `offset` characters after `p` in the given characters. A carriage return and a line
feed end one line together. The end of the text belongs to its last line. -/
def advance (p : Position) : List Char → (offset : Nat) → Option Position
  | _, 0 => some p
  | [], _ + 1 => none
  | [_], 1 => some p.right
  | c :: d :: rest, offset + 1 =>
    (if !isLineEnd c || (c = '\r' && d = '\n') then p.right else p.down).advance (d :: rest) offset
  | [_], _ + 2 => none

/-- The position at a character offset of a text; none beyond its end. -/
def ofOffset? (text : String) (offset : Nat) : Option Position := first.advance text.toList offset

/-- The position as text. -/
def print (p : Position) : String := toString p.line ++ ":" ++ toString p.column

end Position

end ListScript
