import ListScript.Source.Span

/-!
# Line numbers

A table of the lines of a text, each one a half-open interval of byte offsets that ends after its
newline. Where the text does not end in a newline the last line reaches one byte further, so that
the end of the text belongs to it. An offset outside every line is numbered one past the last.
-/

namespace ListScript

/-- The lines of a text, in order. -/
structure Lines where
  /-- Each line's first offset and the offset after its last. -/
  intervals : Array (Nat × Nat)
  deriving Repr

namespace Lines

/-- The intervals of the lines of the remaining text, the line at hand having begun at `start` and
the remaining text beginning at `offset`. -/
def split (start offset : Nat) : List Char → List (Nat × Nat)
  | [] => if start < offset then [(start, offset + 1)] else []
  | c :: rest =>
    let next := offset + c.utf8Size
    if c = '\n' then (start, next) :: split next next rest else split start next rest

/-- The line table of a text. The empty text has one line. -/
def ofText (text : String) : Lines :=
  match text.toList with
  | [] => ⟨#[(0, 1)]⟩
  | chars => ⟨(split 0 0 chars).toArray⟩

/-- The number given to offsets outside every line. -/
def beyond (lines : Lines) : Nat := lines.intervals.size + 1

/-- The index of the line that holds an offset, looked for among `width` lines from `low` on by
halving. -/
def search (intervals : Array (Nat × Nat)) (offset low : Nat) : (width : Nat) → Option Nat
  | 0 => none
  | width + 1 =>
    let half := (width + 1) / 2
    match intervals[low + half]? with
    | none => none
    | some (first, after) =>
      if offset < first then search intervals offset low half
      else if after ≤ offset then search intervals offset (low + half + 1) (width - half)
      else some (low + half)
termination_by width => width

/-- The number of the line that holds a byte offset, counted from one. Numbers are not limited here:
they have 32 bits as long as there are fewer than `2 ^ 32 - 1` lines. -/
def lineAt (lines : Lines) (offset : Nat) : Nat :=
  match search lines.intervals offset 0 lines.intervals.size with
  | some index => index + 1
  | none => lines.beyond

end Lines

end ListScript
