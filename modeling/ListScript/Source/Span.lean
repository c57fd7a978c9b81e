import ListScript.Text.Inspect

/-!
# Spans of a source text

A span is a run of bytes of the UTF-8 source, given by its first byte and its length.
-/

namespace ListScript

/-- A run of bytes of the source. -/
structure Span where
  /-- The offset of the first byte. -/
  start : Nat
  /-- The number of bytes. -/
  length : Nat
  deriving DecidableEq, Inhabited, Repr

namespace Span

/-- The offset just past the last byte. -/
def stop (span : Span) : Nat := span.start + span.length

/-- The span from one offset to another, empty when the second is not past the first. -/
def between (start stop : Nat) : Span := ⟨start, stop - start⟩

/-- The empty span at an offset. -/
def empty (offset : Nat) : Span := ⟨offset, 0⟩

/-- The least span that covers both. -/
def merge (a b : Span) : Span := between (min a.start b.start) (max a.stop b.stop)

/-- The structural text of a span. -/
def inspect (span : Span) : String :=
  Text.Inspect.record "Span" [("start", toString span.start), ("length", toString span.length)]

/-- The offsets of a span as a half-open interval. -/
def interval (span : Span) : String :=
  toString span.start ++ ".." ++ toString span.stop

/-- What is left of the characters after the given number of bytes, or nothing if that many bytes
end inside a character or beyond the text. -/
def dropBytes : Nat → List Char → Option (List Char)
  | 0, chars => some chars
  | _ + 1, [] => none
  | n + 1, c :: chars => if c.utf8Size ≤ n + 1 then dropBytes (n + 1 - c.utf8Size) chars else none
termination_by _ chars => chars.length

/-- The text under a span, or nothing if the span leaves the text or cuts a character. -/
def text? (span : Span) (source : String) : Option String := do
  let tail ← dropBytes span.start source.toList
  let rest ← dropBytes span.length tail
  pure (String.ofList (tail.take (tail.length - rest.length)))

end Span

end ListScript
