import ListScript.Expr.ParseError
import ListScript.Source.Position
import ListScript.Value.Fault

/-!
# Reports

A report tells a reader about an error: a headline, the place in the file, what is wrong there, and
at times some advice. Offsets are counted in characters here, and an error whose offsets lie beyond
the end of the text in this count is reported by its headline alone.
-/

namespace ListScript

/-- What a report says about a place in a file. -/
structure Report.Detail where
  /-- The file, line and column. -/
  place : String
  /-- What is wrong there. -/
  label : String
  /-- Advice. -/
  note : Option String
  deriving DecidableEq, Repr

/-- A report about an error. -/
structure Report where
  /-- The headline. -/
  header : String
  /-- What is said about the place. -/
  detail : Option Report.Detail
  deriving DecidableEq, Repr

namespace Report

/-- The position of a span in a text: that of its start, if its last character too lies within the
text. -/
def position? (text : String) (span : Span) : Option Position := do
  let position ← Position.ofOffset? text span.start
  if span.length ≠ 0 then
    let _ ← Position.ofOffset? text (span.stop - 1)
  return position

/-- A report about a span of a text. -/
def about (text path : String) (span : Span) (code headline label : String)
    (note : Option String) : Report where
  header := "[" ++ code ++ "] Error: " ++ headline
  detail := (position? text span).map fun position => ⟨path ++ ":" ++ position.print, label, note⟩

/-- The report about a text that cannot be read. -/
def ofParseError (text path : String) (error : ParseError) : Report :=
  about text path error.span error.cause.code error.cause.headline error.cause.label none

/-- The report about a failed evaluation. -/
def ofRuntimeError (text path : String) (error : RuntimeError) : Report :=
  about text path error.span error.fault.code
    (error.fault.category.label ++ ": " ++ error.fault.category.headline) error.fault.message
    error.fault.note?

/-- The report as lines of text. -/
def lines (report : Report) : List String :=
  match report.detail with
  | none => [report.header]
  | some detail =>
    [report.header, "  at " ++ detail.place, "  " ++ detail.label]
      ++ detail.note.toList.map ("  Note: " ++ ·)

end Report

end ListScript
