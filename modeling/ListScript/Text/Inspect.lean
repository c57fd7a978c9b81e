import ListScript.Text.Quoted

/-!
# Structural text

The one-line text of a tree of data: the constructor's name, its fields in order, lists in brackets.
Every type of the language that can be inspected builds its text from these pieces.
-/

namespace ListScript.Text.Inspect

/-- Items between square brackets. -/
def list (items : List String) : String :=
  "[" ++ String.intercalate ", " items ++ "]"

/-- A constructor with unnamed arguments. -/
def variant (name : String) (arguments : List String) : String :=
  name ++ "(" ++ String.intercalate ", " arguments ++ ")"

/-- A constructor with named fields. -/
def record (name : String) (fields : List (String × String)) : String :=
  name ++ " \x7b "
    ++ String.intercalate ", " (fields.map fun (field, text) => field ++ ": " ++ text) ++ " \x7d"

/-- A value that may be absent. -/
def option : Option String → String
  | none => "None"
  | some text => variant "Some" [text]

/-- A truth value. -/
def boolean (b : Bool) : String := if b then "true" else "false"

/-- A list of names, each one quoted. -/
def names (items : List String) : String := list (items.map quoteString)

end ListScript.Text.Inspect
