import ListScript.Expr.Control
import ListScript.Expr.Operator
import ListScript.Number.Basic
import ListScript.Source.Span

/-!
# Expressions

The trees that a source text stands for. Every construct of the language is an expression. Each node
knows its span; nodes that the reader of a text fills in by default have an empty one.
-/

namespace ListScript

/-- What an assignment asks of the binding it writes. -/
structure BindingMode where
  /-- The binding cannot be written again. -/
  isConst : Bool
  /-- Frames share the binding's slot and do not copy its value. -/
  isRef : Bool
  deriving DecidableEq, Repr

/-- What a loop over a list binds its variable to. -/
inductive Walk where
  /-- The positions of the list. -/
  | positions
  /-- The elements of the list. -/
  | elements
  deriving DecidableEq, Repr

/-- An expression. -/
inductive Expr where
  /-- A numeric literal. -/
  | number (span : Span) (value : Number)
  /-- A truth value. -/
  | boolean (span : Span) (value : Bool)
  /-- The null value. -/
  | null (span : Span)
  /-- A string literal, which stands for a list of characters. -/
  | string (span : Span) (text : String)
  /-- A character literal. -/
  | character (span : Span) (value : Char)
  /-- A name. -/
  | identifier (span : Span) (name : String)
  /-- A list literal. -/
  | list (span : Span) (items : List Expr)
  /-- Expressions in sequence, the last of which gives the value. -/
  | block (span : Span) (body : List Expr)
  /-- An expression in parentheses. -/
  | group (span : Span) (inner : Expr)
  /-- A control signal. -/
  | control (span : Span) (signal : Control)
  /-- An operator before its operand. -/
  | unary (span : Span) (operator : Unary) (operand : Expr)
  /-- A place changed by one; `after` says that the operator follows the place, and the value is
  then the one before the change. -/
  | update (span : Span) (step : Step) (after : Bool) (operand : Expr)
  /-- An operator between its operands. -/
  | binary (span : Span) (operator : Binary) (lhs rhs : Expr)
  /-- A value stored into a place, with a limit on the frames that inherit the binding. -/
  | assign (span : Span) (target value limit : Expr) (mode : BindingMode)
  /-- A call of a function. -/
  | call (span : Span) (callee : Expr) (arguments : List Expr)
  /-- A function literal, whose body is a block with a span of its own. -/
  | function (span : Span) (parameters : List String) (body : List Expr) (bodySpan : Span)
  /-- A choice between two expressions. -/
  | branch (span : Span) (condition success : Expr) (failure : Option Expr)
  /-- A loop under a condition. -/
  | whileLoop (span : Span) (condition body : Expr)
  /-- A loop under a condition, with a start and a step of its own. -/
  | forLoop (span : Span) (start condition step body : Expr)
  /-- A loop over a list. -/
  | forEach (span : Span) (walk : Walk) (name : String) (enumerable body : Expr)
  /-- Elements of a list. -/
  | index (span : Span) (target position : Expr)
  /-- A call of a method. -/
  | method (span : Span) (receiver : Expr) (name : String) (arguments : List Expr)
  /-- The numbers from one bound to another. -/
  | range (span : Span) (first last step : Expr) (inclusive : Bool)
  /-- A value stored into a place, which yields what the place held. -/
  | shift (span : Span) (source target : Expr)
  /-- Elements taken out of a list. -/
  | pop (span : Span) (list position : Expr)
  /-- A value put into a list. -/
  | push (span : Span) (list position value : Expr)

namespace Expr

/-- Where an expression stands in the source. -/
def span : Expr → Span
  | number span .. | boolean span .. | null span | string span .. | character span ..
  | identifier span .. | list span .. | block span .. | group span .. | control span ..
  | unary span .. | update span .. | binary span .. | assign span .. | call span ..
  | function span .. | branch span .. | whileLoop span .. | forLoop span .. | forEach span ..
  | index span .. | method span .. | range span .. | shift span .. | pop span .. | push span .. =>
    span

/-- The expression names a place that can hold a value. -/
def isPlace : Expr → Bool
  | identifier .. | index .. => true
  | _ => false

end Expr

/-- Expressions evaluated in sequence. -/
structure Block where
  /-- The expressions, in order. -/
  body : List Expr
  /-- Where the block stands in the source. -/
  span : Span

end ListScript
