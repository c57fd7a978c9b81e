import ListScript.Number.Text
import ListScript.Source.Lines
import ListScript.Value.Basic

/-!
# Faults of evaluation

Why an evaluation fails. A fault alone is what an operation on values reports; an error of a run
adds where in the source it arose.
-/

namespace ListScript

/-- The classes of faults that the author of a script tells apart. -/
inductive Category where
  /-- The expression cannot mean anything. -/
  | syntactic
  /-- A value of the wrong kind. -/
  | type
  /-- A value out of bounds. -/
  | range
  /-- Any other failure of the script. -/
  | runtime
  /-- A ceiling on the evaluation was reached. -/
  | fatal
  deriving DecidableEq, Repr

namespace Category

/-- What messages call the class. -/
def label : Category → String
  | .syntactic => "SyntaxError"
  | .type => "TypeError"
  | .range => "RangeError"
  | .runtime => "RuntimeError"
  | .fatal => "FatalError"

/-- The headline of a report. -/
def headline : Category → String
  | .syntactic => "Malformed expression"
  | .type => "Operation applied to a value of the wrong type"
  | .range => "Value outside the accepted range"
  | .runtime => "Evaluation failed"
  | .fatal => "Evaluation aborted"

end Category

/-- The constructs that have a condition. -/
inductive Construct where
  | branch | whileLoop | forLoop
  deriving DecidableEq, Repr

/-- What messages call the construct. -/
def Construct.label : Construct → String
  | .branch => "if"
  | .whileLoop => "while"
  | .forLoop => "for loop"

/-- Why an evaluation fails. -/
inductive Fault where
  /-- The target of an assignment is no place. -/
  | invalidAssignmentTarget
  /-- The target of a shift is no place. -/
  | invalidShiftTarget
  /-- The operand of an update is no place. -/
  | invalidUpdateTarget (step : Step)
  /-- The operator is not defined on operands of these kinds. -/
  | unsupportedBinary (operator : Binary) (lhs rhs : Value.Kind)
  /-- The operator is not defined on an operand of this kind. -/
  | unsupportedUnary (symbol : String) (operand : Value.Kind)
  /-- The value has no elements. -/
  | nonIndexable (kind : Value.Kind)
  /-- The position is no number. -/
  | nonNumericIndex (target index : Value.Kind)
  /-- The value has no positions. -/
  | nonEnumerable (kind : Value.Kind)
  /-- The value has no elements to walk. -/
  | nonIterable (kind : Value.Kind)
  /-- The condition is no truth value. -/
  | nonBooleanCondition (construct : Construct) (kind : Value.Kind)
  /-- The limit of a binding is no number. -/
  | nonNumericLimit (kind : Value.Kind)
  /-- A bound or step of a range is no number. -/
  | nonNumericRange (first last step : Value.Kind)
  /-- Several positions are assigned something other than a list. -/
  | nonListAssignment (kind : Value.Kind)
  /-- The callee is no function. -/
  | invalidCallee (kind : Value.Kind)
  /-- Values of this kind have no methods. -/
  | noMethods (kind : Value.Kind)
  /-- Values of this kind have no text. -/
  | nonStringable (kind : Value.Kind)
  /-- An argument is of the wrong kind. -/
  | invalidArgumentType (name : String) (expected actual : Value.Kind)
  /-- No element stands at the position. -/
  | indexOutOfRange (index : Number) (length : Nat)
  /-- The number of digits cannot be used. -/
  | invalidDigits (digits : Number)
  /-- The name is not bound. -/
  | undefinedIdentifier (name : String)
  /-- The binding cannot be written again. -/
  | constantReassignment (name : String)
  /-- The numbers of positions and of values differ. -/
  | lengthMismatch (expected actual : Nat)
  /-- The number of arguments is wrong. -/
  | invalidArgumentCount (actual expected : Nat)
  /-- Values of this kind do not have the method. -/
  | unknownMethod (kind : Value.Kind) (name : String)
  /-- A control signal stands where a value is needed. -/
  | controlEscape (kind : Control.Kind)
  /-- The bounds or the step make no range. -/
  | invalidRange
  /-- A loop reached its ceiling. -/
  | tooManyIterations (limit : Nat)
  /-- Calls are nested as deeply as they may be. -/
  | callDepthExceeded (limit : Nat)
  deriving DecidableEq

namespace Fault

/-- The name of the fault. -/
def name : Fault → String
  | .invalidAssignmentTarget => "InvalidAssignmentTarget"
  | .invalidShiftTarget => "InvalidShiftTarget"
  | .invalidUpdateTarget _ => "InvalidUpdateTarget"
  | .unsupportedBinary .. => "UnsupportedBinary"
  | .unsupportedUnary .. => "UnsupportedUnary"
  | .nonIndexable _ => "NonIndexable"
  | .nonNumericIndex .. => "NonNumericIndex"
  | .nonEnumerable _ => "NonEnumerable"
  | .nonIterable _ => "NonIterable"
  | .nonBooleanCondition .. => "NonBooleanCondition"
  | .nonNumericLimit _ => "NonNumericLimit"
  | .nonNumericRange .. => "NonNumericRange"
  | .nonListAssignment _ => "NonListAssignment"
  | .invalidCallee _ => "InvalidCallee"
  | .noMethods _ => "NoMethods"
  | .nonStringable _ => "NonStringable"
  | .invalidArgumentType .. => "InvalidArgumentType"
  | .indexOutOfRange .. => "IndexOutOfRange"
  | .invalidDigits _ => "InvalidDigits"
  | .undefinedIdentifier _ => "UndefinedIdentifier"
  | .constantReassignment _ => "ConstantReassignment"
  | .lengthMismatch .. => "LengthMismatch"
  | .invalidArgumentCount .. => "InvalidArgumentCount"
  | .unknownMethod .. => "UnknownMethod"
  | .controlEscape _ => "ControlEscape"
  | .invalidRange => "InvalidRange"
  | .tooManyIterations _ => "TooManyIterations"
  | .callDepthExceeded _ => "CallDepthExceeded"

/-- The code under which the fault is documented. -/
def code : Fault → String
  | .invalidAssignmentTarget => "RT001"
  | .invalidShiftTarget => "RT002"
  | .invalidUpdateTarget _ => "RT003"
  | .unsupportedBinary .. => "RT004"
  | .unsupportedUnary .. => "RT005"
  | .nonIndexable _ => "RT006"
  | .nonNumericIndex .. => "RT007"
  | .nonEnumerable _ => "RT008"
  | .nonIterable _ => "RT009"
  | .nonBooleanCondition .. => "RT010"
  | .nonNumericLimit _ => "RT011"
  | .nonNumericRange .. => "RT012"
  | .nonListAssignment _ => "RT013"
  | .invalidCallee _ => "RT014"
  | .noMethods _ => "RT015"
  | .nonStringable _ => "RT016"
  | .invalidArgumentType .. => "RT017"
  | .indexOutOfRange .. => "RT018"
  | .invalidDigits _ => "RT019"
  | .undefinedIdentifier _ => "RT020"
  | .constantReassignment _ => "RT021"
  | .lengthMismatch .. => "RT022"
  | .invalidArgumentCount .. => "RT023"
  | .unknownMethod .. => "RT024"
  | .controlEscape _ => "RT025"
  | .invalidRange => "RT026"
  | .tooManyIterations _ => "RT027"
  | .callDepthExceeded _ => "RT028"

/-- The class of the fault. -/
def category : Fault → Category
  | .invalidAssignmentTarget | .invalidShiftTarget | .invalidUpdateTarget _ => .syntactic
  | .unsupportedBinary .. | .unsupportedUnary .. | .nonIndexable _ | .nonNumericIndex ..
  | .nonEnumerable _ | .nonIterable _ | .nonBooleanCondition .. | .nonNumericLimit _
  | .nonNumericRange .. | .nonListAssignment _ | .invalidCallee _ | .noMethods _
  | .nonStringable _ | .invalidArgumentType .. => .type
  | .indexOutOfRange .. | .invalidDigits _ => .range
  | .undefinedIdentifier _ | .constantReassignment _ | .lengthMismatch ..
  | .invalidArgumentCount .. | .unknownMethod .. | .controlEscape _ | .invalidRange => .runtime
  | .tooManyIterations _ | .callDepthExceeded _ => .fatal

/-- What went wrong, in a sentence. -/
def message : Fault → String
  | .invalidAssignmentTarget => "Invalid left-hand side of assignment"
  | .invalidShiftTarget => "Cannot shift value into this target"
  | .invalidUpdateTarget step => "Invalid operand for " ++ step.symbol
  | .unsupportedBinary operator lhs rhs =>
    "Unsupported operand types for " ++ operator.symbol ++ ": " ++ lhs.label ++ " and " ++ rhs.label
  | .unsupportedUnary symbol operand =>
    "Unsupported operand type for " ++ symbol ++ ": " ++ operand.label
  | .nonIndexable kind => "Cannot index type " ++ kind.label
  | .nonNumericIndex target index =>
    "Cannot index type " ++ target.label ++ " with type " ++ index.label
  | .nonEnumerable kind => "Cannot enumerate through type " ++ kind.label
  | .nonIterable kind => "Cannot iterate through type " ++ kind.label
  | .nonBooleanCondition construct kind =>
    "Cannot evaluate " ++ construct.label ++ " condition with type " ++ kind.label
  | .nonNumericLimit kind => "Variable limit must be type Number but given " ++ kind.label
  | .nonNumericRange first last step =>
    "All range values must be Number but given " ++ first.label ++ ", " ++ last.label ++ ", "
      ++ step.label
  | .nonListAssignment kind =>
    "Expected right hand to be a List when assigning with multiple index but given " ++ kind.label
  | .invalidCallee kind => kind.label ++ " is not a Function"
  | .noMethods kind => "Type " ++ kind.label ++ " does not have any method"
  | .nonStringable kind => "Cannot convert type " ++ kind.label ++ " to Character List"
  | .invalidArgumentType name expected actual =>
    "Argument `" ++ name ++ "` must be type " ++ expected.label ++ " but given " ++ actual.label
  | .indexOutOfRange index length =>
    "Index " ++ index.plain ++ " out of bound for length " ++ toString length
  | .invalidDigits digits =>
    "Digits " ++ digits.plain ++ " must be an integer between 0 and 100"
  | .undefinedIdentifier name => "Undefined identifier " ++ name
  | .constantReassignment name => "Cannot reassign constant " ++ name
  | .lengthMismatch expected actual =>
    "Length mismatch when assigning with multiple index. Expected " ++ toString expected
      ++ " item but given " ++ toString actual
  | .invalidArgumentCount actual expected =>
    "Expected " ++ toString expected ++ " argument but given " ++ toString actual
  | .unknownMethod kind name => "Type " ++ kind.label ++ " does not have \"" ++ name ++ "\""
  | .controlEscape kind => "`" ++ kind.word ++ "` cannot be used as a value"
  | .invalidRange => "Range needs finite bounds and a non-zero step"
  | .tooManyIterations limit => "Loop exceeded " ++ toString limit ++ " iterations"
  | .callDepthExceeded limit => "Call depth exceeded " ++ toString limit ++ " frames"

/-- Advice that a report adds. -/
def note? : Fault → Option String
  | .tooManyIterations limit =>
    some ("Raise the ceiling with `--max-iterations` if " ++ toString limit
      ++ " iterations are intended")
  | .callDepthExceeded limit =>
    some ("Raise the ceiling with `--max-call-depth` if " ++ toString limit
      ++ " frames are intended")
  | _ => none

open Text.Inspect in
/-- The structural text of a fault. -/
def inspect (fault : Fault) : String :=
  match fault with
  | .invalidAssignmentTarget | .invalidShiftTarget | .invalidRange => fault.name
  | .invalidUpdateTarget step => variant fault.name [Text.quoteString step.symbol]
  | .unsupportedBinary operator lhs rhs =>
    record fault.name
      [("operator", Text.quoteString operator.symbol), ("lhs", lhs.label), ("rhs", rhs.label)]
  | .unsupportedUnary symbol operand =>
    record fault.name [("operator", Text.quoteString symbol), ("operand", operand.label)]
  | .nonNumericIndex target index =>
    record fault.name [("target", target.label), ("index", index.label)]
  | .nonBooleanCondition construct kind =>
    record fault.name [("construct", Text.quoteString construct.label), ("kind", kind.label)]
  | .nonNumericRange first last step => variant fault.name [first.label, last.label, step.label]
  | .nonIndexable kind | .nonEnumerable kind | .nonIterable kind | .nonNumericLimit kind
  | .nonListAssignment kind | .invalidCallee kind | .noMethods kind | .nonStringable kind =>
    variant fault.name [kind.label]
  | .invalidArgumentType name expected actual =>
    record fault.name
      [("name", Text.quoteString name), ("expected", expected.label), ("actual", actual.label)]
  | .indexOutOfRange index length =>
    record fault.name [("index", index.inspect), ("length", toString length)]
  | .invalidDigits digits => variant fault.name [digits.inspect]
  | .undefinedIdentifier name | .constantReassignment name =>
    variant fault.name [Text.quoteString name]
  | .lengthMismatch expected actual =>
    record fault.name [("expected", toString expected), ("actual", toString actual)]
  | .invalidArgumentCount actual expected =>
    record fault.name [("actual", toString actual), ("expected", toString expected)]
  | .unknownMethod kind name =>
    record fault.name [("kind", kind.label), ("name", Text.quoteString name)]
  | .controlEscape kind => variant fault.name [kind.inspect]
  | .tooManyIterations limit | .callDepthExceeded limit => variant fault.name [toString limit]

end Fault

/-- A fault and the place in the source where it arose. -/
structure RuntimeError where
  /-- Why the evaluation failed. -/
  fault : Fault
  /-- Where. -/
  span : Span
  deriving DecidableEq

namespace RuntimeError

/-- The error comes from a ceiling on the evaluation. -/
def isFatal (error : RuntimeError) : Bool := error.fault.category = .fatal

/-- The structural text of the error. -/
def inspect (error : RuntimeError) : String :=
  Text.Inspect.record "RuntimeError" [("kind", error.fault.inspect), ("span", error.span.inspect)]

/-- The error on one line, after the number of the line it stands on. -/
def summary (lines : Lines) (error : RuntimeError) : String :=
  "(" ++ toString (lines.lineAt error.span.start) ++ ") " ++ error.fault.category.label ++ ": "
    ++ error.fault.message

end RuntimeError

namespace Value

/-- The value made ready to be stored: the mark of nothing becomes null, and a control signal has no
value. -/
def settle : Value → Except Fault Value
  | .nothing => .ok .null
  | .control signal => .error (.controlEscape signal.kind)
  | value => .ok value

end Value

end ListScript
