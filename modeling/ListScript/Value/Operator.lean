import ListScript.Value.Equality

/-!
# Operators on values

Arithmetic and order are defined on numbers, logic on truth values, equality on values of one kind,
and addition also on lists, which it joins in a new list.
-/

namespace ListScript

namespace Binary

/-- The value of an operator on two numbers. -/
def onNumbers (x y : Number) : Binary → Option Value
  | .add => some (.number (x + y))
  | .subtract => some (.number (x - y))
  | .multiply => some (.number (x * y))
  | .divide => some (.number (x / y))
  | .remainder => some (.number (x % y))
  | .greater => some (.boolean (y.lt x))
  | .less => some (.boolean (x.lt y))
  | .greaterEqual => some (.boolean (y.le x))
  | .lessEqual => some (.boolean (x.le y))
  | .equal | .and | .or => none

/-- The value of an operator on two truth values. -/
def onBooleans (x y : Bool) : Binary → Option Value
  | .and => some (.boolean (x && y))
  | .or => some (.boolean (x || y))
  | _ => none

/-- The value of an operator that needs no new list, if it is defined on the operands. -/
def pureValue? (heap : Heap) (operator : Binary) (lhs rhs : Value) : Option Value :=
  match operator with
  | .equal => (heap.equal? lhs rhs).map .boolean
  | operator =>
    match lhs, rhs with
    | .number x, .number y => operator.onNumbers x y
    | .boolean x, .boolean y => operator.onBooleans x y
    | _, _ => none

end Binary

namespace HeapM

/-- The value of an operator on two operands. -/
def binary (operator : Binary) (lhs rhs : Value) : HeapM Value := do
  match operator, lhs, rhs with
  | .add, .list a, .list b => newList ((← items a) ++ (← items b))
  | operator, lhs, rhs => fun heap =>
    match operator.pureValue? heap lhs rhs with
    | some value => .ok value heap
    | none => .error (.unsupportedBinary operator lhs.kind rhs.kind) heap

/-- The value of an operator on one operand. -/
def unary (operator : Unary) (operand : Value) : HeapM Value :=
  match operator, operand with
  | .copy, value => copy value
  | .negate, .number x => pure (.number x.neg)
  | .not, .boolean b => pure (.boolean !b)
  | operator, value => throw (.unsupportedUnary operator.symbol value.kind)

end HeapM

/-- The value of a number changed by one. -/
def Step.apply (step : Step) : Value → Except Fault Value
  | .number x =>
    match step with
    | .increment => .ok (.number (x + 1))
    | .decrement => .ok (.number (x - 1))
  | value => .error (.unsupportedUnary step.symbol value.kind)

end ListScript
