/-!
# Operators and binding powers

An operator between two operands has a left and a right binding power. An operand between two
operators belongs to the one that binds it more strongly, so a greater right power makes an operator
group to the left, and a greater left power makes it group to the right.
-/

namespace ListScript

/-- Operators before one operand that only read it. -/
inductive Unary where
  /-- The opposite number. -/
  | negate
  /-- The opposite truth value. -/
  | not
  /-- A shallow copy of a list. -/
  | copy
  deriving DecidableEq, Repr

namespace Unary

/-- How the operator is written. -/
def symbol : Unary → String
  | .negate => "-"
  | .not => "!"
  | .copy => "*"

/-- The operator's name in structural text. -/
def inspect : Unary → String
  | .negate => "Minus"
  | .not => "Bang"
  | .copy => "Star"

end Unary

/-- The two ways to change a number by one in place. -/
inductive Step where
  /-- One more. -/
  | increment
  /-- One less. -/
  | decrement
  deriving DecidableEq, Repr

namespace Step

/-- How the step is written. -/
def symbol : Step → String
  | .increment => "++"
  | .decrement => "--"

/-- The step's name in structural text. -/
def inspect : Step → String
  | .increment => "Increment"
  | .decrement => "Decrement"

end Step

/-- Operators between two operands that compute a value from both. -/
inductive Binary where
  | add | subtract | multiply | divide | remainder
  | greater | less | greaterEqual | lessEqual | equal
  | and | or
  deriving DecidableEq, Repr

namespace Binary

/-- How the operator is written. -/
def symbol : Binary → String
  | .add => "+"
  | .subtract => "-"
  | .multiply => "*"
  | .divide => "/"
  | .remainder => "%"
  | .greater => ">"
  | .less => "<"
  | .greaterEqual => ">="
  | .lessEqual => "<="
  | .equal => "=="
  | .and => "&&"
  | .or => "||"

/-- The operator's name in structural text. -/
def inspect : Binary → String
  | .add => "Add"
  | .subtract => "Subtract"
  | .multiply => "Multiply"
  | .divide => "Divide"
  | .remainder => "Modulo"
  | .greater => "GreaterThan"
  | .less => "LessThan"
  | .greaterEqual => "GreaterThanEqual"
  | .lessEqual => "LessThanEqual"
  | .equal => "EqualEqual"
  | .and => "And"
  | .or => "Or"

end Binary

/-- The left and the right binding power of an operator between two operands. -/
structure Power where
  /-- How strongly the operator binds the operand on its left. -/
  left : Nat
  /-- How strongly the operator binds the operand on its right. -/
  right : Nat
  deriving DecidableEq, Repr

namespace Power

/-- The power with which an operator before its operand binds it. -/
def unary : Nat := 19

/-- The power of calls, indexing, method calls and updates after their operand. -/
def trailing : Nat := 21

/-- The powers of the operators that compute a value from both operands. -/
def binary : Binary → Power
  | .multiply | .divide | .remainder => ⟨17, 18⟩
  | .add | .subtract => ⟨15, 16⟩
  | .less | .lessEqual | .greater | .greaterEqual => ⟨11, 12⟩
  | .equal => ⟨9, 10⟩
  | .and => ⟨7, 8⟩
  | .or => ⟨5, 6⟩

/-- The powers of ranges. -/
def range : Power := ⟨13, 14⟩

/-- The powers of pushing into a list and of shifting into a place. -/
def transfer : Power := ⟨3, 4⟩

/-- The powers of assignments, which group to the right. -/
def assignment : Power := ⟨2, 1⟩

end Power

end ListScript
