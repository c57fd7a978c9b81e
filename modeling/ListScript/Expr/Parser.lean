import ListScript.Expr.Stream
import ListScript.Token.Listing

/-!
# Reading expressions

Expressions are read by binding powers: an operand, then operators as long as they bind at least as
strongly as the context asks. Each production takes the reader of nested expressions as an argument.
The knot is tied by `Parser.expressionWithin`, whose `room` bounds the nesting and the rounds of
each loop: every nested expression and every round takes a token first, so room for one more than
the pending tokens is never used up.

A token that can both start and continue an expression continues it only on the same line.
-/

namespace ListScript

/-- What an assignment operator does. -/
inductive AssignOp where
  /-- Store the value. -/
  | plain
  /-- Store the value for good. -/
  | const
  /-- Store the result of an operator on the old value and the given one. -/
  | compound (operator : Binary)
  deriving DecidableEq, Repr

/-- How a token continues the expression before it. -/
inductive Continuation where
  /-- Arguments of a call. -/
  | call
  /-- The position of an element. -/
  | index
  /-- A method call. -/
  | method
  /-- An update after its operand. -/
  | update (step : Step)
  /-- An operator with another operand. -/
  | binary (operator : Binary)
  /-- An assignment. -/
  | assign (operator : AssignOp)
  /-- The other bound of a range. -/
  | range (inclusive : Bool)
  /-- A value to push. -/
  | push
  /-- A place to shift into. -/
  | shift
  deriving DecidableEq, Repr

namespace Continuation

/-- How strongly the continuation binds what stands before it. -/
def leftPower : Continuation → Nat
  | .call | .index | .method | .update _ => Power.trailing
  | .binary operator => (Power.binary operator).left
  | .assign _ => Power.assignment.left
  | .range _ => Power.range.left
  | .push | .shift => Power.transfer.left

/-- How a symbol continues an expression; `sameLine` says that no newline stands before it. -/
def ofSymbol? (sameLine : Bool) : Symbol → Option Continuation
  | .leftParen => if sameLine then some .call else none
  | .leftBracket => if sameLine then some .index else none
  | .dot => some .method
  | .plusPlus => if sameLine then some (.update .increment) else none
  | .minusMinus => if sameLine then some (.update .decrement) else none
  | .plus => some (.binary .add)
  | .minus => if sameLine then some (.binary .subtract) else none
  | .star => some (.binary .multiply)
  | .slash => some (.binary .divide)
  | .percent => some (.binary .remainder)
  | .greater => some (.binary .greater)
  | .less => some (.binary .less)
  | .greaterEqual => some (.binary .greaterEqual)
  | .lessEqual => some (.binary .lessEqual)
  | .equalEqual => some (.binary .equal)
  | .andAnd => some (.binary .and)
  | .orOr => some (.binary .or)
  | .equal => some (.assign .plain)
  | .colonEqual => some (.assign .const)
  | .plusEqual => some (.assign (.compound .add))
  | .minusEqual => some (.assign (.compound .subtract))
  | .starEqual => some (.assign (.compound .multiply))
  | .slashEqual => some (.assign (.compound .divide))
  | .percentEqual => some (.assign (.compound .remainder))
  | .doubleDot => some (.range false)
  | .doubleDotEqual => some (.range true)
  | .leftShift => some .push
  | .rightShift => if sameLine then some .shift else none
  | _ => none

/-- How a token continues the expression before it. -/
def ofToken? (token : Token) : Option Continuation :=
  match token.kind with
  | .symbol s => ofSymbol? (!token.startsLine) s
  | _ => none

end Continuation

namespace Parser

/-! ## Sequences -/

/-- Expressions up to a closing token, which stays in the stream. Semicolons may stand anywhere
between them. -/
def sequence (expression : Nat → Parser Expr) (closing : Token.Kind) :
    (rounds : Nat) → Parser (List Expr)
  | 0 => exhausted
  | rounds + 1 => do
    skipSemicolons
    let token ← peek
    if token.kind = closing then return []
    else if token.kind = .endOfText then throw ⟨.unexpectedEnd, token.span⟩
    else
      let first ← expression 0
      let rest ← sequence expression closing rounds
      return first :: rest

/-- Expressions with commas between them and perhaps after the last, up to and with a closing
symbol. -/
def arguments (expression : Nat → Parser Expr) (closing : Symbol) :
    (rounds : Nat) → Parser (List Expr)
  | 0 => exhausted
  | rounds + 1 => do
    if ← accept (.symbol closing) then return []
    else
      let first ← expression 0
      if ← accept (.symbol .comma) then
        let rest ← arguments expression closing rounds
        return first :: rest
      else
        let _ ← expect (.symbol closing)
        return [first]

/-- One or more expressions with commas between them. -/
def commaSeparated (expression : Nat → Parser Expr) : (rounds : Nat) → Parser (List Expr)
  | 0 => exhausted
  | rounds + 1 => do
    let first ← expression 0
    if ← accept (.symbol .comma) then
      let rest ← commaSeparated expression rounds
      return first :: rest
    else return [first]

/-! ## Continuations -/

/-- The expression that pushes a value: an index expression gives list and position, anything else
is a list to push at the end of. -/
def pushInto (span : Span) (target value : Expr) : Expr :=
  match target with
  | .index _ list position => .push span list position value
  | list => .push span list (.number (.empty list.span.stop) (.ofInt (-1))) value

/-- The expression that pops: an index expression gives list and position, anything else is a list
to pop the last element of. -/
def popFrom (span : Span) (source : Expr) : Expr :=
  match source with
  | .index _ list position => .pop span list position
  | list => .pop span list (.number (.empty list.span.stop) (.ofInt (-1)))

/-- The value that an assignment stores, given what stands on its two sides. -/
def assignedValue (operator : AssignOp) (target value : Expr) : Expr :=
  match operator with
  | .compound operator => .binary (target.span.merge value.span) operator target value
  | _ => value

/-- The rest of an assignment after its operator: the value, then the limit if there is one. -/
def assignment (expression : Nat → Parser Expr) (operator : AssignOp) (target : Expr) :
    Parser Expr := do
  let value ← expression Power.assignment.right
  let value := assignedValue operator target value
  let limit ←
    if ← accept (.symbol .arrow) then expression Power.transfer.left else absentNumber (-1)
  let span ← spanFrom target.span.start
  return .assign span target value limit ⟨operator = .const, false⟩

/-- The expression that a continuation makes of the one before it, its first token being taken. -/
def extend (expression : Nat → Parser Expr) (rounds : Nat) (lhs : Expr) :
    Continuation → Parser Expr
  | .call => do
    let items ← arguments expression .rightParen rounds
    return .call (← spanFrom lhs.span.start) lhs items
  | .index => do
    let position ← expression 0
    let _ ← expect (.symbol .rightBracket)
    return .index (← spanFrom lhs.span.start) lhs position
  | .method => do
    let name ← expect .identifier
    let _ ← expect (.symbol .leftParen)
    let items ← arguments expression .rightParen rounds
    return .method (← spanFrom lhs.span.start) lhs name.lexeme items
  | .update step => do return .update (← spanFrom lhs.span.start) step true lhs
  | .binary operator => do
    let rhs ← expression (Power.binary operator).right
    return .binary (← spanFrom lhs.span.start) operator lhs rhs
  | .assign operator => assignment expression operator lhs
  | .range inclusive => do
    let last ← expression Power.range.right
    let step ←
      if ← accept (.symbol .doubleColon) then expression Power.range.right else absentNumber 1
    return .range (← spanFrom lhs.span.start) lhs last step inclusive
  | .push => do
    let value ← expression Power.transfer.right
    return pushInto (← spanFrom lhs.span.start) lhs value
  | .shift => do
    let target ← expression Power.transfer.right
    return .shift (← spanFrom lhs.span.start) lhs target

/-- Continue an expression as long as the next token continues it and binds at least as strongly as
`least`. -/
def continued (expression : Nat → Parser Expr) (room least : Nat) :
    (rounds : Nat) → Expr → Parser Expr
  | 0, _ => exhausted
  | rounds + 1, lhs => do
    match Continuation.ofToken? (← peek) with
    | none => return lhs
    | some continuation =>
      if continuation.leftPower < least then return lhs
      else
        let _ ← take
        let lhs ← extend expression room lhs continuation
        continued expression room least rounds lhs

/-! ## Operands -/

/-- The name that a parameter list's item stands for. -/
def parameter : Expr → Parser String
  | .identifier _ name => return name
  | e => throw ⟨.invalidParameter, e.span⟩

/-- A function literal from the body on. A body that is no block makes a block of one expression. -/
def functionBody (expression : Nat → Parser Expr) (start : Nat) (parameters : List String) :
    Parser Expr := do
  let body ← expression 0
  let span ← spanFrom start
  match body with
  | .block bodySpan items => return .function span parameters items bodySpan
  | e => return .function span parameters [e] e.span

/-- What an opening parenthesis starts: a group or a function literal. -/
def groupOrFunction (expression : Nat → Parser Expr) (rounds start : Nat) : Parser Expr := do
  if ← accept (.symbol .rightParen) then
    let _ ← expect (.symbol .fatArrow)
    functionBody expression start []
  else
    let first ← expression 0
    if ← accept (.symbol .comma) then
      let rest ← commaSeparated expression rounds
      let _ ← expect (.symbol .rightParen)
      let _ ← expect (.symbol .fatArrow)
      let parameters ← (first :: rest).mapM parameter
      functionBody expression start parameters
    else
      let _ ← expect (.symbol .rightParen)
      if ← accept (.symbol .fatArrow) then
        let name ← parameter first
        functionBody expression start [name]
      else return .group (← spanFrom start) first

/-- A loop from its keyword on. -/
def loop (expression : Nat → Parser Expr) (start : Nat) : Parser Expr := do
  if ← accept (.symbol .leftParen) then
    let initial ← expression 0
    let _ ← expect (.symbol .semicolon)
    let condition ← expression 0
    let _ ← expect (.symbol .semicolon)
    let step ← expression 0
    let _ ← expect (.symbol .rightParen)
    let body ← expression 0
    return .forLoop (← spanFrom start) initial condition step body
  else
    let name ← expect .identifier
    let keyword ← take
    let walk ←
      match keyword.kind with
      | .keyword .inWord => pure Walk.positions
      | .keyword .ofWord => pure Walk.elements
      | actual => throw ⟨.unexpectedToken actual (.keyword .inWord), keyword.span⟩
    let enumerable ← expression 0
    let body ← expression 0
    return .forEach (← spanFrom start) walk name.lexeme enumerable body

/-- The greatest count of blocks that a signal can cross. -/
def mostCarry : Nat := 0xffffffff

/-- The count of blocks that a signal crosses: a number on the same line, or none. -/
def carry : Parser Nat := do
  let token ← peek
  if token.kind = .number && !token.startsLine then
    let _ ← take
    let count := Number.ofLiteral token.lexeme
    if count.isWhole && count.le (.ofNat mostCarry) then return count.toInt.toNat
    else throw ⟨.invalidCarry count, token.span⟩
  else return 0

/-- An operator before its operand. -/
def unary (expression : Nat → Parser Expr) (start : Nat) (operator : Unary) : Parser Expr := do
  let operand ← expression Power.unary
  return .unary (← spanFrom start) operator operand

/-- An update before its operand. -/
def update (expression : Nat → Parser Expr) (start : Nat) (step : Step) : Parser Expr := do
  let operand ← expression Power.unary
  return .update (← spanFrom start) step false operand

/-- What a symbol starts. -/
def symbolOperand (expression : Nat → Parser Expr) (rounds : Nat) (token : Token) :
    Symbol → Parser Expr
  | .leftBracket => do
    let items ← arguments expression .rightBracket rounds
    return .list (← spanFrom token.span.start) items
  | .leftBrace => do
    let body ← sequence expression (.symbol .rightBrace) rounds
    let _ ← expect (.symbol .rightBrace)
    return .block (← spanFrom token.span.start) body
  | .leftParen => groupOrFunction expression rounds token.span.start
  | .minus => unary expression token.span.start .negate
  | .bang => unary expression token.span.start .not
  | .star => unary expression token.span.start .copy
  | .plusPlus => update expression token.span.start .increment
  | .minusMinus => update expression token.span.start .decrement
  | .rightShift => do
    let source ← expression Power.unary
    return popFrom (← spanFrom token.span.start) source
  | .ampersand => do
    match ← expression 0 with
    | .assign _ target value limit mode =>
      return .assign (← spanFrom token.span.start) target value limit { mode with isRef := true }
    | e => throw ⟨.expectedAssignment, e.span⟩
  | s => throw ⟨.nonExpression (.symbol s), token.span⟩

/-- What a keyword starts. -/
def keywordOperand (expression : Nat → Parser Expr) (token : Token) : Keyword → Parser Expr
  | .nullWord => return .null token.span
  | .trueWord => return .boolean token.span true
  | .falseWord => return .boolean token.span false
  | .ifWord => do
    let condition ← expression 0
    let success ← expression 0
    let failure ←
      if ← accept (.keyword .elseWord) then some <$> expression 0 else pure none
    return .branch (← spanFrom token.span.start) condition success failure
  | .whileWord => do
    let condition ← expression 0
    let body ← expression 0
    return .whileLoop (← spanFrom token.span.start) condition body
  | .forWord => loop expression token.span.start
  | .breakWord => do
    let count ← carry
    return .control (← spanFrom token.span.start) ⟨.stop, count⟩
  | .continueWord => do
    let count ← carry
    return .control (← spanFrom token.span.start) ⟨.next, count⟩
  | k => throw ⟨.nonExpression (.keyword k), token.span⟩

/-- What an operand is, given its first token. -/
def operandOf (expression : Nat → Parser Expr) (rounds : Nat) (token : Token) : Parser Expr :=
  match token.kind with
  | .number => return .number token.span (.ofLiteral token.lexeme)
  | .string => return .string token.span (Token.stringValue token.lexeme)
  | .character =>
    return .character token.span ((Token.characterValue token.lexeme).headD '\x00')
  | .identifier => return .identifier token.span token.lexeme
  | .keyword k => keywordOperand expression token k
  | .symbol s => symbolOperand expression rounds token s
  | .endOfText => throw ⟨.unexpectedEnd, token.span⟩

/-- An operand: everything that does not begin with an operand of its own. -/
def operand (expression : Nat → Parser Expr) (rounds : Nat) : Parser Expr :=
  take >>= operandOf expression rounds

/-! ## The knot -/

/-- An expression whose operators all bind at least as strongly as the given power. -/
def expressionWithin : (room : Nat) → (least : Nat) → Parser Expr
  | 0, _ => exhausted
  | room + 1, least => do
    let lhs ← operand (expressionWithin room) room
    continued (expressionWithin room) room least room lhs

/-- The next expression of a stream. -/
def expression : Parser Expr := fun s => expressionWithin (s.pending.length + 1) 0 s

/-- All the expressions of a stream. -/
def program : Parser Block := fun s =>
  let room := s.pending.length + 1
  let body := sequence (expressionWithin room) .endOfText room
  (Block.mk · ⟨0, s.size⟩) <$> body <| s

end Parser

/-- The block that a source text stands for. -/
def Block.parse (source : String) : Except ParseError Block :=
  match Parser.program (.ofSource source) with
  | .ok block _ => .ok block
  | .error error _ => .error error

end ListScript
