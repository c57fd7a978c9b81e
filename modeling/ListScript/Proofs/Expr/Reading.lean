import ListScript.Expr.Parser

/-!
# Properties that reading respects

Everything that reads a stream is made up of a few elementary steps by sequencing. A property of
readers that these steps have and that passes through sequencing, a `Parser.Sequential` one, passes
through the productions that are no loops. What a loop does when its rounds are used up is up to the
property: `Parser.Loops` says that the loops have it. A property that giving up has too, a
`Parser.Closed` one, is a property of the reader of expressions (`Parser.Closed.expressionWithin`)
and of sequences of them (`Parser.Closed.sequence`). Which tokens a reader asks for, and what it
makes of them, plays no part.
-/

namespace ListScript

/-- The cause is one that readers report on their own: the tokens at hand make no expression. -/
def ParseError.Cause.isGrammatical : ParseError.Cause → Bool
  | .lexical _ | .outOfRoom => false
  | _ => true

/-- What readers report on their own is no lexical error. -/
theorem ParseError.Cause.ne_lexical {cause : ParseError.Cause} (h : cause.isGrammatical = true)
    (error : LexError) : cause ≠ .lexical error := by
  rintro rfl
  cases h

/-- What readers report on their own is not that they have given up. -/
theorem ParseError.Cause.ne_outOfRoom {cause : ParseError.Cause}
    (h : cause.isGrammatical = true) : cause ≠ .outOfRoom := by
  rintro rfl
  cases h

namespace Parser

/-- The elementary steps of reading have the property, and it passes through sequencing. -/
structure Sequential (P : {α : Type} → Parser α → Prop) : Prop where
  pure {α : Type} (a : α) : P (Pure.pure a : Parser α)
  bind {α β : Type} {p : Parser α} {f : α → Parser β} : P p → (∀ a, P (f a)) → P (p >>= f)
  throw {α : Type} {cause : ParseError.Cause} (span : Span) :
    cause.isGrammatical = true → P (MonadExcept.throw ⟨cause, span⟩ : Parser α)
  peek : P Parser.peek
  take : P Parser.take
  skipSemicolons : P Parser.skipSemicolons
  spanFrom (start : Nat) : P (Parser.spanFrom start)
  absentNumber (value : Int) : P (Parser.absentNumber value)

/-- The loops that read expressions by the given reader have the property, with so many rounds. -/
structure Loops (P : {α : Type} → Parser α → Prop) (x : Nat → Parser Expr) (rounds : Nat) :
    Prop where
  sequence (closing : Token.Kind) : P (Parser.sequence x closing rounds)
  arguments (closing : Symbol) : P (Parser.arguments x closing rounds)
  commaSeparated : P (Parser.commaSeparated x rounds)

namespace Sequential

variable {P : {α : Type} → Parser α → Prop} (h : Sequential P)

include h

/-- Making something of what is read has the property. -/
theorem map {α β : Type} {p : Parser α} (f : α → β) (hp : P p) : P (f <$> p) := by
  rw [map_eq_pure_bind]
  exact h.bind hp fun a => h.pure (f a)

/-- A reader that ends with making a node. -/
theorem node {α : Type} (start : Nat) (make : Span → α) :
    P (do return make (← Parser.spanFrom start)) :=
  h.bind (h.spanFrom start) fun span => h.pure (make span)

/-- Taking a token of a given kind has the property. -/
theorem expect (kind : Token.Kind) : P (Parser.expect kind) := by
  refine h.bind h.take fun token => ?_
  split
  · exact h.pure token
  · split <;> exact h.throw _ rfl

/-- Accepting a token of a given kind has the property. -/
theorem accept (kind : Token.Kind) : P (Parser.accept kind) := by
  refine h.bind h.peek fun token => ?_
  split
  · exact h.bind h.take fun _ => h.pure true
  · exact h.pure false

/-- Reading how many loops a signal leaves has the property. -/
theorem carry : P Parser.carry := by
  refine h.bind h.peek fun token => ?_
  split
  · refine h.bind h.take fun _ => ?_
    dsimp only
    split
    · exact h.pure _
    · exact h.throw _ rfl
  · exact h.pure 0

/-- Making a parameter of an expression has the property. -/
theorem parameter (e : Expr) : P (Parser.parameter e) := by
  unfold Parser.parameter
  split
  · exact h.pure _
  · exact h.throw _ rfl

/-- Making parameters of expressions has the property. -/
theorem parameters (es : List Expr) : P (es.mapM Parser.parameter) := by
  induction es with
  | nil => exact h.pure []
  | cons e es ih =>
      rw [List.mapM_cons]
      exact h.bind (h.parameter e) fun name => h.bind ih fun names => h.pure _

/-! ## Productions -/

section

variable {x : Nat → Parser Expr} (hx : ∀ least, P (x least))

include hx

/-- Reading the right side of an assignment has the property. -/
theorem assignment (operator : AssignOp) (target : Expr) :
    P (Parser.assignment x operator target) := by
  unfold Parser.assignment
  refine h.bind (hx _) fun value => h.bind (h.accept _) fun limited => ?_
  split
  · exact h.bind (hx _) fun limit => h.node _ _
  · exact h.bind (h.absentNumber _) fun limit => h.node _ _

/-- Reading what continues an expression has the property if the loops have it. -/
theorem extend {rounds : Nat} (hloops : Loops P x rounds) (lhs : Expr)
    (continuation : Continuation) :
    P (Parser.extend x rounds lhs continuation) := by
  cases continuation with
  | call => exact h.bind (hloops.arguments _) fun items => h.node _ _
  | index => exact h.bind (hx _) fun position => h.bind (h.expect _) fun _ => h.node _ _
  | method =>
      refine h.bind (h.expect _) fun name => h.bind (h.expect _) fun _ => ?_
      exact h.bind (hloops.arguments _) fun items => h.node _ _
  | update step => exact h.node _ _
  | binary operator | push | shift => exact h.bind (hx _) fun rhs => h.node _ _
  | assign operator => exact h.assignment hx operator lhs
  | range inclusive =>
      refine h.bind (hx _) fun last => h.bind (h.accept _) fun stepped => ?_
      split
      · exact h.bind (hx _) fun step => h.node _ _
      · exact h.bind (h.absentNumber _) fun step => h.node _ _

/-- Reading the body of a function has the property. -/
theorem functionBody (start : Nat) (parameters : List String) :
    P (Parser.functionBody x start parameters) := by
  refine h.bind (hx 0) fun body => h.bind (h.spanFrom start) fun span => ?_
  split <;> exact h.pure _

/-- Reading what begins with a parenthesis has the property if the loops have it. -/
theorem groupOrFunction {rounds : Nat} (hloops : Loops P x rounds) (start : Nat) :
    P (Parser.groupOrFunction x rounds start) := by
  unfold Parser.groupOrFunction
  refine h.bind (h.accept _) fun closed => ?_
  split
  · exact h.bind (h.expect _) fun _ => h.functionBody hx start []
  · refine h.bind (hx 0) fun first => h.bind (h.accept _) fun more => ?_
    split
    · refine h.bind (hloops.commaSeparated) fun rest => ?_
      refine h.bind (h.expect _) fun _ => h.bind (h.expect _) fun _ => ?_
      exact h.bind (h.parameters _) fun names => h.functionBody hx start names
    · refine h.bind (h.expect _) fun _ => h.bind (h.accept _) fun arrow => ?_
      split
      · exact h.bind (h.parameter first) fun name => h.functionBody hx start [name]
      · exact h.node _ _

/-- Reading a loop of the language has the property. -/
theorem loop (start : Nat) : P (Parser.loop x start) := by
  unfold Parser.loop
  refine h.bind (h.accept _) fun opened => ?_
  split
  · refine h.bind (hx 0) fun initial => h.bind (h.expect _) fun _ => ?_
    refine h.bind (hx 0) fun condition => h.bind (h.expect _) fun _ => ?_
    refine h.bind (hx 0) fun step => h.bind (h.expect _) fun _ => ?_
    exact h.bind (hx 0) fun body => h.node _ _
  · refine h.bind (h.expect _) fun name => h.bind h.take fun keyword => ?_
    have hrest (walk : Walk) : P (do
        let enumerable ← x 0
        let body ← x 0
        return Expr.forEach (← Parser.spanFrom start) walk name.lexeme enumerable body) :=
      h.bind (hx 0) fun enumerable => h.bind (hx 0) fun body => h.node _ _
    split
    · exact hrest _
    · exact hrest _
    · exact h.bind (h.throw _ rfl) hrest

/-- Reading an operand that begins with a symbol has the property if the loops have it. -/
theorem symbolOperand {rounds : Nat} (hloops : Loops P x rounds) (token : Token)
    (symbol : Symbol) :
    P (Parser.symbolOperand x rounds token symbol) := by
  have hunary (operator : Unary) : P (Parser.unary x token.span.start operator) :=
    h.bind (hx _) fun operand => h.node _ _
  have hupdate (step : Step) : P (Parser.update x token.span.start step) :=
    h.bind (hx _) fun operand => h.node _ _
  unfold Parser.symbolOperand
  split
  · exact h.bind (hloops.arguments _) fun items => h.node _ _
  · refine h.bind (hloops.sequence _) fun body => ?_
    exact h.bind (h.expect _) fun _ => h.node _ _
  · exact h.groupOrFunction hx hloops _
  · exact hunary _
  · exact hunary _
  · exact hunary _
  · exact hupdate _
  · exact hupdate _
  · exact h.bind (hx _) fun source => h.node _ _
  · refine h.bind (hx 0) fun e => ?_
    split
    · exact h.node _ _
    · exact h.throw _ rfl
  · exact h.throw _ rfl

/-- Reading an operand that begins with a keyword has the property. -/
theorem keywordOperand (token : Token) (keyword : Keyword) :
    P (Parser.keywordOperand x token keyword) := by
  have hcontrol (make : Nat → Control) : P (do
      let count ← Parser.carry
      return Expr.control (← Parser.spanFrom token.span.start) (make count)) :=
    h.bind h.carry fun count => h.node _ _
  unfold Parser.keywordOperand
  split
  · exact h.pure _
  · exact h.pure _
  · exact h.pure _
  · refine h.bind (hx 0) fun condition => h.bind (hx 0) fun success => ?_
    refine h.bind (h.accept _) fun otherwise => ?_
    split
    · exact h.bind (h.map some (hx 0)) fun failure => h.node _ _
    · exact h.bind (h.pure none) fun failure => h.node _ _
  · exact h.bind (hx 0) fun condition => h.bind (hx 0) fun body => h.node _ _
  · exact h.loop hx _
  · exact hcontrol _
  · exact hcontrol _
  · exact h.throw _ rfl

/-- Reading an operand after its first token has the property if the loops have it. -/
theorem operandOf {rounds : Nat} (hloops : Loops P x rounds) (token : Token) :
    P (Parser.operandOf x rounds token) := by
  unfold Parser.operandOf
  split
  · exact h.pure _
  · exact h.pure _
  · exact h.pure _
  · exact h.pure _
  · exact h.keywordOperand hx token _
  · exact h.symbolOperand hx hloops token _
  · exact h.throw _ rfl

end

end Sequential

/-- The property passes through sequencing, the elementary steps of reading have it, and so has
giving up for want of room. -/
structure Closed (P : {α : Type} → Parser α → Prop) : Prop extends Sequential P where
  exhausted {α : Type} : P (Parser.exhausted : Parser α)

namespace Closed

variable {P : {α : Type} → Parser α → Prop} (h : Closed P)

include h

section

variable {x : Nat → Parser Expr} (hx : ∀ least, P (x least))

include hx

/-- Reading a sequence of expressions has the property, since giving up has it. -/
theorem sequence (closing : Token.Kind) (rounds : Nat) : P (Parser.sequence x closing rounds) := by
  induction rounds with
  | zero => exact h.exhausted
  | succ rounds ih =>
      unfold Parser.sequence
      refine h.bind h.skipSemicolons fun _ => h.bind h.peek fun token => ?_
      split
      · exact h.pure []
      · split
        · exact h.throw _ rfl
        · exact h.bind (hx 0) fun first => h.bind ih fun rest => h.pure _

/-- Reading arguments up to a closing symbol has the property. -/
theorem arguments (closing : Symbol) (rounds : Nat) : P (Parser.arguments x closing rounds) := by
  induction rounds with
  | zero => exact h.exhausted
  | succ rounds ih =>
      unfold Parser.arguments
      refine h.bind (h.accept _) fun closed => ?_
      split
      · exact h.pure []
      · refine h.bind (hx 0) fun first => h.bind (h.accept _) fun more => ?_
        split
        · exact h.bind ih fun rest => h.pure _
        · exact h.bind (h.expect _) fun _ => h.pure _

/-- Reading expressions between commas has the property. -/
theorem commaSeparated (rounds : Nat) : P (Parser.commaSeparated x rounds) := by
  induction rounds with
  | zero => exact h.exhausted
  | succ rounds ih =>
      unfold Parser.commaSeparated
      refine h.bind (hx 0) fun first => h.bind (h.accept _) fun more => ?_
      split
      · exact h.bind ih fun rest => h.pure _
      · exact h.pure _

/-- All loops have the property. -/
theorem loops (rounds : Nat) : Loops P x rounds where
  sequence closing := h.sequence hx closing rounds
  arguments closing := h.arguments hx closing rounds
  commaSeparated := h.commaSeparated hx rounds

/-- The rounds that continue an expression have the property. -/
theorem continued (room least rounds : Nat) (lhs : Expr) :
    P (Parser.continued x room least rounds lhs) := by
  induction rounds generalizing lhs with
  | zero => exact h.exhausted
  | succ rounds ih =>
      unfold Parser.continued
      refine h.bind h.peek fun token => ?_
      split
      · exact h.pure lhs
      · split
        · exact h.pure lhs
        · have hextend := h.extend hx (h.loops hx room) lhs
          exact h.bind h.take fun _ => h.bind (hextend _) fun lhs => ih lhs

end

/-- The reader of expressions has the property. -/
theorem expressionWithin (room least : Nat) : P (Parser.expressionWithin room least) := by
  induction room generalizing least with
  | zero => exact h.exhausted
  | succ room ih =>
      unfold Parser.expressionWithin
      unfold operand
      refine h.bind (h.bind h.take fun token => ?_) fun lhs => ?_
      · exact h.operandOf ih (h.loops ih room) token
      · exact h.continued ih room least room lhs

end Closed

end Parser

end ListScript
