import ListScript.Eval.Loop
import ListScript.Eval.Place

/-!
# Evaluation

`Expr.eval` evaluates an expression by recursion on it. How a function of the script is called is an
argument, so the recursion never leaves the expression; `Closure.call` supplies it by recursion on
how many more calls may be nested. Together with the bounded loops of `Eval.loop` this makes
evaluation total.
-/

namespace ListScript

/-- How a function of the script is called: with its arguments, at a place of the source. -/
abbrev Caller := Closure → List Value → Span → Eval Value

/-- What an evaluation needs to know about where it takes place. -/
structure Context where
  /-- What the evaluation was told from outside. -/
  config : Config
  /-- How functions are called. -/
  call : Caller
  /-- The scope of names. -/
  scope : ScopeId

namespace Eval

/-- Call a value with arguments. -/
def apply (ctx : Context) (callee : Value) (arguments : List Value) (span : Span) : Eval Value :=
  match callee with
  | .function closure => ctx.call closure arguments span
  | .native native => callNative ctx.config.now native arguments span
  | other => fail (.invalidCallee other.kind) span

/-- The limit that a value stands for. -/
def limit (span : Span) : Value → Eval (Option Nat)
  | .number x => return Scopes.limitOfNumber x
  | other => fail (.nonNumericLimit other.kind) span

/-- Walk the positions or the elements of a value. -/
def walkValue (ctx : Context) (kind : Walk) (name : String) (span bodySpan : Span)
    (body : Eval Value) (value : Value) : Eval Value := do
  let heap := (← get).heap
  match kind with
  | .positions =>
    match value.positions? heap with
    | some items => walk ctx.scope name bodySpan body items
    | none => fail (.nonEnumerable value.kind) span
  | .elements =>
    match value.elements? heap with
    | some items => walk ctx.scope name bodySpan body items
    | none => fail (.nonIterable value.kind) span

end Eval

namespace Expr

open Eval

mutual

/-- Evaluate an expression. -/
def eval (ctx : Context) : Expr → Eval Value
  | .number _ value => return .number value
  | .boolean _ value => return .boolean value
  | .null _ => return .null
  | .string span text => onHeap span (HeapM.newText text)
  | .character _ value => return .character value
  | .identifier span name => lookup ctx.scope name span
  | .list span items => do
    let values ← evalAll ctx items
    onHeap span (HeapM.newList values)
  | .block _ body => evalBlock ctx false .nothing body
  | .group _ inner => inner.eval ctx
  | .control _ signal => return .control signal
  | .unary span operator operand => do
    let value ← operand.eval ctx
    onHeap span (HeapM.unary operator value)
  | .update span step after operand =>
    if !operand.isPlace then fail (.invalidUpdateTarget step) operand.span
    else do
      let place ← operand.evalPlace ctx
      let (old, new) ← place.update ctx.scope span step
      return if after then old else new
  | .binary span operator lhs rhs => do
    let lhs ← lhs.eval ctx
    let rhs ← rhs.eval ctx
    onHeap span (HeapM.binary operator lhs rhs)
  | .assign span target value limit mode =>
    if !target.isPlace then fail .invalidAssignmentTarget target.span
    else do
      let value ← settle value.span (← value.eval ctx)
      let limit ← Eval.limit limit.span (← limit.eval ctx)
      let place ← target.evalPlace ctx
      place.write ctx.scope span value mode limit
  | .call span callee arguments => do
    let values ← evalAll ctx arguments
    let callee ← callee.eval ctx
    Eval.apply ctx callee values span
  | .function _ parameters body _ => return .function ⟨parameters, body, ctx.scope⟩
  | .branch _ condition success failure => do
    if ← Eval.condition .branch condition.span (condition.eval ctx) then success.eval ctx
    else
      match failure with
      | some failure => failure.eval ctx
      | none => return .nothing
  | .whileLoop _ condition body =>
    loop ctx.config.maxIterations body.span
      (Eval.condition .whileLoop condition.span (condition.eval ctx)) (body.eval ctx) (pure ())
      ctx.config.maxIterations 0
  | .forLoop _ start condition step body => do
    let _ ← start.eval ctx
    loop ctx.config.maxIterations body.span
      (Eval.condition .forLoop condition.span (condition.eval ctx)) (body.eval ctx)
      (do let _ ← step.eval ctx) ctx.config.maxIterations 0
  | .forEach _ kind name enumerable body => do
    let value ← enumerable.eval ctx
    walkValue ctx kind name enumerable.span body.span (body.eval ctx) value
  | .index span target position => do
    let target ← target.eval ctx
    if !target.isIndexable then fail (.nonIndexable target.kind) span
    else
      let index ← position.eval ctx
      onHeap span (HeapM.readIndex target index)
  | .method span receiver name arguments => do
    let receiver ← receiver.eval ctx
    let method ← ofExcept span (Method.find receiver name)
    let values ← evalAll ctx arguments
    onHeap span (method.call receiver values)
  | .range span first last step inclusive => do
    let first ← first.eval ctx
    let last ← last.eval ctx
    let step ← step.eval ctx
    onHeap span (HeapM.range first last step inclusive)
  | .shift span source target =>
    if !target.isPlace then fail .invalidShiftTarget target.span
    else do
      let place ← target.evalPlace ctx
      let previous ← orElse (place.read ctx.scope span) .null
      let value ← settle source.span (← source.eval ctx)
      let value ← if source.isPlace then onHeap span (HeapM.copy value) else pure value
      let _ ← place.overwrite ctx.scope span value
      return previous
  | .pop span source position => do
    let target ← source.eval ctx
    if !target.isIndexable then return target
    else
      let index ← position.eval ctx
      onHeap span (HeapM.pop target index)
  | .push span target position value => do
    let target ← target.eval ctx
    let index ← position.eval ctx
    let value ← settle value.span (← value.eval ctx)
    onHeap span (HeapM.push target index value)

/-- Evaluate the parts of a place once. -/
def evalPlace (ctx : Context) : Expr → Eval Place
  | .identifier _ name => return .named name
  | .index _ target position => do
    let target ← target.eval ctx
    let index ← position.eval ctx
    return .element target index
  | e => fail .invalidAssignmentTarget e.span

/-- Evaluate expressions in order to values that can be stored. -/
def evalAll (ctx : Context) : List Expr → Eval (List Value)
  | [] => return []
  | e :: rest => do
    let value ← settle e.span (← e.eval ctx)
    let values ← evalAll ctx rest
    return value :: values

/-- Evaluate expressions in sequence to the last value that is not nothing, `last` being that of the
expressions before. A signal ends the sequence. With `note` the scope remembers each value. -/
def evalBlock (ctx : Context) (note : Bool) (last : Value) : List Expr → Eval Value
  | [] => return last
  | e :: rest => do
    match ← e.eval ctx with
    | .nothing => evalBlock ctx note last rest
    | value =>
      if note then changeScopes (·.noteOutput ctx.scope value)
      match value with
      | .control signal => return signal.leaveBlock
      | value => evalBlock ctx note value rest

end

end Expr

namespace Closure

/-- Open a frame for a call, with the parameters bound to the arguments. -/
def openFrame (closure : Closure) (arguments : List Value) (scopes : Scopes) : ScopeId × Scopes :=
  let (frame, scopes) := scopes.newFrame closure.scope
  (frame, (closure.parameters.zip arguments).foldl
    (fun scopes (name, value) => scopes.declare frame name value) scopes)

/-- Call a function of the script when `free` more calls may be nested. -/
def call (config : Config) : (free : Nat) → Caller
  | free, closure, arguments, span =>
    if arguments.length ≠ closure.parameters.length then
      Eval.fail (.invalidArgumentCount arguments.length closure.parameters.length) span
    else
      match free with
      | 0 => Eval.fail (.callDepthExceeded config.maxCallDepth) span
      | free + 1 => do
        let frame ← Eval.openScope (closure.openFrame arguments)
        modify fun machine => { machine with depth := machine.depth + 1 }
        let body := Expr.evalBlock ⟨config, call config free, frame⟩ false .nothing closure.body
        let value ← Eval.afterwards body fun machine =>
          { machine with depth := machine.depth - 1 }
        Eval.settle span value

end Closure

end ListScript
