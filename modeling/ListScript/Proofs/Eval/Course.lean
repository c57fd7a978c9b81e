import ListScript.Session

/-!
# Evaluation as open-ended recursion

`Course.eval` evaluates by recursion alone: a loop goes on as long as its condition holds, a call
evaluates the body of whatever function it is given, and nothing but the two ceilings, compared with
the rounds completed and the calls open, keeps it from going on for ever. The recursion is unfolded
to a given depth, and what needs to go deeper is cut off. An evaluation that goes on for ever is cut
off at every depth.
-/

namespace ListScript

/-- Computations on the machine that may fail, and that may also be cut off, yielding `none`. -/
abbrev Course := ExceptT RuntimeError (StateT Machine Option)

namespace Course

/-- The course that is cut off. -/
def cut {α : Type} : Course α := fun _ => none

/-- A single action as a course. -/
def act {α : Type} (action : Eval α) : Course α := fun machine =>
  match action machine with
  | .ok a machine => some (.ok a, machine)
  | .error error machine => some (.error error, machine)

/-- Do something to the machine after a course, also when that fails. -/
def afterwards {α : Type} (course : Course α) (cleanup : Machine → Machine) : Course α :=
  fun machine => (course machine).map fun (result, machine) => (result, cleanup machine)

/-- Do something to the machine after a course that fails. -/
def onFailure {α : Type} (course : Course α) (cleanup : Machine → Machine) : Course α :=
  fun machine => (course machine).map fun (result, machine) =>
    (result, if result.isOk then machine else cleanup machine)

section Parts

variable (eval : Expr → Course Value)

/-- Evaluate the parts of a place once. -/
def evalPlace : Expr → Course Place
  | .identifier _ name => return .named name
  | .index _ target position => do
    let target ← eval target
    let index ← eval position
    return .element target index
  | e => act (Eval.fail .invalidAssignmentTarget e.span)

/-- Evaluate expressions in order to values that can be stored. -/
def evalAll : List Expr → Course (List Value)
  | [] => return []
  | e :: rest => do
    let value ← act (Eval.settle e.span (← eval e))
    let values ← evalAll rest
    return value :: values

/-- Evaluate expressions in sequence. -/
def evalBlock (scope : ScopeId) (note : Bool) (last : Value) : List Expr → Course Value
  | [] => return last
  | e :: rest => do
    match ← eval e with
    | .nothing => evalBlock scope note last rest
    | value =>
      if note then act (Eval.changeScopes (·.noteOutput scope value))
      match value with
      | .control signal => return signal.leaveBlock
      | value => evalBlock scope note value rest

/-- Evaluate a condition to its truth value. -/
def evalCondition (construct : Construct) (e : Expr) : Course Bool := do
  match ← eval e with
  | .boolean b => return b
  | other => act (Eval.fail (.nonBooleanCondition construct other.kind) e.span)

/-- Evaluate the step of a loop that may have one. -/
def evalStep : Option Expr → Course Unit
  | some e => do let _ ← eval e
  | none => return ()

/-- Repeat a body with a name bound to each item in turn. -/
def forEach (scope : ScopeId) (name : String) (body : Expr) (total : Value) :
    List Value → Course Value
  | [] => do
    act (Eval.changeScopes (·.release scope name))
    return total
  | item :: rest => do
    let _ ← act (Eval.assign scope name item ⟨false, false⟩ none body.span)
    let release (machine : Machine) : Machine :=
      { machine with scopes := machine.scopes.release scope name }
    match Flow.ofValue (← onFailure (eval body) release) with
    | .stop => do
      act (Eval.changeScopes (·.release scope name))
      return total
    | .escape signal => do
      act (Eval.changeScopes (·.release scope name))
      return .control signal
    | .next => forEach scope name body total rest

/-- Walk a list of items, which may be empty. -/
def walk (scope : ScopeId) (name : String) (body : Expr) (items : List Value) : Course Value :=
  if items.isEmpty then return .number 0
  else forEach eval scope name body (.number (.ofNat items.length)) items

/-- Walk the positions or the elements of a value. -/
def walkValue (scope : ScopeId) (kind : Walk) (name : String) (span : Span) (body : Expr)
    (value : Value) : Course Value := do
  let heap := (← act get).heap
  match kind with
  | .positions =>
    match value.positions? heap with
    | some items => walk eval scope name body items
    | none => act (Eval.fail (.nonEnumerable value.kind) span)
  | .elements =>
    match value.elements? heap with
    | some items => walk eval scope name body items
    | none => act (Eval.fail (.nonIterable value.kind) span)

end Parts

/-- Call a function of the script, unless too many calls are open. -/
def call (config : Config) (eval : ScopeId → Expr → Course Value) (closure : Closure)
    (arguments : List Value) (span : Span) : Course Value := do
  if arguments.length ≠ closure.parameters.length then
    act (Eval.fail (.invalidArgumentCount arguments.length closure.parameters.length) span)
  else if config.maxCallDepth ≤ (← act get).depth then
    act (Eval.fail (.callDepthExceeded config.maxCallDepth) span)
  else
    let frame ← act (Eval.openScope (closure.openFrame arguments))
    act (modify fun machine => { machine with depth := machine.depth + 1 })
    let value ← afterwards (evalBlock (eval frame) frame false .nothing closure.body)
      fun machine => { machine with depth := machine.depth - 1 }
    act (Eval.settle span value)

mutual

/-- Evaluate an expression in a scope, with the recursion unfolded to a depth. -/
def eval (config : Config) : (depth : Nat) → ScopeId → Expr → Course Value
  | 0, _, _ => cut
  | depth + 1, scope, e =>
    match e with
    | .number _ value => return .number value
    | .boolean _ value => return .boolean value
    | .null _ => return .null
    | .string span text => act (Eval.onHeap span (HeapM.newText text))
    | .character _ value => return .character value
    | .identifier span name => act (Eval.lookup scope name span)
    | .list span items => do
      let values ← evalAll (eval config depth scope) items
      act (Eval.onHeap span (HeapM.newList values))
    | .block _ body => evalBlock (eval config depth scope) scope false .nothing body
    | .group _ inner => eval config depth scope inner
    | .control _ signal => return .control signal
    | .unary span operator operand => do
      let value ← eval config depth scope operand
      act (Eval.onHeap span (HeapM.unary operator value))
    | .update span step after operand =>
      if !operand.isPlace then act (Eval.fail (.invalidUpdateTarget step) operand.span)
      else do
        let place ← evalPlace (eval config depth scope) operand
        let (old, new) ← act (place.update scope span step)
        return if after then old else new
    | .binary span operator lhs rhs => do
      let lhs ← eval config depth scope lhs
      let rhs ← eval config depth scope rhs
      act (Eval.onHeap span (HeapM.binary operator lhs rhs))
    | .assign span target value limit mode =>
      if !target.isPlace then act (Eval.fail .invalidAssignmentTarget target.span)
      else do
        let value ← act (Eval.settle value.span (← eval config depth scope value))
        let limit ← act (Eval.limit limit.span (← eval config depth scope limit))
        let place ← evalPlace (eval config depth scope) target
        act (place.write scope span value mode limit)
    | .call span callee arguments => do
      let values ← evalAll (eval config depth scope) arguments
      match ← eval config depth scope callee with
      | .function closure => call config (eval config depth) closure values span
      | .native native => act (Eval.callNative config.now native values span)
      | other => act (Eval.fail (.invalidCallee other.kind) span)
    | .function _ parameters body _ => return .function ⟨parameters, body, scope⟩
    | .branch _ condition success failure => do
      if ← evalCondition (eval config depth scope) .branch condition then
        eval config depth scope success
      else
        match failure with
        | some failure => eval config depth scope failure
        | none => return .nothing
    | .whileLoop _ condition body =>
      loop config depth scope .whileLoop condition none body 0
    | .forLoop _ start condition step body => do
      let _ ← eval config depth scope start
      loop config depth scope .forLoop condition (some step) body 0
    | .forEach _ kind name enumerable body => do
      let value ← eval config depth scope enumerable
      walkValue (eval config depth scope) scope kind name enumerable.span body value
    | .index span target position => do
      let target ← eval config depth scope target
      if !target.isIndexable then act (Eval.fail (.nonIndexable target.kind) span)
      else
        let index ← eval config depth scope position
        act (Eval.onHeap span (HeapM.readIndex target index))
    | .method span receiver name arguments => do
      let receiver ← eval config depth scope receiver
      let method ← act (Eval.ofExcept span (Method.find receiver name))
      let values ← evalAll (eval config depth scope) arguments
      act (Eval.onHeap span (method.call receiver values))
    | .range span first last step inclusive => do
      let first ← eval config depth scope first
      let last ← eval config depth scope last
      let step ← eval config depth scope step
      act (Eval.onHeap span (HeapM.range first last step inclusive))
    | .shift span source target =>
      if !target.isPlace then act (Eval.fail .invalidShiftTarget target.span)
      else do
        let place ← evalPlace (eval config depth scope) target
        let previous ← act (Eval.orElse (place.read scope span) .null)
        let value ← act (Eval.settle source.span (← eval config depth scope source))
        let value ←
          if source.isPlace then act (Eval.onHeap span (HeapM.copy value)) else pure value
        let _ ← act (place.overwrite scope span value)
        return previous
    | .pop span source position => do
      let target ← eval config depth scope source
      if !target.isIndexable then return target
      else
        let index ← eval config depth scope position
        act (Eval.onHeap span (HeapM.pop target index))
    | .push span target position value => do
      let target ← eval config depth scope target
      let index ← eval config depth scope position
      let value ← act (Eval.settle value.span (← eval config depth scope value))
      act (Eval.onHeap span (HeapM.push target index value))

/-- Repeat a body and a step as long as a condition holds, `rounds` having been completed. -/
def loop (config : Config) : (depth : Nat) → ScopeId → Construct → (condition : Expr) →
    (step : Option Expr) → (body : Expr) → (rounds : Nat) → Course Value
  | 0, _, _, _, _, _, _ => cut
  | depth + 1, scope, construct, condition, step, body, rounds => do
    if ← evalCondition (eval config depth scope) construct condition then
      if config.maxIterations ≤ rounds then
        act (Eval.fail (.tooManyIterations config.maxIterations) body.span)
      else
        match Flow.ofValue (← eval config depth scope body) with
        | .stop => return .number (.ofNat rounds)
        | .escape signal => return .control signal
        | .next =>
          evalStep (eval config depth scope) step
          loop config depth scope construct condition step body (rounds + 1)
    else return .number (.ofNat rounds)

end

/-- Evaluate a program in a scope, with the recursion unfolded to a depth. -/
def evalProgram (config : Config) (depth : Nat) (scope : ScopeId) (program : Block) :
    Course Value := do
  let value ← evalBlock (eval config depth scope) scope true .nothing program.body
  act (Eval.settle program.span value)

end Course

end ListScript
