import ListScript.Session

/-!
# Relations that evaluation respects

Everything that an evaluation does is made up of the elementary actions `Eval.Basic` by sequencing,
loops and calls. A relation between actions that passes through these, an `Eval.Congruence`, relates
the evaluations of every expression in two contexts: `Eval.Congruence.eval`. Properties of single
actions are the case in which the relation looks at one side only.
-/

namespace ListScript

namespace Eval

/-- The elementary actions of an evaluation in a scope, with a clock to read. -/
inductive Basic (now : Clock) (scope : ScopeId) : {α : Type} → Eval α → Prop where
  | pure {α : Type} (a : α) : Basic now scope (Pure.pure a : Eval α)
  | fail {α : Type} (fault : Fault) (span : Span) : Basic now scope (fail fault span : Eval α)
  | onHeap {α : Type} (span : Span) (action : HeapM α) : Basic now scope (onHeap span action)
  | state : Basic now scope (get : Eval Machine)
  | lookup (name : String) (span : Span) : Basic now scope (lookup scope name span)
  | assign (name : String) (value : Value) (mode : BindingMode) (limit : Option Nat)
      (span : Span) : Basic now scope (assign scope name value mode limit span)
  | release (name : String) : Basic now scope (changeScopes (·.release scope name))
  | noteOutput (value : Value) : Basic now scope (changeScopes (·.noteOutput scope value))
  | callNative (native : Native) (arguments : List Value) (span : Span) :
      Basic now scope (callNative now native arguments span)
  | peek (place : Place) (span : Span) : Basic now scope (orElse (place.read scope span) .null)

/-- A relation between actions that passes through everything that evaluations in two contexts are
made up of. The contexts may differ in their ceilings and in how they call functions. -/
structure Congruence (ctx ctx' : Context) (R : {α : Type} → Eval α → Eval α → Prop) : Prop where
  scope_eq : ctx'.scope = ctx.scope
  now_eq : ctx'.config.now = ctx.config.now
  basic {α : Type} {x : Eval α} : Basic ctx.config.now ctx.scope x → R x x
  bind {α β : Type} {x x' : Eval α} {f f' : α → Eval β} :
    R x x' → (∀ a, R (f a) (f' a)) → R (x >>= f) (x' >>= f')
  release {x x' : Eval Value} (name : String) : R x x' →
    R (onFailure x fun machine =>
        { machine with scopes := machine.scopes.release ctx.scope name })
      (onFailure x' fun machine =>
        { machine with scopes := machine.scopes.release ctx.scope name })
  loop {holds holds' : Eval Bool} {body body' : Eval Value} {step step' : Eval Unit} (span : Span) :
    R holds holds' → R body body' → R step step' →
    R (loop ctx.config.maxIterations span holds body step ctx.config.maxIterations 0)
      (loop ctx'.config.maxIterations span holds' body' step' ctx'.config.maxIterations 0)
  call (closure : Closure) (arguments : List Value) (span : Span) :
    R (ctx.call closure arguments span) (ctx'.call closure arguments span)

/-- A property that passes through sequencing passes through loops. -/
theorem loop_of_bind {P : {α : Type} → Eval α → Prop} (hpure : ∀ value : Value, P (pure value))
    (hfail : ∀ fault span, P (fail fault span : Eval Value))
    (hbind : ∀ {α β : Type} {x : Eval α} {f : α → Eval β}, P x → (∀ a, P (f a)) → P (x >>= f))
    {holds : Eval Bool} {body : Eval Value} {step : Eval Unit} (hholds : P holds) (hbody : P body)
    (hstep : P step) (limit : Nat) (span : Span) (left rounds : Nat) :
    P (loop limit span holds body step left rounds) := by
  induction left generalizing rounds with
  | zero =>
      unfold loop
      refine hbind hholds fun b => ?_
      cases b with
      | true => exact hfail _ span
      | false => exact hpure _
  | succ left ih =>
      unfold loop
      refine hbind hholds fun b => ?_
      cases b with
      | false => exact hpure _
      | true =>
          refine hbind hbody fun value => ?_
          cases Flow.ofValue value with
          | next => exact hbind hstep fun _ => ih (rounds + 1)
          | stop => exact hpure _
          | escape signal => exact hpure _

end Eval

namespace Eval.Congruence

variable {ctx ctx' : Context} {R : {α : Type} → Eval α → Eval α → Prop}

/-- The result of a computation without a machine is related to itself. -/
theorem ofExcept (h : Congruence ctx ctx' R) {α : Type} (span : Span) (result : Except Fault α) :
    R (ofExcept span result) (ofExcept span result) := by
  cases result with
  | ok a => exact h.basic (.pure a)
  | error fault => exact h.basic (.fail fault span)

/-- Reading a limit is related to itself. -/
theorem limit (h : Congruence ctx ctx' R) (span : Span) (value : Value) :
    R (limit span value) (limit span value) := by
  unfold Eval.limit
  split
  · exact h.basic (.pure _)
  · exact h.basic (.fail _ span)

/-- Reading a place is related to itself. -/
theorem read (h : Congruence ctx ctx' R) (place : Place) (span : Span) :
    R (place.read ctx.scope span) (place.read ctx'.scope span) := by
  rw [h.scope_eq]
  cases place with
  | named name => exact h.basic (.lookup name span)
  | element target index => exact h.basic (.onHeap span _)

/-- Reading a place that may hold nothing is related to itself. -/
theorem peek (h : Congruence ctx ctx' R) (place : Place) (span : Span) :
    R (orElse (place.read ctx.scope span) .null) (orElse (place.read ctx'.scope span) .null) := by
  rw [h.scope_eq]
  exact h.basic (.peek place span)

/-- Writing a place is related to itself. -/
theorem write (h : Congruence ctx ctx' R) (place : Place) (span : Span) (value : Value)
    (mode : BindingMode) (limit : Option Nat) :
    R (place.write ctx.scope span value mode limit)
      (place.write ctx'.scope span value mode limit) := by
  rw [h.scope_eq]
  cases place with
  | named name => exact h.basic (.assign name value mode limit span)
  | element target index => exact h.basic (.onHeap span _)

/-- Changing a place by one is related to itself. -/
theorem update (h : Congruence ctx ctx' R) (place : Place) (span : Span) (step : Step) :
    R (place.update ctx.scope span step) (place.update ctx'.scope span step) := by
  refine h.bind (h.read place span) fun old => ?_
  refine h.bind (h.ofExcept span _) fun new => ?_
  exact h.bind (h.write place span new _ _) fun _ => h.basic (.pure _)

/-- Calling a value is related to itself. -/
theorem apply (h : Congruence ctx ctx' R) (callee : Value) (arguments : List Value) (span : Span) :
    R (apply ctx callee arguments span) (apply ctx' callee arguments span) := by
  unfold Eval.apply
  split
  · exact h.call _ arguments span
  · rw [h.now_eq]
    exact h.basic (.callNative _ arguments span)
  · exact h.basic (.fail _ span)

/-- Conditions of related actions are related. -/
theorem condition (h : Congruence ctx ctx' R) (construct : Construct) (span : Span)
    {x x' : Eval Value} (hx : R x x') :
    R (condition construct span x) (condition construct span x') := by
  refine h.bind hx fun value => ?_
  split
  · exact h.basic (.pure _)
  · exact h.basic (.fail _ span)

/-- Loops over the same items with related bodies are related. -/
theorem forEach (h : Congruence ctx ctx' R) (name : String) (span : Span) {body body' : Eval Value}
    (hbody : R body body') (total : Value) (items : List Value) :
    R (forEach ctx.scope name span body total items)
      (forEach ctx'.scope name span body' total items) := by
  rw [h.scope_eq]
  have hend (value : Value) := h.bind (h.basic (.release name)) fun _ => h.basic (.pure value)
  induction items with
  | nil => exact hend total
  | cons item rest ih =>
      refine h.bind (h.basic (.assign name item _ _ span)) fun _ => ?_
      refine h.bind (h.release name hbody) fun value => ?_
      cases Flow.ofValue value with
      | next => exact ih
      | stop => exact hend total
      | escape signal => exact hend (.control signal)

/-- Walks over the same value with related bodies are related. -/
theorem walkValue (h : Congruence ctx ctx' R) (kind : Walk) (name : String) (span bodySpan : Span)
    {body body' : Eval Value} (hbody : R body body') (value : Value) :
    R (walkValue ctx kind name span bodySpan body value)
      (walkValue ctx' kind name span bodySpan body' value) := by
  have hwalk (items : List Value) : R (walk ctx.scope name bodySpan body items)
      (walk ctx'.scope name bodySpan body' items) := by
    unfold walk
    split
    · exact h.basic (.pure _)
    · exact h.forEach name bodySpan hbody _ items
  refine h.bind (h.basic .state) fun machine => ?_
  cases kind with
  | positions =>
      dsimp only
      split
      · exact hwalk _
      · exact h.basic (.fail _ span)
  | elements =>
      dsimp only
      split
      · exact hwalk _
      · exact h.basic (.fail _ span)

mutual

/-- The evaluations of an expression are related. -/
theorem eval (h : Congruence ctx ctx' R) (e : Expr) : R (e.eval ctx) (e.eval ctx') := by
  cases e with
  | number | boolean | null | character | control =>
      simp only [Expr.eval]
      exact h.basic (.pure _)
  | function span parameters body bodySpan =>
      simp only [Expr.eval, h.scope_eq]
      exact h.basic (.pure _)
  | string span text =>
      simp only [Expr.eval]
      exact h.basic (.onHeap span _)
  | identifier span name =>
      simp only [Expr.eval, h.scope_eq]
      exact h.basic (.lookup name span)
  | list span items =>
      simp only [Expr.eval]
      exact h.bind (evalAll h items) fun values => h.basic (.onHeap span _)
  | block span body =>
      simp only [Expr.eval]
      exact evalBlock h false .nothing body
  | group span inner =>
      simp only [Expr.eval]
      exact eval h inner
  | unary span operator operand =>
      simp only [Expr.eval]
      exact h.bind (eval h operand) fun value => h.basic (.onHeap span _)
  | update span step after operand =>
      simp only [Expr.eval]
      split
      · exact h.basic (.fail _ _)
      · refine h.bind (evalPlace h operand) fun place => ?_
        exact h.bind (h.update place span step) fun _ => h.basic (.pure _)
  | binary span operator lhs rhs =>
      simp only [Expr.eval]
      refine h.bind (eval h lhs) fun left => h.bind (eval h rhs) fun right => ?_
      exact h.basic (.onHeap span _)
  | assign span target value limit mode =>
      simp only [Expr.eval]
      split
      · exact h.basic (.fail _ _)
      · refine h.bind (eval h value) fun value => h.bind (h.ofExcept _ _) fun value => ?_
        refine h.bind (eval h limit) fun limit => h.bind (h.limit _ _) fun limit => ?_
        exact h.bind (evalPlace h target) fun place => h.write place span value mode limit
  | call span callee arguments =>
      simp only [Expr.eval]
      refine h.bind (evalAll h arguments) fun values => h.bind (eval h callee) fun callee => ?_
      exact h.apply callee values span
  | branch span condition success failure =>
      cases failure with
      | none =>
          simp only [Expr.eval]
          refine h.bind (h.condition _ _ (eval h condition)) fun holds => ?_
          cases holds with
          | true => exact eval h success
          | false => exact h.basic (.pure _)
      | some failure =>
          simp only [Expr.eval]
          refine h.bind (h.condition _ _ (eval h condition)) fun holds => ?_
          cases holds with
          | true => exact eval h success
          | false => exact eval h failure
  | whileLoop span condition body =>
      simp only [Expr.eval]
      exact h.loop _ (h.condition _ _ (eval h condition)) (eval h body) (h.basic (.pure ()))
  | forLoop span start condition step body =>
      simp only [Expr.eval]
      refine h.bind (eval h start) fun _ => ?_
      refine h.loop _ (h.condition _ _ (eval h condition)) (eval h body) ?_
      exact h.bind (eval h step) fun _ => h.basic (.pure ())
  | forEach span kind name enumerable body =>
      simp only [Expr.eval]
      refine h.bind (eval h enumerable) fun value => ?_
      exact h.walkValue kind name _ _ (eval h body) value
  | index span target position =>
      simp only [Expr.eval]
      refine h.bind (eval h target) fun target => ?_
      split
      · exact h.basic (.fail _ _)
      · exact h.bind (eval h position) fun index => h.basic (.onHeap span _)
  | method span receiver name arguments =>
      simp only [Expr.eval]
      refine h.bind (eval h receiver) fun receiver => h.bind (h.ofExcept _ _) fun method => ?_
      exact h.bind (evalAll h arguments) fun values => h.basic (.onHeap span _)
  | range span first last step inclusive =>
      simp only [Expr.eval]
      refine h.bind (eval h first) fun first => h.bind (eval h last) fun last => ?_
      exact h.bind (eval h step) fun step => h.basic (.onHeap span _)
  | shift span source target =>
      simp only [Expr.eval]
      split
      · exact h.basic (.fail _ _)
      · refine h.bind (evalPlace h target) fun place => h.bind (h.peek place span) fun old => ?_
        refine h.bind (eval h source) fun value => h.bind (h.ofExcept _ _) fun value => ?_
        have hstore (value : Value) := h.bind (h.write place span value ⟨false, false⟩ none)
          fun _ => h.basic (.pure old)
        split
        · exact h.bind (h.basic (.onHeap span _)) hstore
        · exact h.bind (h.basic (.pure value)) hstore
  | pop span source position =>
      simp only [Expr.eval]
      refine h.bind (eval h source) fun target => ?_
      split
      · exact h.basic (.pure _)
      · exact h.bind (eval h position) fun index => h.basic (.onHeap span _)
  | push span target position value =>
      simp only [Expr.eval]
      refine h.bind (eval h target) fun target => h.bind (eval h position) fun index => ?_
      refine h.bind (eval h value) fun value => h.bind (h.ofExcept _ _) fun value => ?_
      exact h.basic (.onHeap span _)

/-- The evaluations of a place are related. -/
theorem evalPlace (h : Congruence ctx ctx' R) (e : Expr) :
    R (e.evalPlace ctx) (e.evalPlace ctx') := by
  cases e with
  | identifier span name =>
      simp only [Expr.evalPlace]
      exact h.basic (.pure _)
  | index span target position =>
      simp only [Expr.evalPlace]
      refine h.bind (eval h target) fun target => h.bind (eval h position) fun index => ?_
      exact h.basic (.pure _)
  | _ =>
      simp only [Expr.evalPlace]
      exact h.basic (.fail _ _)

/-- The evaluations of expressions to values for storage are related. -/
theorem evalAll (h : Congruence ctx ctx' R) (es : List Expr) :
    R (Expr.evalAll ctx es) (Expr.evalAll ctx' es) := by
  cases es with
  | nil =>
      simp only [Expr.evalAll]
      exact h.basic (.pure _)
  | cons e rest =>
      simp only [Expr.evalAll]
      refine h.bind (eval h e) fun value => h.bind (h.ofExcept _ _) fun value => ?_
      exact h.bind (evalAll h rest) fun values => h.basic (.pure _)

/-- The evaluations of expressions in sequence are related. -/
theorem evalBlock (h : Congruence ctx ctx' R) (note : Bool) (last : Value) (es : List Expr) :
    R (Expr.evalBlock ctx note last es) (Expr.evalBlock ctx' note last es) := by
  cases es with
  | nil =>
      simp only [Expr.evalBlock]
      exact h.basic (.pure _)
  | cons e rest =>
      simp only [Expr.evalBlock, h.scope_eq]
      refine h.bind (eval h e) fun value => ?_
      have hnote {x x' : Eval Value} (hx : R x x') :
          R (if note = true then do changeScopes (·.noteOutput ctx.scope value); x else x)
            (if note = true then do changeScopes (·.noteOutput ctx.scope value); x' else x') := by
        split
        · exact h.bind (h.basic (.noteOutput value)) fun _ => hx
        · exact hx
      cases value with
      | nothing => exact evalBlock h note last rest
      | control signal => exact hnote (h.basic (.pure _))
      | _ => exact hnote (evalBlock h note _ rest)

end

end Eval.Congruence

end ListScript
