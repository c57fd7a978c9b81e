import ListScript.Proofs.Eval.Course
import ListScript.Proofs.Eval.Evolution

/-!
# Evaluation always ends

`Session.evaluation_ends` says that the open-ended recursion of `Course.eval` is cut off at no depth
that is great enough, from whatever state it starts, and that it then yields what `Session.run` and
`Session.evaluate` yield. Within a call expressions get smaller and loops have fewer rounds left;
from one call to the next there are fewer calls left.
-/

namespace ListScript

namespace Course

/-- A sequence of courses goes as a sequence of actions if its parts do where they are reached. -/
theorem run_bind {α β : Type} {course : Course α} {x : Eval α} {next : α → Course β}
    {f : α → Eval β} {m : Machine} (hx : course m = act x m)
    (hf : ∀ a m', x m = .ok a m' → next a m' = act (f a) m') :
    (course >>= next) m = act (x >>= f) m := by
  show (course m).bind _ = _
  rw [hx, act, act, Eval.run_bind]
  cases hresult : x m with
  | ok a m' => exact hf a m' hresult
  | error error m' => rfl

/-- Cleaning up after a course goes as cleaning up after an action. -/
theorem run_afterwards {α : Type} {course : Course α} {x : Eval α} {m : Machine}
    (hx : course m = act x m) (cleanup : Machine → Machine) :
    afterwards course cleanup m = act (Eval.afterwards x cleanup) m := by
  rw [afterwards, hx, act, act, Eval.afterwards]
  cases x m <;> rfl

/-- Cleaning up after a course that fails goes as cleaning up after an action that does. -/
theorem run_onFailure {α : Type} {course : Course α} {x : Eval α} {m : Machine}
    (hx : course m = act x m) (cleanup : Machine → Machine) :
    onFailure course cleanup m = act (Eval.onFailure x cleanup) m := by
  rw [onFailure, hx, act, act, Eval.onFailure]
  cases x m <;> rfl

section Calls

variable {config : Config} {eval : ScopeId → Expr → Course Value} {closure : Closure}
  {arguments : List Value} {m : Machine}

/-- A call with the wrong number of arguments fails before anything happens. -/
theorem call_of_ne (h : arguments.length ≠ closure.parameters.length) (span : Span) :
    call config eval closure arguments span =
      act (Eval.fail (.invalidArgumentCount arguments.length closure.parameters.length) span) := by
  rw [call, if_pos h]

/-- A call fails before anything happens if too many calls are open. -/
theorem call_of_le (h : arguments.length = closure.parameters.length)
    (hfull : config.maxCallDepth ≤ m.depth) (span : Span) :
    call config eval closure arguments span m =
      act (Eval.fail (.callDepthExceeded config.maxCallDepth) span) m := by
  rw [call, if_neg (not_not_intro h)]
  show (if config.maxCallDepth ≤ m.depth then _ else _ : Course Value) m = _
  rw [if_pos hfull]

/-- Any other call evaluates the body in a new frame, and then closes the call. -/
theorem call_of_lt (h : arguments.length = closure.parameters.length)
    (hopen : m.depth < config.maxCallDepth) (span : Span) :
    call config eval closure arguments span m =
      (do let value ← afterwards
            (evalBlock (eval m.scopes.scopes.size) m.scopes.scopes.size false .nothing closure.body)
            fun machine => { machine with depth := machine.depth - 1 }
          act (Eval.settle span value) : Course Value)
        { m with scopes := (closure.openFrame arguments m.scopes).2, depth := m.depth + 1 } := by
  rw [call, if_neg (not_not_intro h), ← closure.openFrame_fst arguments m.scopes]
  show (if config.maxCallDepth ≤ m.depth then _ else _ : Course Value) m = _
  rw [if_neg (Nat.not_le.mpr hopen)]
  rfl

end Calls

/-- A course follows an action if from each machine on which `free` more calls may be nested it ends
as the action does, once it is unfolded deep enough, and if as many calls are open then. -/
def Follows (config : Config) (free : Nat) {α : Type} (course : Nat → Course α)
    (action : Eval α) : Prop :=
  ∀ m, config.maxCallDepth - m.depth = free →
    (∃ enough, ∀ depth ≥ enough, course depth m = act action m) ∧
      (action.after m).depth = m.depth

namespace Follows

variable {config : Config} {free : Nat}

/-- An action that leaves the open calls as they are is followed by itself. -/
theorem act {own : ScopeId → Prop} {α : Type} {x : Eval α} (hx : x.Evolving own) :
    Follows config free (fun _ => act x) x :=
  fun m _ => ⟨⟨0, fun _ _ => rfl⟩, (hx m).depth⟩

/-- A course that yields a value follows the action that does. -/
theorem pure {α : Type} (a : α) :
    Follows config free (fun _ => Pure.pure a) (Pure.pure a : Eval α) :=
  fun _ _ => ⟨⟨0, fun _ _ => rfl⟩, rfl⟩

/-- A course that fails follows the action that does. -/
theorem fail {α : Type} (fault : Fault) (span : Span) :
    Follows config free (fun _ => Course.act (Eval.fail fault span))
      (Eval.fail fault span : Eval α) :=
  fun _ _ => ⟨⟨0, fun _ _ => rfl⟩, rfl⟩

/-- It is enough to follow from some depth on. -/
theorem of_succ {α : Type} {course : Nat → Course α} {x : Eval α}
    (h : Follows config free (fun depth => course (depth + 1)) x) :
    Follows config free course x := by
  intro m hm
  obtain ⟨⟨enough, hcourse⟩, hdepth⟩ := h m hm
  refine ⟨⟨enough + 1, fun depth hle => ?_⟩, hdepth⟩
  obtain ⟨less, rfl⟩ : ∃ less, depth = less + 1 := ⟨depth - 1, by omega⟩
  exact hcourse less (by omega)

/-- Courses in sequence follow actions in sequence. -/
theorem bind {α β : Type} {course : Nat → Course α} {x : Eval α} {next : Nat → α → Course β}
    {f : α → Eval β} (hx : Follows config free course x)
    (hf : ∀ a, Follows config free (fun depth => next depth a) (f a)) :
    Follows config free (fun depth => course depth >>= next depth) (x >>= f) := by
  intro m hm
  obtain ⟨⟨enough, hcourse⟩, hdepth⟩ := hx m hm
  rw [Eval.after_bind]
  rw [Eval.after] at hdepth
  cases hresult : x m with
  | error error m' =>
      rw [hresult] at hdepth
      refine ⟨⟨enough, fun depth hle => run_bind (hcourse depth hle) ?_⟩, hdepth⟩
      intro a m'' hok
      rw [hresult] at hok
      cases hok
  | ok a m' =>
      rw [hresult] at hdepth
      obtain ⟨⟨more, hnext⟩, hafter⟩ := hf a m' (hdepth ▸ hm)
      refine ⟨⟨max enough more, fun depth hle => run_bind (hcourse depth (by omega)) ?_⟩,
        hafter.trans hdepth⟩
      intro b m'' hok
      rw [hresult] at hok
      cases hok
      exact hnext depth (by omega)

/-- A course that cleans up the scopes after failures follows the action that does. -/
theorem onFailure {α : Type} {course : Nat → Course α} {x : Eval α}
    (hx : Follows config free course x) (change : Scopes → Scopes) :
    Follows config free
      (fun depth => onFailure (course depth) fun m => { m with scopes := change m.scopes })
      (Eval.onFailure x fun m => { m with scopes := change m.scopes }) := by
  intro m hm
  obtain ⟨⟨enough, hcourse⟩, hdepth⟩ := hx m hm
  refine ⟨⟨enough, fun depth hle => run_onFailure (hcourse depth hle) _⟩, ?_⟩
  rw [Eval.after] at hdepth ⊢
  rw [Eval.onFailure]
  cases hresult : x m with
  | ok a m' | error error m' =>
      rw [hresult] at hdepth
      exact hdepth

section Parts

variable {eval : Nat → Expr → Course Value}

/-- Evaluating a condition follows it. -/
theorem condition {e : Expr} {action : Eval Value}
    (he : Follows config free (fun depth => eval depth e) action) (construct : Construct) :
    Follows config free (fun depth => evalCondition (eval depth) construct e)
      (Eval.condition construct e.span action) := by
  unfold evalCondition
  refine bind he fun value => ?_
  cases value with
  | boolean b => exact pure b
  | _ => exact fail _ _

/-- Loops over items follow each other. -/
theorem forEach {body : Expr} {action : Eval Value}
    (hbody : Follows config free (fun depth => eval depth body) action) (scope : ScopeId)
    (name : String) (total : Value) (items : List Value) :
    Follows config free (fun depth => Course.forEach (eval depth) scope name body total items)
      (Eval.forEach scope name body.span action total items) := by
  have hrelease : Eval.Basic config.now scope _ := .release name
  have hend (value : Value) : Follows config free _ _ :=
    bind (act hrelease.evolving) fun _ => pure value
  induction items with
  | nil => exact hend total
  | cons item rest ih =>
      have hassign : Eval.Basic config.now scope _ :=
        .assign name item ⟨false, false⟩ none body.span
      refine bind (act hassign.evolving) fun _ => ?_
      refine bind (hbody.onFailure (·.release scope name)) fun value => ?_
      cases Flow.ofValue value with
      | stop => exact hend total
      | escape signal => exact hend (.control signal)
      | next => exact ih

/-- Walks over values follow each other. -/
theorem walkValue {body : Expr} {action : Eval Value}
    (hbody : Follows config free (fun depth => eval depth body) action) (ctx : Context)
    (kind : Walk) (name : String) (span : Span) (value : Value) :
    Follows config free
      (fun depth => Course.walkValue (eval depth) ctx.scope kind name span body value)
      (Eval.walkValue ctx kind name span body.span action value) := by
  have hwalk (items : List Value) :
      Follows config free (fun depth => walk (eval depth) ctx.scope name body items)
        (Eval.walk ctx.scope name body.span action items) := by
    unfold walk Eval.walk
    split
    · exact pure _
    · exact forEach hbody ctx.scope name _ items
  have hstate : Eval.Basic config.now ctx.scope _ := .state
  refine bind (act hstate.evolving) fun machine => ?_
  cases kind with
  | positions =>
      dsimp only
      cases value.positions? machine.heap with
      | some items => exact hwalk items
      | none => exact fail _ _
  | elements =>
      dsimp only
      cases value.elements? machine.heap with
      | some items => exact hwalk items
      | none => exact fail _ _

end Parts

/-- Loops under a condition follow each other. There are `left` rounds to go. -/
theorem loop {scope : ScopeId} {construct : Construct} {test : Expr} {step : Option Expr}
    {body : Expr} {holds : Eval Bool} {action : Eval Value} {advance : Eval Unit}
    (hholds : Follows config free
      (fun depth => evalCondition (eval config depth scope) construct test) holds)
    (hbody : Follows config free (fun depth => eval config depth scope body) action)
    (hstep : Follows config free (fun depth => evalStep (eval config depth scope) step) advance)
    (left rounds : Nat) (hleft : left + rounds = config.maxIterations) :
    Follows config free
      (fun depth => Course.loop config depth scope construct test step body rounds)
      (Eval.loop config.maxIterations body.span holds action advance left rounds) := by
  -- The rounds completed and the rounds left add up to the ceiling, so one side fails where the
  -- other does.
  induction left generalizing rounds with
  | zero =>
      refine of_succ ?_
      simp only [Course.loop, Eval.loop]
      refine bind hholds fun b => ?_
      cases b with
      | false => exact pure _
      | true =>
          have hreached : config.maxIterations ≤ rounds := by omega
          simp only [if_true, if_pos hreached]
          exact fail _ _
  | succ left ih =>
      refine of_succ ?_
      simp only [Course.loop, Eval.loop]
      refine bind hholds fun b => ?_
      cases b with
      | false => exact pure _
      | true =>
          have hbelow : ¬ config.maxIterations ≤ rounds := by omega
          simp only [if_true, if_neg hbelow]
          refine bind hbody fun value => ?_
          cases Flow.ofValue value with
          | stop => exact pure _
          | escape signal => exact pure _
          | next => exact bind hstep fun _ => ih (rounds + 1) (by omega)

/-- Calls follow each other. -/
def Calls (config : Config) (free : Nat) : Prop :=
  ∀ closure arguments span,
    Follows config free (fun depth => call config (eval config depth) closure arguments span)
      (Closure.call config free closure arguments span)

mutual

/-- Evaluation follows evaluation if calls do. -/
theorem eval (hcall : Calls config free) (scope : ScopeId) (e : Expr) :
    Follows config free (fun depth => Course.eval config depth scope e)
      (e.eval ⟨config, Closure.call config free, scope⟩) := by
  -- What is not evaluation itself is the same action on both sides. It leaves the open calls alone.
  have hacts := Eval.congruence_evolving config free scope
  refine of_succ ?_
  cases e with
  | number | boolean | null | character | control | function =>
      simp only [Course.eval, Expr.eval]
      exact pure _
  | string span text =>
      simp only [Course.eval, Expr.eval]
      exact act (hacts.basic (.onHeap span _))
  | identifier span name =>
      simp only [Course.eval, Expr.eval]
      exact act (hacts.basic (.lookup name span))
  | list span items =>
      simp only [Course.eval, Expr.eval]
      exact bind (evalAll hcall scope items) fun values => act (hacts.basic (.onHeap span _))
  | block span body =>
      simp only [Course.eval, Expr.eval]
      exact evalBlock hcall scope false .nothing body
  | group span inner =>
      simp only [Course.eval, Expr.eval]
      exact eval hcall scope inner
  | unary span operator operand =>
      simp only [Course.eval, Expr.eval]
      exact bind (eval hcall scope operand) fun value => act (hacts.basic (.onHeap span _))
  | update span step after operand =>
      simp only [Course.eval, Expr.eval]
      split
      · exact fail _ _
      · refine bind (evalPlace hcall scope operand) fun place => ?_
        exact bind (act (hacts.update place span step)) fun _ => pure _
  | binary span operator lhs rhs =>
      simp only [Course.eval, Expr.eval]
      refine bind (eval hcall scope lhs) fun left => bind (eval hcall scope rhs) fun right => ?_
      exact act (hacts.basic (.onHeap span _))
  | assign span target value limit mode =>
      simp only [Course.eval, Expr.eval]
      split
      · exact fail _ _
      · refine bind (eval hcall scope value) fun value => ?_
        refine bind (act (hacts.ofExcept _ _)) fun value => ?_
        refine bind (eval hcall scope limit) fun limit => ?_
        refine bind (act (hacts.limit _ _)) fun limit => ?_
        refine bind (evalPlace hcall scope target) fun place => ?_
        exact act (hacts.write place span value mode limit)
  | call span callee arguments =>
      simp only [Course.eval, Expr.eval]
      refine bind (evalAll hcall scope arguments) fun values => ?_
      refine bind (eval hcall scope callee) fun callee => ?_
      cases callee with
      | function closure => exact hcall closure values span
      | native native => exact act (hacts.basic (.callNative native values span))
      | _ => exact fail _ _
  | branch span test success failure =>
      cases failure with
      | none =>
          simp only [Course.eval, Expr.eval]
          refine bind (condition (eval hcall scope test) .branch) fun holds => ?_
          cases holds with
          | true => exact eval hcall scope success
          | false => exact pure _
      | some failure =>
          simp only [Course.eval, Expr.eval]
          refine bind (condition (eval hcall scope test) .branch) fun holds => ?_
          cases holds with
          | true => exact eval hcall scope success
          | false => exact eval hcall scope failure
  | whileLoop span test body =>
      simp only [Course.eval, Expr.eval]
      refine loop (condition (eval hcall scope test) _) (eval hcall scope body) ?_ _ 0 rfl
      exact pure ()
  | forLoop span start test step body =>
      simp only [Course.eval, Expr.eval]
      refine bind (eval hcall scope start) fun _ => ?_
      refine loop (condition (eval hcall scope test) _) (eval hcall scope body) ?_ _ 0 rfl
      exact bind (eval hcall scope step) fun _ => pure ()
  | forEach span kind name enumerable body =>
      simp only [Course.eval, Expr.eval]
      refine bind (eval hcall scope enumerable) fun value => ?_
      exact walkValue (eval hcall scope body) ⟨config, _, scope⟩ kind name _ value
  | index span target position =>
      simp only [Course.eval, Expr.eval]
      refine bind (eval hcall scope target) fun target => ?_
      split
      · exact fail _ _
      · exact bind (eval hcall scope position) fun index => act (hacts.basic (.onHeap span _))
  | method span receiver name arguments =>
      simp only [Course.eval, Expr.eval]
      refine bind (eval hcall scope receiver) fun receiver => ?_
      refine bind (act (hacts.ofExcept _ _)) fun method => ?_
      exact bind (evalAll hcall scope arguments) fun values => act (hacts.basic (.onHeap span _))
  | range span first last step inclusive =>
      simp only [Course.eval, Expr.eval]
      refine bind (eval hcall scope first) fun first => bind (eval hcall scope last) fun last => ?_
      exact bind (eval hcall scope step) fun step => act (hacts.basic (.onHeap span _))
  | shift span source target =>
      simp only [Course.eval, Expr.eval]
      split
      · exact fail _ _
      · refine bind (evalPlace hcall scope target) fun place => ?_
        refine bind (act (hacts.peek place span)) fun old => ?_
        refine bind (eval hcall scope source) fun value => ?_
        refine bind (act (hacts.ofExcept _ _)) fun value => ?_
        have hstore (value : Value) : Follows config free _ _ :=
          bind (act (hacts.write place span value ⟨false, false⟩ none)) fun _ => pure old
        split
        · exact bind (act (hacts.basic (.onHeap span _))) hstore
        · exact bind (pure value) hstore
  | pop span source position =>
      simp only [Course.eval, Expr.eval]
      refine bind (eval hcall scope source) fun target => ?_
      split
      · exact pure _
      · exact bind (eval hcall scope position) fun index => act (hacts.basic (.onHeap span _))
  | push span target position value =>
      simp only [Course.eval, Expr.eval]
      refine bind (eval hcall scope target) fun target => ?_
      refine bind (eval hcall scope position) fun index => ?_
      refine bind (eval hcall scope value) fun value => ?_
      refine bind (act (hacts.ofExcept _ _)) fun value => ?_
      exact act (hacts.basic (.onHeap span _))

/-- Evaluating a place follows evaluating it. -/
theorem evalPlace (hcall : Calls config free) (scope : ScopeId) (e : Expr) :
    Follows config free (fun depth => Course.evalPlace (Course.eval config depth scope) e)
      (e.evalPlace ⟨config, Closure.call config free, scope⟩) := by
  cases e with
  | identifier span name =>
      simp only [Course.evalPlace, Expr.evalPlace]
      exact pure _
  | index span target position =>
      simp only [Course.evalPlace, Expr.evalPlace]
      refine bind (eval hcall scope target) fun target => ?_
      refine bind (eval hcall scope position) fun index => ?_
      exact pure _
  | _ =>
      simp only [Course.evalPlace, Expr.evalPlace]
      exact fail _ _

/-- Evaluating expressions to values for storage follows evaluating them. -/
theorem evalAll (hcall : Calls config free) (scope : ScopeId) (es : List Expr) :
    Follows config free (fun depth => Course.evalAll (Course.eval config depth scope) es)
      (Expr.evalAll ⟨config, Closure.call config free, scope⟩ es) := by
  have hacts := Eval.congruence_evolving config free scope
  cases es with
  | nil =>
      simp only [Course.evalAll, Expr.evalAll]
      exact pure _
  | cons e rest =>
      simp only [Course.evalAll, Expr.evalAll]
      refine bind (eval hcall scope e) fun value => bind (act (hacts.ofExcept _ _)) fun value => ?_
      exact bind (evalAll hcall scope rest) fun values => pure _

/-- Evaluating expressions in sequence follows evaluating them. -/
theorem evalBlock (hcall : Calls config free) (scope : ScopeId) (note : Bool) (last : Value)
    (es : List Expr) :
    Follows config free
      (fun depth => Course.evalBlock (Course.eval config depth scope) scope note last es)
      (Expr.evalBlock ⟨config, Closure.call config free, scope⟩ note last es) := by
  have hacts := Eval.congruence_evolving config free scope
  cases es with
  | nil =>
      simp only [Course.evalBlock, Expr.evalBlock]
      exact pure _
  | cons e rest =>
      simp only [Course.evalBlock, Expr.evalBlock]
      refine bind (eval hcall scope e) fun value => ?_
      have hnote {course : Nat → Course Value} {x : Eval Value}
          (hx : Follows config free course x) :
          Follows config free
            (fun depth => if note = true then do
              Course.act (Eval.changeScopes (·.noteOutput scope value)); course depth
              else course depth)
            (if note = true then do Eval.changeScopes (·.noteOutput scope value); x else x) := by
        split
        · exact bind (act (hacts.basic (.noteOutput value))) fun _ => hx
        · exact hx
      cases value with
      | nothing => exact evalBlock hcall scope note last rest
      | control signal => exact hnote (pure _)
      | _ => exact hnote (evalBlock hcall scope note _ rest)

end

/-- If calls follow each other, so do calls that make them. -/
theorem calls_succ (hcall : Calls config free) : Calls config (free + 1) := by
  intro closure arguments span m hm
  refine ⟨?_, (Closure.call_evolving config (free + 1) closure arguments span m).depth⟩
  by_cases harity : arguments.length = closure.parameters.length
  · have hopen : m.depth < config.maxCallDepth := by omega
    -- One more call is open now, so the calls of the body may be nested less deeply.
    obtain ⟨⟨enough, hbody⟩, -⟩ := evalBlock hcall m.scopes.scopes.size false .nothing closure.body
      { m with scopes := (closure.openFrame arguments m.scopes).2, depth := m.depth + 1 }
      (show config.maxCallDepth - (m.depth + 1) = free by omega)
    refine ⟨enough, fun depth hle => ?_⟩
    show call config (Course.eval config depth) closure arguments span m = _
    rw [call_of_lt harity hopen, Course.act, Closure.call_succ harity, ← Course.act]
    exact run_bind (run_afterwards (hbody depth hle) _) fun _ _ _ => rfl
  · refine ⟨0, fun depth _ => ?_⟩
    show call config (Course.eval config depth) closure arguments span m = _
    rw [call_of_ne harity, Closure.call_of_ne harity]

/-- Calls follow each other, however many may be nested. -/
theorem calls (config : Config) (free : Nat) : Calls config free := by
  induction free with
  | zero =>
      intro closure arguments span m hm
      refine ⟨⟨0, fun depth _ => ?_⟩, ?_⟩
      · show call config (Course.eval config depth) closure arguments span m = _
        by_cases harity : arguments.length = closure.parameters.length
        · have hfull : config.maxCallDepth ≤ m.depth := by omega
          rw [call_of_le harity hfull, Closure.call_zero harity]
        · rw [call_of_ne harity, Closure.call_of_ne harity]
      · exact (Closure.call_evolving config 0 closure arguments span m).depth
  | succ free ih => exact calls_succ ih

end Follows

end Course

namespace Session

/-- What is performed in a session has the result and the machine that the action has. -/
theorem act_perform (session : Session) (action : Context → Eval Value) :
    Course.act (action session.context) session.machine =
      some ((session.perform action).1, (session.perform action).2.machine) := by
  rw [Course.act, perform]
  cases action session.context session.machine <;> rfl

/-- Programs and expressions end: the recursion that evaluates them in a session is not cut off once
it is unfolded deep enough, and it comes to the result and the machine that the session has
afterwards. -/
theorem evaluation_ends (session : Session) :
    (∀ program, ∃ enough, ∀ depth ≥ enough,
      Course.evalProgram session.config depth session.scope program session.machine =
        some ((session.run program).1, (session.run program).2.machine)) ∧
    ∀ e, ∃ enough, ∀ depth ≥ enough,
      Course.eval session.config depth session.scope e session.machine =
        some ((session.evaluate e).1, (session.evaluate e).2.machine) := by
  have hcalls := Course.Follows.calls session.config
    (session.config.maxCallDepth - session.machine.depth)
  constructor
  · intro program
    obtain ⟨⟨enough, hbody⟩, -⟩ := Course.Follows.evalBlock hcalls session.scope true .nothing
      program.body session.machine rfl
    refine ⟨enough, fun depth hle => ?_⟩
    rw [run, ← act_perform]
    exact Course.run_bind (hbody depth hle) fun _ _ _ => rfl
  · intro e
    obtain ⟨⟨enough, heval⟩, -⟩ := Course.Follows.eval hcalls session.scope e session.machine rfl
    refine ⟨enough, fun depth hle => ?_⟩
    rw [evaluate, ← act_perform]
    exact heval depth hle

end Session

end ListScript
