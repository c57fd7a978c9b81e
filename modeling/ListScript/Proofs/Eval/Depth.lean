import ListScript.Proofs.Eval.Evolution

/-!
# How deeply calls nest

A machine counts the calls that are open. `Eval.Trace` lists the moments of an evaluation: the
states between its elementary actions, those inside of calls included, and the calls themselves.
Every evaluation has a trace (`Eval.Trace.exists_eval`), and at every moment of every trace the
count stays below the ceiling and alone decides whether a call may begin (`Eval.Trace.governed`).
`Session.depth_balanced` says what follows for expressions and for the programs of a session.
-/

namespace ListScript

namespace Eval

/-- A moment of an evaluation. -/
inductive Moment where
  /-- The machine is in a state. -/
  | state (machine : Machine)
  /-- A function of the script is called while the machine is in a state. The call will have the
  given result. -/
  | call (closure : Closure) (arguments : List Value) (span : Span) (machine : Machine)
      (result : EStateM.Result RuntimeError Machine Value)

/-- The state of the machine at the moment. -/
def Moment.machine : Moment → Machine
  | .state machine => machine
  | .call _ _ _ machine _ => machine

/-- `Trace config free scope x m moments` says that `x`, run on `m` as part of an evaluation in
`scope` in which `free` more calls may be nested, goes through the moments one after the other. -/
inductive Trace (config : Config) :
    Nat → ScopeId → {α : Type} → Eval α → Machine → List Moment → Prop where
  /-- An elementary action begins and ends. -/
  | basic {free : Nat} {scope : ScopeId} {α : Type} {x : Eval α} (h : Basic config.now scope x)
      (m : Machine) : Trace config free scope x m [.state m, .state (x.after m)]
  /-- The second part of a sequence goes on from where the first has led. -/
  | bind {free : Nat} {scope : ScopeId} {α β : Type} {x : Eval α} {f : α → Eval β} {a : α}
      {m m' : Machine} {first second : List Moment} (hx : Trace config free scope x m first)
      (hok : x m = .ok a m') (hf : Trace config free scope (f a) m' second) :
      Trace config free scope (x >>= f) m (first ++ second)
  /-- A sequence ends where its first part fails. -/
  | bind_error {free : Nat} {scope : ScopeId} {α β : Type} {x : Eval α} {error : RuntimeError}
      {m m' : Machine} {first : List Moment} (hx : Trace config free scope x m first)
      (herror : x m = .error error m') (f : α → Eval β) :
      Trace config free scope (x >>= f) m first
  /-- A name may be released after an action. -/
  | release {free : Nat} {scope : ScopeId} {x : Eval Value} {m : Machine} {inside : List Moment}
      (hx : Trace config free scope x m inside) (name : String) :
      Trace config free scope
        (onFailure x fun machine =>
          { machine with scopes := machine.scopes.release scope name }) m
        (inside ++ [.state ((onFailure x fun machine =>
          { machine with scopes := machine.scopes.release scope name }).after m)])
  /-- A call that does not come to its body. -/
  | refused {free : Nat} {closure : Closure} {arguments : List Value}
      (h : arguments.length ≠ closure.parameters.length ∨ free = 0) (scope : ScopeId) (span : Span)
      (m : Machine) :
      Trace config free scope (Closure.call config free closure arguments span) m
        [.call closure arguments span m (Closure.call config free closure arguments span m)]
  /-- A call goes through the moments of its body, in a frame of its own. -/
  | entered {free : Nat} {closure : Closure} {arguments : List Value} {m : Machine}
      {inside : List Moment} (harity : arguments.length = closure.parameters.length)
      (hbody : Trace config free m.scopes.scopes.size
        (Expr.evalBlock ⟨config, Closure.call config free, m.scopes.scopes.size⟩ false .nothing
          closure.body)
        { m with scopes := (closure.openFrame arguments m.scopes).2, depth := m.depth + 1 } inside)
      (scope : ScopeId) (span : Span) :
      Trace config (free + 1) scope (Closure.call config (free + 1) closure arguments span) m
        (.call closure arguments span m
            (Closure.call config (free + 1) closure arguments span m) ::
          inside ++ [.state ((Closure.call config (free + 1) closure arguments span).after m)])

namespace Trace

variable {config : Config} {free : Nat} {scope : ScopeId}

/-! ## Every evaluation has a trace -/

/-- The action has a trace from every state. -/
def Everywhere (config : Config) (free : Nat) (scope : ScopeId) {α : Type} (x : Eval α) : Prop :=
  ∀ m, ∃ moments, Trace config free scope x m moments

theorem Everywhere.bind {α β : Type} {x : Eval α} {f : α → Eval β}
    (hx : Everywhere config free scope x) (hf : ∀ a, Everywhere config free scope (f a)) :
    Everywhere config free scope (x >>= f) := by
  intro m
  obtain ⟨first, hfirst⟩ := hx m
  cases hresult : x m with
  | ok a m' =>
      obtain ⟨second, hsecond⟩ := hf a m'
      exact ⟨first ++ second, hfirst.bind hresult hsecond⟩
  | error error m' => exact ⟨first, hfirst.bind_error hresult f⟩

/-- Evaluations have traces if the calls in them do. -/
theorem Everywhere.congruence
    (hcall : ∀ closure arguments span,
      Everywhere config free scope (Closure.call config free closure arguments span)) :
    Congruence ⟨config, Closure.call config free, scope⟩ ⟨config, Closure.call config free, scope⟩
      fun x _ => Everywhere config free scope x where
  scope_eq := rfl
  now_eq := rfl
  basic h m := ⟨_, .basic h m⟩
  bind hx hf := hx.bind hf
  release name hx m := by
    obtain ⟨inside, hinside⟩ := hx m
    exact ⟨_, hinside.release name⟩
  loop span hholds hbody hstep := by
    refine loop_of_bind ?_ ?_ (fun hx hf => hx.bind hf) hholds hbody hstep _ span _ 0
    · exact fun value m => ⟨_, .basic (.pure value) m⟩
    · exact fun fault span m => ⟨_, .basic (.fail fault span) m⟩
  call := hcall

/-- Calls have traces, however many more may be nested. -/
theorem everywhere_call (config : Config) (free : Nat) (scope : ScopeId) (closure : Closure)
    (arguments : List Value) (span : Span) :
    Everywhere config free scope (Closure.call config free closure arguments span) := by
  induction free generalizing scope closure arguments span with
  | zero => exact fun m => ⟨_, .refused (.inr rfl) scope span m⟩
  | succ free ih =>
      intro m
      by_cases harity : arguments.length = closure.parameters.length
      · obtain ⟨inside, hinside⟩ :=
          (Everywhere.congruence (ih m.scopes.scopes.size)).evalBlock false .nothing closure.body
            { m with scopes := (closure.openFrame arguments m.scopes).2, depth := m.depth + 1 }
        exact ⟨_, hinside.entered harity scope span⟩
      · exact ⟨_, .refused (.inl harity) scope span m⟩

/-- The evaluation of every expression has a trace from every state. -/
theorem exists_eval (config : Config) (free : Nat) (scope : ScopeId) (e : Expr) (m : Machine) :
    ∃ moments, Trace config free scope (e.eval ⟨config, Closure.call config free, scope⟩) m
      moments :=
  (Everywhere.congruence (everywhere_call config free scope)).eval e m

end Trace

end Eval

/-! ## The ceiling -/

namespace Closure

variable {config : Config} {closure : Closure} {arguments : List Value} {m : Machine}

/-- A call that may begin has opened a scope when it ends. -/
theorem size_lt_after_call (config : Config) (free : Nat)
    (harity : arguments.length = closure.parameters.length) (span : Span) (m : Machine) :
    m.scopes.scopes.size <
      ((call config (free + 1) closure arguments span).after m).scopes.scopes.size := by
  have hbody := (Eval.congruence_evolving config free m.scopes.scopes.size).evalBlock false .nothing
    closure.body
    { m with scopes := (closure.openFrame arguments m.scopes).2, depth := m.depth + 1 }
  have hdeclare : Scopes.Changes (fun _ => True) (m.scopes.newFrame closure.scope).2
      (closure.openFrame arguments m.scopes).2 :=
    Scopes.changes_foldl_declare trivial Prod.fst Prod.snd _ _
  have hframe : m.scopes.scopes.size < (closure.openFrame arguments m.scopes).2.scopes.size := by
    refine Nat.lt_of_lt_of_le ?_ hdeclare.size_le
    simp [Scopes.newFrame, Scopes.newScope, (Scopes.extends_inherit m.scopes _).scopes]
  rw [Eval.after, call_succ harity, ← Eval.after, Eval.after_bind_settle, evalBody,
    Eval.after_afterwards]
  exact Nat.lt_of_lt_of_le hframe hbody.scopes.size_le

/-- A call with the right number of arguments reports the ceiling itself, before it does anything,
exactly if as many calls are open as may be. -/
theorem call_eq_exceeded_iff (harity : arguments.length = closure.parameters.length) {free : Nat}
    (hfree : m.depth + free = config.maxCallDepth) (span : Span) :
    call config free closure arguments span m =
        .error ⟨.callDepthExceeded config.maxCallDepth, span⟩ m ↔
      m.depth = config.maxCallDepth := by
  cases free with
  | zero =>
      rw [call_zero harity]
      exact ⟨fun _ => hfree, fun _ => rfl⟩
  | succ free =>
      refine ⟨fun hcall => ?_, fun hdepth => by omega⟩
      have hsize := size_lt_after_call config free harity span m
      rw [Eval.after, hcall] at hsize
      exact absurd hsize (Nat.lt_irrefl _)

end Closure

namespace Eval

/-- The moment respects the ceiling on calls: no more calls are open than may be, and if a function
is called with the right number of arguments, that fails for the ceiling, with everything left as it
was, exactly if as many calls are open as may be. -/
def Moment.Governed (config : Config) (moment : Moment) : Prop :=
  moment.machine.depth ≤ config.maxCallDepth ∧
    match moment with
    | .state _ => True
    | .call closure arguments span m result =>
      arguments.length = closure.parameters.length →
        (result = .error ⟨.callDepthExceeded config.maxCallDepth, span⟩ m ↔
          m.depth = config.maxCallDepth)

/-- A state respects the ceiling if no more calls are open than may be. -/
theorem Moment.Governed.state {config : Config} {m : Machine} {free : Nat}
    (hfree : m.depth + free = config.maxCallDepth) : (Moment.state m).Governed config :=
  ⟨Nat.le_of_add_right_le (Nat.le_of_eq hfree), trivial⟩

/-- A call respects the ceiling if it may nest as many calls as are not open yet. -/
theorem Moment.Governed.call {config : Config} {m : Machine} {free : Nat}
    (hfree : m.depth + free = config.maxCallDepth) (closure : Closure) (arguments : List Value)
    (span : Span) :
    (Moment.call closure arguments span m
      (Closure.call config free closure arguments span m)).Governed config :=
  ⟨Nat.le_of_add_right_le (Nat.le_of_eq hfree),
    fun harity => Closure.call_eq_exceeded_iff harity hfree span⟩

/-- If the calls that are open and those that may still be nested add up to the ceiling when an
action begins, the ceiling is respected at every moment, and in the end as many calls are open. -/
theorem Trace.governed {config : Config} {free : Nat} {scope : ScopeId} {α : Type} {x : Eval α}
    {m : Machine} {moments : List Moment} (h : Trace config free scope x m moments)
    (hfree : m.depth + free = config.maxCallDepth) :
    (x.after m).depth = m.depth ∧ ∀ moment ∈ moments, moment.Governed config := by
  induction h with
  | basic hbasic m =>
      have hdepth := (hbasic.evolving m).depth
      refine ⟨hdepth, List.forall_mem_cons.2 ⟨.state hfree, ?_⟩⟩
      exact List.forall_mem_singleton.2 (.state (hdepth ▸ hfree))
  | bind hx hok hf ihx ihf =>
      obtain ⟨hdepth, hfirst⟩ := ihx hfree
      rw [after, hok] at hdepth
      obtain ⟨hdepth', hsecond⟩ := ihf (hdepth ▸ hfree)
      refine ⟨?_, List.forall_mem_append.2 ⟨hfirst, hsecond⟩⟩
      rw [after_bind, hok]
      exact hdepth'.trans hdepth
  | bind_error hx herror f ihx =>
      obtain ⟨hdepth, hfirst⟩ := ihx hfree
      refine ⟨?_, hfirst⟩
      rw [after_bind, herror]
      rw [after, herror] at hdepth
      exact hdepth
  | @release free scope x m inside hx name ihx =>
      obtain ⟨hdepth, hinside⟩ := ihx hfree
      have hafter : ((onFailure x fun machine =>
          { machine with scopes := machine.scopes.release scope name }).after m).depth =
            m.depth := by
        rw [after] at hdepth ⊢
        rw [onFailure]
        cases hresult : x m <;> rw [hresult] at hdepth <;> exact hdepth
      refine ⟨hafter, List.forall_mem_append.2 ⟨hinside, ?_⟩⟩
      exact List.forall_mem_singleton.2 (.state (hafter ▸ hfree))
  | refused hrefused scope span m =>
      refine ⟨(Closure.call_evolving config _ _ _ span m).depth, ?_⟩
      exact List.forall_mem_singleton.2 (.call hfree _ _ span)
  | @entered free closure arguments m inside harity hbody scope span ihbody =>
      -- One more call is open inside, and one less may be nested there.
      obtain ⟨-, hinside⟩ := ihbody (by simp only; omega)
      have hdepth := (Closure.call_evolving config (free + 1) closure arguments span m).depth
      refine ⟨hdepth, List.forall_mem_append.2 ⟨List.forall_mem_cons.2 ⟨?_, hinside⟩, ?_⟩⟩
      · exact .call hfree closure arguments span
      · exact List.forall_mem_singleton.2 (.state (hdepth ▸ hfree))

end Eval

namespace Session

/-- Evaluating the expression in the session goes through the moments. -/
def Traces (session : Session) (e : Expr) (moments : List Eval.Moment) : Prop :=
  Eval.Trace session.config (session.config.maxCallDepth - session.machine.depth) session.scope
    (e.eval session.context) session.machine moments

/-- No program and no expression changes what a session is told from outside. -/
theorem config_perform (session : Session) (action : Context → Eval Value) :
    (session.perform action).2.config = session.config := by
  simp only [perform]
  cases action session.context session.machine <;> rfl

/-- Between programs no call is open. -/
theorem Reachable.depth_eq_zero {session : Session} (h : session.Reachable) :
    session.machine.depth = 0 := by
  induction h with
  | start config => rfl
  | run h program ih => exact (run_evolves _ program).depth.trans ih
  | evaluate h e ih => exact (evaluate_evolves _ e).depth.trans ih

/-- From whatever state a session evaluates an expression, as long as no more calls are open than
may be, the same calls are open afterwards, whether that fails or not, and the ceiling is respected
at every moment on the way. A call with the right number of arguments fails for the ceiling itself,
before it opens a frame or changes anything else, exactly if as many calls are open as may be. So no
call is open after a program, and the next one may nest as many calls as the ceiling allows. -/
theorem depth_balanced (session : Session) :
    (session.machine.depth ≤ session.config.maxCallDepth →
      (∀ e : Expr,
        (session.evaluate e).2.machine.depth = session.machine.depth ∧
        (∃ moments, session.Traces e moments) ∧
        ∀ moments, session.Traces e moments → ∀ moment ∈ moments,
          moment.Governed session.config) ∧
      ∀ (closure : Closure) (arguments : List Value) (span : Span),
        arguments.length = closure.parameters.length →
        (session.context.call closure arguments span session.machine =
            .error ⟨.callDepthExceeded session.config.maxCallDepth, span⟩ session.machine ↔
          session.machine.depth = session.config.maxCallDepth)) ∧
    (session.Reachable → ∀ program : Block,
      (session.run program).2.machine.depth = 0 ∧
      (session.run program).2.context.call =
        Closure.call session.config session.config.maxCallDepth) := by
  refine ⟨fun hdepth => ?_, fun hsession program => ?_⟩
  · have hfree : session.machine.depth +
        (session.config.maxCallDepth - session.machine.depth) = session.config.maxCallDepth := by
      omega
    refine ⟨fun e => ⟨(evaluate_evolves session e).depth, ?_, fun moments htrace => ?_⟩,
      fun closure arguments span harity => Closure.call_eq_exceeded_iff harity hfree span⟩
    · exact Eval.Trace.exists_eval _ _ session.scope e session.machine
    · exact (Eval.Trace.governed htrace hfree).2
  · have hzero := (hsession.run program).depth_eq_zero
    refine ⟨hzero, ?_⟩
    rw [context, hzero, run, config_perform, Nat.sub_zero]

/-- Where one call may be open, a function that calls another fails at the inner call, and no call
is left open. -/
theorem depth_balanced_nested :
    let session := start ⟨0, 1, fun _ => 1⟩
    let inner : Expr := .call ⟨10, 12⟩ (.function ⟨11, 8⟩ [] [.null ⟨17, 4⟩] ⟨17, 4⟩) []
    let e : Expr := .call ⟨0, 27⟩ (.function ⟨1, 23⟩ [] [inner] ⟨7, 17⟩) []
    session.machine.depth ≤ session.config.maxCallDepth ∧ session.Reachable ∧
      (session.evaluate e).1 = .error ⟨.callDepthExceeded 1, ⟨10, 12⟩⟩ ∧
      (session.evaluate e).2.machine.depth = 0 ∧
      (session.run ⟨[e], ⟨0, 27⟩⟩).2.machine.depth = 0 := by
  intro session inner e
  have hdepth : session.machine.depth ≤ session.config.maxCallDepth := by decide
  have hsession : session.Reachable := .start _
  have hbalanced := session.depth_balanced
  exact ⟨hdepth, hsession, rfl, ((hbalanced.1 hdepth).1 e).1, (hbalanced.2 hsession _).1⟩

end Session

end ListScript
