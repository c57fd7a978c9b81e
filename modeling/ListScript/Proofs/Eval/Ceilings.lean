import ListScript.Proofs.Eval.Evolution

/-!
# Raising the ceilings

An evaluation that meets neither the ceiling on loops nor the one on calls is the same under higher
ceilings, and one that meets a ceiling has until then written what it writes under higher ceilings.
`Eval.Raised` says so of two actions. It passes through everything that an evaluation is made up of,
because no construct goes on after a fatal error and nothing but loops and calls looks at the
ceilings. The main statement is `Session.run_raised`.
-/

namespace ListScript

/-- The fatal errors are those that report a ceiling. -/
theorem RuntimeError.isFatal_iff (error : RuntimeError) :
    error.isFatal = true ↔
      ∃ limit, error.fault = .tooManyIterations limit ∨ error.fault = .callDepthExceeded limit := by
  obtain ⟨fault, span⟩ := error
  cases fault <;> simp [isFatal, Fault.category]

namespace Eval

/-- The result is a fatal error. -/
def Fatal {α : Type} (result : EStateM.Result RuntimeError Machine α) : Prop :=
  ∃ error m, result = .error error m ∧ error.isFatal = true

/-- The action only adds to the output. -/
def Writes {α : Type} (x : Eval α) : Prop :=
  ∀ m, m.output.toList <+: (x.after m).output.toList

/-- `Raised x x'` says that `x'` does what `x` does wherever `x` meets no ceiling, and writes at
least as much where it does. -/
structure Raised {α : Type} (x x' : Eval α) : Prop where
  writes : Writes x'
  same : ∀ m, ¬ Fatal (x m) → x' m = x m
  cut : ∀ m, Fatal (x m) → (x.after m).output.toList <+: (x'.after m).output.toList

/-- Evolving actions only add to the output. -/
theorem Evolving.writes {own : ScopeId → Prop} {α : Type} {x : Eval α} (h : Evolving own x) :
    Writes x :=
  fun m => (h m).output

/-- What a sequence has written starts with what its first part wrote. -/
theorem Writes.output_bind {α β : Type} (x : Eval α) {f : α → Eval β} (hf : ∀ a, Writes (f a))
    (m : Machine) : (x.after m).output.toList <+: ((x >>= f).after m).output.toList := by
  rw [after_bind, after]
  cases x m with
  | ok a m' => exact hf a m'
  | error error m' => exact List.prefix_rfl

/-- A sequence of actions that only add to the output only adds to it. -/
theorem Writes.bind {α β : Type} {x : Eval α} {f : α → Eval β} (hx : Writes x)
    (hf : ∀ a, Writes (f a)) : Writes (x >>= f) :=
  fun m => (hx m).trans (output_bind x hf m)

/-- Making a value ready to be stored writes nothing. -/
theorem writes_settle (span : Span) (value : Value) : Writes (settle span value) := by
  intro m
  unfold settle
  cases value.settle <;> exact List.prefix_rfl

/-- An action that only adds to the output is what it is under any ceilings. -/
theorem Writes.raised {α : Type} {x : Eval α} (h : Writes x) : Raised x x :=
  ⟨h, fun _ _ => rfl, fun _ _ => List.prefix_rfl⟩

/-- Failing fatally is raised to anything that only adds to the output. -/
theorem Writes.raised_fail {α : Type} {x : Eval α} (h : Writes x) {fault : Fault}
    (hfatal : fault.category = .fatal) (span : Span) : Raised (fail fault span) x where
  writes := h
  same m hm := absurd ⟨_, _, rfl, by simp [RuntimeError.isFatal, hfatal]⟩ hm
  cut m _ := h m

namespace Raised

/-- Sequences of raised actions are raised. A fatal error in the first part leaves what the higher
ceilings allow after it to the output alone. -/
theorem bind {α β : Type} {x x' : Eval α} {f f' : α → Eval β} (hx : Raised x x')
    (hf : ∀ a, Raised (f a) (f' a)) : Raised (x >>= f) (x' >>= f') := by
  have hwrites := hx.writes.bind fun a => (hf a).writes
  refine ⟨hwrites, fun m hm => ?_, fun m hm => ?_⟩
  · have hfirst : x' m = x m := by
      refine hx.same m fun ⟨error, m', heq, hfatal⟩ => hm ⟨error, m', ?_, hfatal⟩
      rw [run_bind, heq]
    rw [run_bind] at hm
    rw [run_bind, run_bind, hfirst]
    cases heq : x m with
    | error error m' => rfl
    | ok a m' =>
        rw [heq] at hm
        exact (hf a).same m' hm
  · cases heq : x m with
    | ok a m' =>
        have hfirst : x' m = x m := hx.same m fun ⟨_, _, h, _⟩ => by rw [heq] at h; cases h
        rw [run_bind, heq] at hm
        rw [after_bind, after_bind, hfirst, heq]
        exact (hf a).cut m' hm
    | error error m' =>
        have hfatal : Fatal (x m) := by
          obtain ⟨_, _, h, hfatal⟩ := hm
          rw [run_bind, heq] at h
          cases h
          exact ⟨error, m', heq, hfatal⟩
        have hafter : (x >>= f).after m = x.after m := by
          rw [after_bind, after, heq]
        rw [hafter]
        exact (hx.cut m hfatal).trans (Writes.output_bind x' (fun a => (hf a).writes) m)

/-- Cleaning up after a failure does not hide a ceiling. -/
theorem onFailure {α : Type} {x x' : Eval α} (hx : Raised x x') {cleanup : Machine → Machine}
    (hcleanup : ∀ m, (cleanup m).output = m.output) :
    Raised (onFailure x cleanup) (onFailure x' cleanup) := by
  have hafter (y : Eval α) (m : Machine) :
      ((Eval.onFailure y cleanup).after m).output = (y.after m).output := by
    simp only [after, Eval.onFailure]
    cases y m with
    | ok a m' => rfl
    | error error m' => exact hcleanup m'
  have hfatal (m : Machine) : Fatal (Eval.onFailure x cleanup m) ↔ Fatal (x m) := by
    simp only [Fatal, Eval.onFailure]
    cases x m with
    | ok a m' => simp
    | error error m' => simp
  refine ⟨fun m => ?_, fun m hm => ?_, fun m hm => ?_⟩
  · rw [hafter]
    exact hx.writes m
  · rw [hfatal] at hm
    simp only [Eval.onFailure, hx.same m hm]
  · rw [hfatal] at hm
    rw [hafter, hafter]
    exact hx.cut m hm

/-- Cleaning up after an action does not hide a ceiling. -/
theorem afterwards {α : Type} {x x' : Eval α} (hx : Raised x x') {cleanup : Machine → Machine}
    (hcleanup : ∀ m, (cleanup m).output = m.output) :
    Raised (afterwards x cleanup) (afterwards x' cleanup) := by
  have hfatal (m : Machine) : Fatal (Eval.afterwards x cleanup m) ↔ Fatal (x m) := by
    simp only [Fatal, Eval.afterwards]
    cases x m with
    | ok a m' => simp
    | error error m' => simp
  refine ⟨fun m => ?_, fun m hm => ?_, fun m hm => ?_⟩
  · rw [after_afterwards, hcleanup]
    exact hx.writes m
  · rw [hfatal] at hm
    simp only [Eval.afterwards, hx.same m hm]
  · rw [hfatal] at hm
    rw [after_afterwards, after_afterwards, hcleanup, hcleanup]
    exact hx.cut m hm

/-- A loop of raised actions under a higher ceiling is raised. -/
theorem loop {holds holds' : Eval Bool} {body body' : Eval Value} {step step' : Eval Unit}
    (hholds : Raised holds holds') (hbody : Raised body body') (hstep : Raised step step')
    (limit limit' : Nat) (span : Span) {left left' : Nat} (hle : left ≤ left') (rounds : Nat) :
    Raised (loop limit span holds body step left rounds)
      (loop limit' span holds' body' step' left' rounds) := by
  have hpure {α : Type} (a : α) : Writes (pure a) := fun m => List.prefix_rfl
  have hfail (fault : Fault) (span : Span) : Writes (fail fault span : Eval Value) :=
    fun m => List.prefix_rfl
  have hloop (left rounds : Nat) :
      Writes (Eval.loop limit' span holds' body' step' left rounds) :=
    loop_of_bind hpure hfail (fun hx hf => hx.bind hf) hholds.writes hbody.writes hstep.writes
      limit' span left rounds
  induction left generalizing left' rounds with
  | zero =>
      -- The lower ceiling is met here; whatever the higher one allows only adds to the output.
      unfold Eval.loop
      refine hholds.bind fun b => ?_
      cases b with
      | false => exact (hpure _).raised
      | true =>
          refine Writes.raised_fail ?_ rfl span
          cases left' with
          | zero => exact hfail _ span
          | succ left' =>
              refine hbody.writes.bind fun value => ?_
              cases Flow.ofValue value with
              | next => exact hstep.writes.bind fun _ => hloop left' (rounds + 1)
              | stop => exact hpure _
              | escape signal => exact hpure _
  | succ left ih =>
      obtain ⟨more, rfl⟩ : ∃ more, left' = more + 1 := ⟨left' - 1, by omega⟩
      unfold Eval.loop
      refine hholds.bind fun b => ?_
      cases b with
      | false => exact (hpure _).raised
      | true =>
          refine hbody.bind fun value => ?_
          cases Flow.ofValue value with
          | next => exact hstep.bind fun _ => ih (by omega) (rounds + 1)
          | stop => exact (hpure _).raised
          | escape signal => exact (hpure _).raised

/-- Evaluations under higher ceilings are raised if the calls are. -/
theorem congruence {config config' : Config} {call call' : Caller} (scope : ScopeId)
    (hiterations : config.maxIterations ≤ config'.maxIterations)
    (hnow : config'.now = config.now)
    (hcall : ∀ closure arguments span,
      Raised (call closure arguments span) (call' closure arguments span)) :
    Congruence ⟨config, call, scope⟩ ⟨config', call', scope⟩ Raised where
  scope_eq := rfl
  now_eq := hnow
  basic h := h.evolving.writes.raised
  bind hx hf := hx.bind hf
  release _ hx := hx.onFailure fun _ => rfl
  loop span hholds hbody hstep := hholds.loop hbody hstep _ _ span hiterations 0
  call := hcall

end Raised

end Eval

namespace Closure

variable {config config' : Config}

/-- A call with the wrong number of arguments is the same under any ceilings. -/
theorem call_raised_of_ne {closure : Closure} {arguments : List Value}
    (h : arguments.length ≠ closure.parameters.length) (free free' : Nat) (span : Span) :
    Eval.Raised (call config free closure arguments span)
      (call config' free' closure arguments span) := by
  rw [call_of_ne h, call_of_ne h]
  exact Eval.Writes.raised fun m => List.prefix_rfl

/-- A call that may nest one more is raised if those that it makes are. -/
theorem call_succ_raised (hiterations : config.maxIterations ≤ config'.maxIterations)
    (hnow : config'.now = config.now) {free free' : Nat}
    (hcall : ∀ closure arguments span, Eval.Raised (call config free closure arguments span)
      (call config' free' closure arguments span))
    (closure : Closure) (arguments : List Value) (span : Span) :
    Eval.Raised (call config (free + 1) closure arguments span)
      (call config' (free' + 1) closure arguments span) := by
  by_cases harity : arguments.length = closure.parameters.length
  · have hresult (frame : ScopeId) : Eval.Raised
        (closure.evalBody config free frame >>= Eval.settle span)
        (closure.evalBody config' free' frame >>= Eval.settle span) := by
      have hblock := (Eval.Raised.congruence frame hiterations hnow hcall).evalBlock false .nothing
        closure.body
      have hbody : Eval.Raised (closure.evalBody config free frame)
          (closure.evalBody config' free' frame) := hblock.afterwards fun _ => rfl
      exact hbody.bind fun value => (Eval.writes_settle span value).raised
    refine ⟨?_, fun m hm => ?_, fun m hm => ?_⟩
    · exact (call_evolving config' _ closure arguments span).writes
    · rw [call_succ harity] at hm ⊢
      rw [call_succ harity]
      exact (hresult _).same _ hm
    · rw [call_succ harity] at hm
      rw [Eval.after, Eval.after, call_succ harity, call_succ harity, ← Eval.after, ← Eval.after]
      exact (hresult _).cut _ hm
  · exact call_raised_of_ne harity _ _ span

/-- Calls under higher ceilings are raised. -/
theorem call_raised (hiterations : config.maxIterations ≤ config'.maxIterations)
    (hnow : config'.now = config.now) {free free' : Nat} (hfree : free ≤ free')
    (closure : Closure) (arguments : List Value) (span : Span) :
    Eval.Raised (call config free closure arguments span)
      (call config' free' closure arguments span) := by
  induction free generalizing free' closure arguments span with
  | zero =>
      -- No call may be nested under the lower ceiling, perhaps some may under the higher one.
      by_cases harity : arguments.length = closure.parameters.length
      · rw [call_zero harity]
        exact (call_evolving config' free' closure arguments span).writes.raised_fail rfl span
      · exact call_raised_of_ne harity _ _ span
  | succ free ih =>
      obtain ⟨more, rfl⟩ : ∃ more, free' = more + 1 := ⟨free' - 1, by omega⟩
      exact call_succ_raised hiterations hnow (ih (by omega)) closure arguments span

end Closure

/-- What is performed in a session yields what it yields outside of one. -/
theorem Session.perform_fst (session : Session) (action : Context → Eval Value) :
    (session.perform action).1 =
      match action session.context session.machine with
      | .ok value _ => .ok value
      | .error error _ => .error error := by
  simp only [perform]
  cases action session.context session.machine <;> rfl

/-- Whatever program runs under higher ceilings, with the same readings of the clock, ends with the
same result in the same state, unless a ceiling is reported under the lower ones; and then what it
prints under the lower ceilings is the start of what it prints under the higher ones. -/
theorem Session.run_raised (session : Session) (config : Config) (program : Block)
    (hiterations : session.config.maxIterations ≤ config.maxIterations)
    (hdepth : session.config.maxCallDepth ≤ config.maxCallDepth)
    (hnow : config.now = session.config.now) :
    let low := session.run program
    let high := { session with config }.run program
    ((∀ error limit, low.1 = .error error →
        error.fault ≠ .tooManyIterations limit ∧ error.fault ≠ .callDepthExceeded limit) →
      high.1 = low.1 ∧ high.2.machine = low.2.machine) ∧
    (∀ error limit, low.1 = .error error →
        error.fault = .tooManyIterations limit ∨ error.fault = .callDepthExceeded limit →
      low.2.machine.output.toList <+: high.2.machine.output.toList) := by
  have hfree : session.config.maxCallDepth - session.machine.depth ≤
      config.maxCallDepth - session.machine.depth := by omega
  have hblock := (Eval.Raised.congruence session.scope hiterations hnow
    (Closure.call_raised hiterations hnow hfree)).evalBlock true .nothing program.body
  have hrun := hblock.bind fun value => (Eval.writes_settle program.span value).raised
  dsimp only
  rw [run, run, machine_perform, machine_perform, perform_fst, perform_fst]
  refine ⟨fun hlow => ?_, fun error limit hlow hceiling => hrun.cut session.machine ?_⟩
  · have hsame := hrun.same session.machine (by
      rintro ⟨error, m, heq, hfatal⟩
      obtain ⟨limit, hceiling⟩ := error.isFatal_iff.1 hfatal
      have hnot := hlow error limit (by rw [context, heq])
      exact hceiling.elim hnot.1 hnot.2)
    exact ⟨by rw [context, context, hsame], by rw [Eval.after, Eval.after, context, context, hsame]⟩
  · split at hlow
    · cases hlow
    · next heq =>
      cases hlow
      exact ⟨error, _, heq, error.isFatal_iff.2 ⟨limit, hceiling⟩⟩

/-- A loop that is left in its first round needs a ceiling of one round, and is no different under
another one. -/
theorem Session.run_raised_leave :
    let session := start ⟨1, 0, fun _ => 1⟩
    let program : Block := ⟨[.whileLoop ⟨0, 20⟩ (.boolean ⟨6, 4⟩ true)
      (.block ⟨11, 9⟩ [.control ⟨13, 5⟩ ⟨.stop, 0⟩])], ⟨0, 20⟩⟩
    (session.run program).1 = .ok (.number 0) ∧
      ({ session with config := {} }.run program).1 = .ok (.number 0) := by
  intro session program
  have hlow : (session.run program).1 = .ok (.number 0) := rfl
  have hraised := session.run_raised {} program (by decide) (by decide) rfl
  refine ⟨hlow, (hraised.1 ?_).1.trans hlow⟩
  intro error limit herror
  rw [hlow] at herror
  cases herror

end ListScript
