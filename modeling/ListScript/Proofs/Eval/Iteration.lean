import ListScript.Proofs.Eval.Evolution
import ListScript.Proofs.Number.Literal

/-!
# How often a loop under a condition evaluates its parts

A loop under a condition is a `Loop`: something to do once, a condition, a body and a step.
`Loop.Runs` lists the evaluations that a run of it is made up of, one after the other, each with the
machine that it begins with and with its outcome. Every run has such a log (`Loop.exists_runs`), and
the log accounts for the result: `Expr.loop_ceiling` says how the ceiling on rounds shows in it.
-/

namespace ListScript

/-- How an action ends. -/
abbrev Outcome (α : Type) := EStateM.Result RuntimeError Machine α

/-- The evaluation of a part of a loop: the machine that it begins with, and how it ends. -/
inductive Evaluation where
  /-- What is done once before the loop. -/
  | start (m : Machine) (outcome : Outcome Unit)
  /-- The condition. -/
  | condition (m : Machine) (outcome : Outcome Bool)
  /-- The body. -/
  | body (m : Machine) (outcome : Outcome Value)
  /-- The step after a round. -/
  | step (m : Machine) (outcome : Outcome Unit)
  /-- The binding of a name to the next item. -/
  | binding (m : Machine) (outcome : Outcome Value)

namespace Evaluation

/-- The condition is evaluated. -/
def isCondition : Evaluation → Bool
  | condition .. => true
  | _ => false

/-- The body is evaluated. -/
def isBody : Evaluation → Bool
  | body .. => true
  | _ => false

/-- The step is evaluated. -/
def isStep : Evaluation → Bool
  | step .. => true
  | _ => false

/-- The body is evaluated to a value after which its loop goes on. -/
def completes : Evaluation → Bool
  | body _ (.ok value _) =>
    match Flow.ofValue value with
    | .next => true
    | _ => false
  | _ => false

/-- The evaluation fails. -/
def fails : Evaluation → Bool
  | start _ (.error ..) | condition _ (.error ..) | body _ (.error ..) | step _ (.error ..) => true
  | binding _ (.error ..) => true
  | _ => false

end Evaluation

/-- The parts of a loop under a condition. -/
structure Loop where
  /-- How many rounds may begin. -/
  limit : Nat
  /-- The place of the body. -/
  span : Span
  /-- What is done once before the loop. -/
  start : Eval Unit
  /-- The condition. -/
  holds : Eval Bool
  /-- The body. -/
  body : Eval Value
  /-- The step after a round. -/
  step : Eval Unit

/-- The loop under a condition that an expression is. Only a loop with a step has a start. -/
def Expr.loop? (ctx : Context) : Expr → Option Loop
  | .whileLoop _ condition body => some
      ⟨ctx.config.maxIterations, body.span, pure (),
        Eval.condition .whileLoop condition.span (condition.eval ctx), body.eval ctx, pure ()⟩
  | .forLoop _ start condition step body => some
      ⟨ctx.config.maxIterations, body.span, do let _ ← start.eval ctx,
        Eval.condition .forLoop condition.span (condition.eval ctx), body.eval ctx,
        do let _ ← step.eval ctx⟩
  | _ => none

namespace Loop

/-- The rounds of the loop when `rounds` are completed and `left` more may begin. -/
def proceed (loop : Loop) (left rounds : Nat) : Eval Value :=
  Eval.loop loop.limit loop.span loop.holds loop.body loop.step left rounds

/-- The whole loop. -/
def run (loop : Loop) : Eval Value := do
  loop.start
  loop.proceed loop.limit 0

/-- `Proceeds loop left rounds m log outcome` says that the loop, when `rounds` are completed and
`left` more may begin, makes the evaluations of the log one after the other, beginning with the
machine `m`, and ends with the outcome. -/
inductive Proceeds (loop : Loop) :
    (left rounds : Nat) → Machine → List Evaluation → Outcome Value → Prop where
  | conditionFails (left rounds : Nat) {m m' : Machine} {error : RuntimeError}
      (h : loop.holds m = .error error m') :
      Proceeds loop left rounds m [.condition m (.error error m')] (.error error m')
  | finished (left rounds : Nat) {m m' : Machine} (h : loop.holds m = .ok false m') :
      Proceeds loop left rounds m [.condition m (.ok false m')]
        (.ok (.number (.ofNat rounds)) m')
  | exceeded (rounds : Nat) {m m' : Machine} (h : loop.holds m = .ok true m') :
      Proceeds loop 0 rounds m [.condition m (.ok true m')]
        (.error ⟨.tooManyIterations loop.limit, loop.span⟩ m')
  | bodyFails (left rounds : Nat) {m m₁ m' : Machine} {error : RuntimeError}
      (hholds : loop.holds m = .ok true m₁) (hbody : loop.body m₁ = .error error m') :
      Proceeds loop (left + 1) rounds m
        [.condition m (.ok true m₁), .body m₁ (.error error m')] (.error error m')
  | stopped (left rounds : Nat) {m m₁ m' : Machine} {value : Value}
      (hholds : loop.holds m = .ok true m₁) (hbody : loop.body m₁ = .ok value m')
      (hflow : Flow.ofValue value = .stop) :
      Proceeds loop (left + 1) rounds m [.condition m (.ok true m₁), .body m₁ (.ok value m')]
        (.ok (.number (.ofNat rounds)) m')
  | escaped (left rounds : Nat) {m m₁ m' : Machine} {value : Value} {signal : Control}
      (hholds : loop.holds m = .ok true m₁) (hbody : loop.body m₁ = .ok value m')
      (hflow : Flow.ofValue value = .escape signal) :
      Proceeds loop (left + 1) rounds m [.condition m (.ok true m₁), .body m₁ (.ok value m')]
        (.ok (.control signal) m')
  | stepFails (left rounds : Nat) {m m₁ m₂ m' : Machine} {value : Value} {error : RuntimeError}
      (hholds : loop.holds m = .ok true m₁) (hbody : loop.body m₁ = .ok value m₂)
      (hflow : Flow.ofValue value = .next) (hstep : loop.step m₂ = .error error m') :
      Proceeds loop (left + 1) rounds m
        [.condition m (.ok true m₁), .body m₁ (.ok value m₂), .step m₂ (.error error m')]
        (.error error m')
  | next {left rounds : Nat} {m m₁ m₂ m₃ : Machine} {value : Value} {log : List Evaluation}
      {outcome : Outcome Value}
      (hholds : loop.holds m = .ok true m₁) (hbody : loop.body m₁ = .ok value m₂)
      (hflow : Flow.ofValue value = .next) (hstep : loop.step m₂ = .ok () m₃)
      (hrest : Proceeds loop left (rounds + 1) m₃ log outcome) :
      Proceeds loop (left + 1) rounds m
        (.condition m (.ok true m₁) :: .body m₁ (.ok value m₂) :: .step m₂ (.ok () m₃) :: log)
        outcome

/-- The loop, run from the start on the machine `m`, makes the evaluations of the log and ends with
the outcome. -/
inductive Runs (loop : Loop) : Machine → List Evaluation → Outcome Value → Prop where
  | startFails {m m' : Machine} {error : RuntimeError} (h : loop.start m = .error error m') :
      Runs loop m [.start m (.error error m')] (.error error m')
  | started {m m₀ : Machine} {log : List Evaluation} {outcome : Outcome Value}
      (hstart : loop.start m = .ok () m₀)
      (hrest : Proceeds loop loop.limit 0 m₀ log outcome) :
      Runs loop m (.start m (.ok () m₀) :: log) outcome

variable {loop : Loop}

/-! ## Logs and runs -/

/-- One round of a loop, or its end. -/
theorem proceed_eq (loop : Loop) (left rounds : Nat) (m : Machine) :
    loop.proceed left rounds m =
      match loop.holds m with
      | .error error m' => .error error m'
      | .ok false m' => .ok (.number (.ofNat rounds)) m'
      | .ok true m₁ =>
        match left with
        | 0 => .error ⟨.tooManyIterations loop.limit, loop.span⟩ m₁
        | left + 1 =>
          match loop.body m₁ with
          | .error error m' => .error error m'
          | .ok value m₂ =>
            match Flow.ofValue value with
            | .stop => .ok (.number (.ofNat rounds)) m₂
            | .escape signal => .ok (.control signal) m₂
            | .next =>
              match loop.step m₂ with
              | .error error m' => .error error m'
              | .ok () m₃ => loop.proceed left (rounds + 1) m₃ := by
  simp only [proceed]
  rw [Eval.loop.eq_def]
  dsimp only
  rw [Eval.run_bind]
  cases loop.holds m with
  | error error m' => rfl
  | ok b m₁ =>
      cases b with
      | false => rfl
      | true =>
          cases left with
          | zero => rfl
          | succ left =>
              dsimp only
              rw [if_pos rfl, Eval.run_bind]
              cases loop.body m₁ with
              | error error m' => rfl
              | ok value m₂ =>
                  dsimp only
                  cases Flow.ofValue value with
                  | stop => rfl
                  | escape signal => rfl
                  | next =>
                      dsimp only
                      rw [Eval.run_bind]
                      cases loop.step m₂ <;> rfl

/-- Whatever a loop logs, it ends as its rounds do. -/
theorem Proceeds.outcome_eq {left rounds : Nat} {m : Machine} {log : List Evaluation}
    {outcome : Outcome Value} (h : Proceeds loop left rounds m log outcome) :
    outcome = loop.proceed left rounds m := by
  induction h with
  | conditionFails left rounds h => rw [proceed_eq, h]
  | finished left rounds h => rw [proceed_eq, h]
  | exceeded rounds h => rw [proceed_eq, h]
  | bodyFails left rounds hholds hbody => simp only [proceed_eq, hholds, hbody]
  | stopped left rounds hholds hbody hflow => simp only [proceed_eq, hholds, hbody, hflow]
  | escaped left rounds hholds hbody hflow => simp only [proceed_eq, hholds, hbody, hflow]
  | stepFails left rounds hholds hbody hflow hstep =>
      simp only [proceed_eq, hholds, hbody, hflow, hstep]
  | next hholds hbody hflow hstep _ ih =>
      rw [ih, proceed_eq loop (_ + 1), hholds]
      simp only [hbody, hflow, hstep]

/-- All rounds of a loop can be logged. -/
theorem exists_proceeds (loop : Loop) (left rounds : Nat) (m : Machine) :
    ∃ log, Proceeds loop left rounds m log (loop.proceed left rounds m) := by
  induction left generalizing rounds m with
  | zero =>
      rw [proceed_eq]
      cases hholds : loop.holds m with
      | error error m' => exact ⟨_, .conditionFails 0 rounds hholds⟩
      | ok b m₁ =>
          cases b with
          | false => exact ⟨_, .finished 0 rounds hholds⟩
          | true => exact ⟨_, .exceeded rounds hholds⟩
  | succ left ih =>
      rw [proceed_eq]
      cases hholds : loop.holds m with
      | error error m' => exact ⟨_, .conditionFails (left + 1) rounds hholds⟩
      | ok b m₁ =>
          cases b with
          | false => exact ⟨_, .finished (left + 1) rounds hholds⟩
          | true =>
              dsimp only
              cases hbody : loop.body m₁ with
              | error error m' => exact ⟨_, .bodyFails left rounds hholds hbody⟩
              | ok value m₂ =>
                  dsimp only
                  cases hflow : Flow.ofValue value with
                  | stop => exact ⟨_, .stopped left rounds hholds hbody hflow⟩
                  | escape signal => exact ⟨_, .escaped left rounds hholds hbody hflow⟩
                  | next =>
                      dsimp only
                      cases hstep : loop.step m₂ with
                      | error error m' => exact ⟨_, .stepFails left rounds hholds hbody hflow hstep⟩
                      | ok _ m₃ =>
                          obtain ⟨log, hlog⟩ := ih (rounds + 1) m₃
                          exact ⟨_, .next hholds hbody hflow hstep hlog⟩

/-- Whatever a loop logs from the start, it ends as it does when it is run. -/
theorem Runs.outcome_eq {m : Machine} {log : List Evaluation} {outcome : Outcome Value}
    (h : Runs loop m log outcome) : outcome = loop.run m := by
  cases h with
  | startFails h => rw [run, Eval.run_bind, h]
  | started hstart hrest => rw [run, Eval.run_bind_ok hstart, hrest.outcome_eq]

/-- All of a loop can be logged. -/
theorem exists_runs (loop : Loop) (m : Machine) : ∃ log, Runs loop m log (loop.run m) := by
  cases hstart : loop.start m with
  | error error m' =>
      rw [run, Eval.run_bind, hstart]
      exact ⟨_, .startFails hstart⟩
  | ok _ m₀ =>
      obtain ⟨log, hlog⟩ := loop.exists_proceeds loop.limit 0 m₀
      rw [run, Eval.run_bind_ok hstart]
      exact ⟨_, .started hstart hlog⟩

/-! ## What a log accounts for -/

/-- The loop completes rounds: each time the condition is true, the body yields a value after which
the loop goes on, and the step is done. -/
inductive Completes (loop : Loop) : Nat → Machine → Machine → Prop where
  | zero (m : Machine) : Completes loop 0 m m
  | succ {k : Nat} {m m₁ m₂ m₃ m' : Machine} {value : Value}
      (hholds : loop.holds m = .ok true m₁) (hbody : loop.body m₁ = .ok value m₂)
      (hflow : Flow.ofValue value = .next) (hstep : loop.step m₂ = .ok () m₃)
      (hrest : Completes loop k m₃ m') : Completes loop (k + 1) m m'

section

variable {left rounds : Nat} {m : Machine} {log : List Evaluation} {outcome : Outcome Value}

/-- The body is evaluated at most as often as a round may begin. -/
theorem Proceeds.bodies_le (h : Proceeds loop left rounds m log outcome) :
    log.countP Evaluation.isBody ≤ left := by
  induction h with
  | conditionFails | finished | exceeded => exact Nat.zero_le _
  | bodyFails | stopped | escaped | stepFails => exact Nat.succ_le_succ (Nat.zero_le _)
  | next _ _ _ _ _ ih => simpa [List.countP_cons, Evaluation.isBody] using ih

/-- The condition is evaluated at most once more than a round may begin. -/
theorem Proceeds.conditions_le (h : Proceeds loop left rounds m log outcome) :
    log.countP Evaluation.isCondition ≤ left + 1 := by
  induction h with
  | conditionFails | finished | exceeded => exact Nat.succ_le_succ (Nat.zero_le _)
  | bodyFails | stopped | escaped | stepFails => exact Nat.succ_le_succ (Nat.zero_le _)
  | next _ _ _ _ _ ih => simpa [List.countP_cons, Evaluation.isCondition] using ih

/-- If a loop fails and none of its evaluations does, it has completed as many rounds as may begin,
and the condition is true once more. -/
theorem Proceeds.completes_of_error (h : Proceeds loop left rounds m log outcome)
    {error : RuntimeError} {m' : Machine} (houtcome : outcome = .error error m')
    (hlog : ∀ evaluation ∈ log, evaluation.fails = false) :
    ∃ m₁, Completes loop left m m₁ ∧ loop.holds m₁ = .ok true m' := by
  induction h with
  | finished | stopped | escaped => cases houtcome
  | conditionFails | bodyFails | stepFails => simp [Evaluation.fails] at hlog
  | exceeded rounds h =>
      cases houtcome
      exact ⟨_, .zero _, h⟩
  | next hholds hbody hflow hstep _ ih =>
      simp only [List.forall_mem_cons] at hlog
      obtain ⟨m₁, hcompletes, htrue⟩ := ih houtcome hlog.2.2.2
      exact ⟨m₁, .succ hholds hbody hflow hstep hcompletes, htrue⟩

/-- If a loop has completed as many rounds as may begin and the condition is true once more, it
fails, and none of its evaluations does. -/
theorem Proceeds.error_of_completes (h : Proceeds loop left rounds m log outcome)
    {m₁ m' : Machine} (hcompletes : Completes loop left m m₁) (htrue : loop.holds m₁ = .ok true m') :
    outcome = .error ⟨.tooManyIterations loop.limit, loop.span⟩ m' ∧
      ∀ evaluation ∈ log, evaluation.fails = false := by
  induction h with
  | conditionFails left rounds h | finished left rounds h => cases hcompletes <;> simp_all
  | exceeded rounds h =>
      cases hcompletes
      rw [h] at htrue
      cases htrue
      exact ⟨rfl, by simp [Evaluation.fails]⟩
  | bodyFails | stopped | escaped | stepFails => cases hcompletes; simp_all
  | next hholds hbody hflow hstep _ ih =>
      cases hcompletes with
      | succ hholds' hbody' _ hstep' hrest =>
          -- the logged round is the completed one, since both begin with the same machine
          rw [hholds] at hholds'
          cases hholds'
          rw [hbody] at hbody'
          cases hbody'
          rw [hstep] at hstep'
          cases hstep'
          obtain ⟨houtcome, hlog⟩ := ih hrest
          exact ⟨houtcome, by simpa [Evaluation.fails] using hlog⟩

/-- A loop that yields a number has completed so many rounds, each with its step. Then the condition
was false, or the body stopped the loop in one more round. -/
theorem Proceeds.completes_of_number (h : Proceeds loop left rounds m log outcome) {x : Number}
    {m' : Machine} (houtcome : outcome = .ok (.number x) m') :
    ∃ k m₁, Completes loop k m m₁ ∧ x = .ofNat (rounds + k) ∧
      log.countP Evaluation.completes = k ∧ log.countP Evaluation.isStep = k ∧
      (log.countP Evaluation.isBody = k ∧ loop.holds m₁ = .ok false m' ∨
        log.countP Evaluation.isBody = k + 1 ∧ ∃ m₂ value, loop.holds m₁ = .ok true m₂ ∧
          loop.body m₂ = .ok value m' ∧ Flow.ofValue value = .stop) := by
  induction h with
  | conditionFails | exceeded | bodyFails | escaped | stepFails => cases houtcome
  | finished left rounds h =>
      obtain ⟨hvalue, rfl⟩ := EStateM.Result.ok.inj houtcome
      exact ⟨0, _, .zero _, (Value.number.inj hvalue).symm, rfl, rfl, .inl ⟨rfl, h⟩⟩
  | stopped left rounds hholds hbody hflow =>
      obtain ⟨hvalue, rfl⟩ := EStateM.Result.ok.inj houtcome
      refine ⟨0, _, .zero _, (Value.number.inj hvalue).symm, ?_, rfl,
        .inr ⟨rfl, _, _, hholds, hbody, hflow⟩⟩
      simp [Evaluation.completes, hflow]
  | @next left rounds m m₁ m₂ m₃ value log outcome hholds hbody hflow hstep _ ih =>
      obtain ⟨k, m₄, hcompletes, hx, hcompleted, hsteps, hend⟩ := ih houtcome
      refine ⟨k + 1, m₄, .succ hholds hbody hflow hstep hcompletes, ?_, ?_, ?_, ?_⟩
      · rw [hx, Nat.add_assoc, Nat.add_comm 1 k]
      · simp [Evaluation.completes, hflow, hcompleted]
      · simp [List.countP_cons, Evaluation.isStep, hsteps]
      · simpa [List.countP_cons, Evaluation.isBody] using hend

end

end Loop

/-- What makes a loop stop here. -/
theorem Flow.ofValue_eq_stop_iff (value : Value) :
    Flow.ofValue value = .stop ↔ value = .null ∨ value = .control ⟨.stop, 0⟩ := by
  cases value with
  | null => simp [Flow.ofValue]
  | control signal =>
      obtain ⟨kind, carry⟩ := signal
      cases carry <;> cases kind <;> simp [Flow.ofValue]
  | _ => simp [Flow.ofValue]

/-- A loop under a condition is evaluated by running it. -/
theorem Expr.eval_of_loop? {ctx : Context} {e : Expr} {loop : Loop} (h : e.loop? ctx = some loop)
    (m : Machine) : e.eval ctx m = loop.run m ∧ loop.limit = ctx.config.maxIterations := by
  cases e with
  | whileLoop span condition body =>
      cases h
      refine ⟨?_, rfl⟩
      rw [Expr.eval]
      rfl
  | forLoop span start condition step body =>
      cases h
      refine ⟨?_, rfl⟩
      rw [Expr.eval, Eval.run_bind, Loop.run, Eval.run_bind]
      dsimp only
      rw [Eval.run_bind]
      cases start.eval ctx m <;> rfl
  | _ => cases h

/-- What the ceiling on rounds means for a loop under a condition, with a step or without one.
However it ends, it evaluates its body at most as often as the ceiling allows, and its condition at
most once more. It fails for the ceiling itself, and not because one of its evaluations does,
exactly if it completes as many rounds as the ceiling allows and the condition is true once more. If
it yields a number, this is how many rounds it completed, each with its step, and then the condition
was false, or the ceiling allowed one more round and the body yielded null or a signal to leave this
loop. -/
theorem Expr.loop_ceiling (ctx : Context) (e : Expr) (loop : Loop)
    (hloop : e.loop? ctx = some loop) (m : Machine) :
    (∃ log, loop.Runs m log (e.eval ctx m)) ∧
    ∀ log outcome, loop.Runs m log outcome →
      outcome = e.eval ctx m ∧
      log.countP Evaluation.isBody ≤ ctx.config.maxIterations ∧
      log.countP Evaluation.isCondition ≤ ctx.config.maxIterations + 1 ∧
      ((∃ m', outcome = .error ⟨.tooManyIterations ctx.config.maxIterations, loop.span⟩ m' ∧
          ∀ evaluation ∈ log, evaluation.fails = false) ↔
        ∃ m₀ m₁ m', loop.start m = .ok () m₀ ∧
          loop.Completes ctx.config.maxIterations m₀ m₁ ∧ loop.holds m₁ = .ok true m') ∧
      ∀ x m', outcome = .ok (.number x) m' →
        ∃ k ≤ ctx.config.maxIterations, x = .ofNat k ∧ (k ≤ Nat.pow 2 53 → x.toInt = k) ∧
          log.countP Evaluation.completes = k ∧ log.countP Evaluation.isStep = k ∧
          ∃ m₀ m₁, loop.start m = .ok () m₀ ∧ loop.Completes k m₀ m₁ ∧
            (log.countP Evaluation.isBody = k ∧ loop.holds m₁ = .ok false m' ∨
              k + 1 ≤ ctx.config.maxIterations ∧ log.countP Evaluation.isBody = k + 1 ∧
                ∃ m₂ value, loop.holds m₁ = .ok true m₂ ∧ loop.body m₂ = .ok value m' ∧
                  (value = .null ∨ value = .control ⟨.stop, 0⟩)) := by
  obtain ⟨heval, hlimit⟩ := e.eval_of_loop? hloop m
  rw [heval, ← hlimit]
  refine ⟨loop.exists_runs m, fun log outcome hruns => ⟨hruns.outcome_eq, ?_⟩⟩
  cases hruns with
  | startFails h =>
      refine ⟨Nat.zero_le _, Nat.zero_le _, ?_, by simp⟩
      simp [Evaluation.fails, h]
  | @started m₀ log _ hstart hrest =>
      have hbodies := hrest.bodies_le
      refine ⟨hbodies, hrest.conditions_le, ⟨?_, ?_⟩, ?_⟩
      · rintro ⟨m', houtcome, hlog⟩
        obtain ⟨m₁, hcompletes, htrue⟩ :=
          hrest.completes_of_error houtcome (List.forall_mem_cons.1 hlog).2
        exact ⟨m₀, m₁, m', hstart, hcompletes, htrue⟩
      · rintro ⟨m₀', m₁, m', hstart', hcompletes, htrue⟩
        cases hstart.symm.trans hstart'
        obtain ⟨houtcome, hlog⟩ := hrest.error_of_completes hcompletes htrue
        exact ⟨m', houtcome, List.forall_mem_cons.2 ⟨rfl, hlog⟩⟩
      · intro x m' houtcome
        obtain ⟨k, m₁, hcompletes, hx, hcompleted, hsteps, hend⟩ :=
          hrest.completes_of_number houtcome
        rw [Nat.zero_add] at hx
        have hle : k ≤ loop.limit := by
          rcases hend with ⟨hcount, -⟩ | ⟨hcount, -⟩ <;> omega
        refine ⟨k, hle, hx, fun hk => hx ▸ Number.toInt_ofNat hk, hcompleted, hsteps, m₀, m₁,
          hstart, hcompletes, ?_⟩
        rcases hend with hfinished | ⟨hcount, m₂, value, htrue, hbody, hflow⟩
        · exact .inl hfinished
        · exact .inr ⟨by omega, hcount, m₂, value, htrue, hbody,
            (Flow.ofValue_eq_stop_iff value).1 hflow⟩

/-- Where one round may begin, a loop whose condition and body are always true exceeds the ceiling,
while one whose body is null uses up that round and has completed none. -/
theorem Expr.loop_ceiling_one :
    let session := Session.start ⟨1, 0, fun _ => 1⟩
    let endless : Expr := .whileLoop ⟨0, 15⟩ (.boolean ⟨6, 4⟩ true) (.boolean ⟨11, 4⟩ true)
    let stopping : Expr := .whileLoop ⟨0, 15⟩ (.boolean ⟨6, 4⟩ true) (.null ⟨11, 4⟩)
    (∃ loop log m', endless.loop? session.context = some loop ∧
      loop.Runs session.machine log (.error ⟨.tooManyIterations 1, ⟨11, 4⟩⟩ m') ∧
      log.countP Evaluation.isBody ≤ 1 ∧ log.countP Evaluation.isCondition ≤ 2 ∧
      ∀ evaluation ∈ log, evaluation.fails = false) ∧
    ∃ loop log m', stopping.loop? session.context = some loop ∧
      loop.Runs session.machine log (.ok (.number 0) m') ∧
      ∃ k ≤ 1, (0 : Number) = .ofNat k ∧ log.countP Evaluation.completes = k := by
  intro session endless stopping
  constructor
  · obtain ⟨⟨log, hlog⟩, hruns⟩ := loop_ceiling session.context endless _ rfl session.machine
    obtain ⟨-, hbodies, hconditions, hexceeded, -⟩ := hruns log _ hlog
    obtain ⟨m', heval, hfails⟩ := hexceeded.2
      ⟨_, _, _, rfl, .succ rfl rfl rfl rfl (.zero session.machine), rfl⟩
    rw [heval] at hlog
    exact ⟨_, log, m', rfl, hlog, hbodies, hconditions, hfails⟩
  · obtain ⟨⟨log, hlog⟩, hruns⟩ := loop_ceiling session.context stopping _ rfl session.machine
    have heval : stopping.eval session.context session.machine =
        .ok (.number 0) session.machine := rfl
    rw [heval] at hlog
    obtain ⟨k, hk, hx, -, hcompleted, -⟩ := (hruns log _ hlog).2.2.2.2 _ _ rfl
    exact ⟨_, log, _, rfl, hlog, k, hk, hx, hcompleted⟩

end ListScript
