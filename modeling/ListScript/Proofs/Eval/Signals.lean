import ListScript.Proofs.Eval.Evolution

/-!
# Signals that cross loops

A nest of loops has been entered: each loop is in some round, its body, a block, has come to some
expression, and that expression is the next loop. A `LoopFrame` is what remains of such a loop, and
`LoopFrame.within` goes on from there. `Expr.signal_crosses` says what becomes of a signal inside:
its carry tells which loop it reaches, all loops inside that one end with nothing that remains of
them done, and a signal that finds too few loops comes out of the outermost. Plain blocks around the
signal each take one off its carry.
-/

namespace ListScript

/-- Where a loop stands: what it will go on with when its round is over. -/
inductive Standing where
  /-- A loop under a condition, perhaps with a step. It has completed `rounds`, and `left` more may
  begin, the present one not among them. -/
  | counting (construct : Construct) (condition : Expr) (step : Option Expr) (left rounds : Nat)
  /-- A loop over `count` items, of which `rest` are to come. -/
  | walking (name : String) (count : Nat) (rest : List Value)

/-- What a loop over a value binds its name to in turn, if the value is a list. -/
def Walk.items? (kind : Walk) (value : Value) (heap : Heap) : Option (List Value) :=
  match kind with
  | .positions => value.positions? heap
  | .elements => value.elements? heap

/-- A value with items is walked. -/
theorem Eval.walkValue_of_items {ctx : Context} {kind : Walk} {value : Value} {items : List Value}
    {m : Machine} (h : kind.items? value m.heap = some items) (name : String)
    (span bodySpan : Span) (body : Eval Value) :
    walkValue ctx kind name span bodySpan body value m =
      walk ctx.scope name bodySpan body items m := by
  rw [walkValue, run_bind_ok (show (get : Eval Machine) m = .ok m m from rfl)]
  cases kind with
  | positions =>
      have h : value.positions? m.heap = some items := h
      simp only [h]
  | elements =>
      have h : value.elements? m.heap = some items := h
      simp only [h]

namespace Standing

/-- The number that a loop yields when it ends here. -/
def total : Standing → Value
  | counting _ _ _ _ rounds => .number (.ofNat rounds)
  | walking _ count _ => .number (.ofNat count)

/-- What a loop does to the machine when it ends: a loop over items releases its name. -/
def leave (scope : ScopeId) : Standing → Machine → Machine
  | counting .. => id
  | walking name _ _ => fun m => { m with scopes := m.scopes.release scope name }

/-- Evaluate the step of a loop that may have one. -/
def evalStep (ctx : Context) : Option Expr → Eval Unit
  | some step => do let _ ← step.eval ctx
  | none => return ()

/-- Go to the end of the round. -/
def advance (ctx : Context) : Standing → Eval Unit
  | counting _ _ step _ _ => evalStep ctx step
  | walking .. => return ()

/-- Where a loop stands after its step. -/
def next : Standing → Standing
  | counting construct condition step left rounds =>
    counting construct condition step left (rounds + 1)
  | walking name count rest => walking name count rest

/-- All the rounds of a loop that stands before one. -/
def rounds (ctx : Context) (body : Expr) : Standing → Eval Value
  | counting construct condition step left rounds =>
    Eval.loop ctx.config.maxIterations body.span
      (Eval.condition construct condition.span (condition.eval ctx)) (body.eval ctx)
      (evalStep ctx step) left rounds
  | walking name count rest =>
    Eval.forEach ctx.scope name body.span (body.eval ctx) (.number (.ofNat count)) rest

/-- Go on to the next round. -/
def proceed (ctx : Context) (body : Expr) (s : Standing) : Eval Value := do
  s.advance ctx
  s.next.rounds ctx body

/-- Go on as the body's value demands. -/
def conclude (ctx : Context) (body : Expr) (s : Standing) (action : Eval Value) : Eval Value := do
  match Flow.ofValue (← Eval.onFailure action (s.leave ctx.scope)) with
  | .stop =>
    modify (s.leave ctx.scope)
    return s.total
  | .escape signal =>
    modify (s.leave ctx.scope)
    return .control signal
  | .next => s.proceed ctx body

/-- A loop begins a round. -/
inductive Enters (ctx : Context) (body : Expr) : Standing → Machine → Standing → Machine → Prop
    where
  | counting {construct : Construct} {condition : Expr} {step : Option Expr} {left rounds : Nat}
      {m m' : Machine}
      (h : Eval.condition construct condition.span (condition.eval ctx) m = .ok true m') :
      Enters ctx body (.counting construct condition step (left + 1) rounds) m
        (.counting construct condition step left rounds) m'
  | walking {name : String} {count : Nat} {item : Value} {rest : List Value} {m m' : Machine}
      (h : Eval.assign ctx.scope name item ⟨false, false⟩ none body.span m = .ok item m') :
      Enters ctx body (.walking name count (item :: rest)) m (.walking name count rest) m'

/-- A loop begins this round or, rounds that end as usual coming before, a later one. -/
inductive Reaches (ctx : Context) (body : Expr) : Standing → Machine → Standing → Machine → Prop
    where
  | here {s r : Standing} {m m' : Machine} (h : Enters ctx body s m r m') :
      Reaches ctx body s m r m'
  | later {s r r' : Standing} {value : Value} {m m₁ m₂ m₃ m' : Machine}
      (henters : Enters ctx body s m r m₁) (hbody : body.eval ctx m₁ = .ok value m₂)
      (hflow : Flow.ofValue value = .next) (hadvance : r.advance ctx m₂ = .ok () m₃)
      (hreaches : Reaches ctx body r.next m₃ r' m') : Reaches ctx body s m r' m'

/-- A loop comes to its first round. -/
inductive Begins (ctx : Context) (body : Expr) : Expr → Machine → Standing → Machine → Prop where
  | whileLoop (span : Span) (condition : Expr) (m : Machine) :
      Begins ctx body (.whileLoop span condition body) m
        (.counting .whileLoop condition none ctx.config.maxIterations 0) m
  | forLoop (span : Span) {start condition step : Expr} {value : Value} {m m' : Machine}
      (h : start.eval ctx m = .ok value m') :
      Begins ctx body (.forLoop span start condition step body) m
        (.counting .forLoop condition (some step) ctx.config.maxIterations 0) m'
  | forEach (span : Span) {kind : Walk} {name : String} {enumerable : Expr} {value item : Value}
      {rest : List Value} {m m' : Machine} (h : enumerable.eval ctx m = .ok value m')
      (hitems : kind.items? value m'.heap = some (item :: rest)) :
      Begins ctx body (.forEach span kind name enumerable body) m
        (.walking name (rest.length + 1) (item :: rest)) m'

variable {ctx : Context} {body : Expr}

/-- Where a body yields a value, its loop goes on as the value demands. -/
theorem conclude_ok (s : Standing) {action : Eval Value} {value : Value} {m m' : Machine}
    (h : action m = .ok value m') :
    s.conclude ctx body action m =
      match Flow.ofValue value with
      | .stop => .ok s.total (s.leave ctx.scope m')
      | .escape signal => .ok (.control signal) (s.leave ctx.scope m')
      | .next => s.proceed ctx body m' := by
  have haction : Eval.onFailure action (s.leave ctx.scope) m = .ok value m' := by
    rw [Eval.onFailure, h]
  rw [conclude, Eval.run_bind_ok haction]
  cases Flow.ofValue value <;> rfl

/-- Where a body fails, its loop fails and is left. -/
theorem conclude_error (s : Standing) {action : Eval Value} {error : RuntimeError}
    {m m' : Machine} (h : action m = .error error m') :
    s.conclude ctx body action m = .error error (s.leave ctx.scope m') := by
  rw [conclude, Eval.run_bind, Eval.onFailure, h]

/-- How a loop goes on depends on nothing but how its body ends. -/
theorem conclude_congr (s : Standing) {x y : Eval Value} {m m' : Machine} (h : x m = y m') :
    s.conclude ctx body x m = s.conclude ctx body y m' := by
  cases hy : y m' with
  | ok value m'' => rw [conclude_ok s (h.trans hy), conclude_ok s hy]
  | error error m'' => rw [conclude_error s (h.trans hy), conclude_error s hy]

/-- A loop in which a round begins goes on as the body's value demands. -/
theorem Enters.rounds_eq {s r : Standing} {m m' : Machine} (h : Enters ctx body s m r m') :
    s.rounds ctx body m = r.conclude ctx body (body.eval ctx) m' := by
  cases h with
  | @counting construct condition step left count _ _ h =>
      rw [rounds, Eval.loop, Eval.run_bind_ok h, if_pos rfl, Eval.run_bind]
      cases hbody : body.eval ctx m' with
      | error error m'' =>
          rw [conclude_error _ hbody]
          rfl
      | ok value m'' =>
          rw [conclude_ok _ hbody]
          dsimp only
          cases Flow.ofValue value <;> rfl
  | walking h =>
      rw [rounds, Eval.forEach, Eval.run_bind_ok h]
      rfl

/-- A loop that comes to a later round has done nothing else than what comes before that round. -/
theorem Reaches.rounds_eq {s r : Standing} {m m' : Machine} (h : Reaches ctx body s m r m') :
    s.rounds ctx body m = r.conclude ctx body (body.eval ctx) m' := by
  induction h with
  | here h => exact h.rounds_eq
  | later henters hbody hflow hadvance _ ih =>
      rw [henters.rounds_eq, conclude_ok _ hbody, hflow]
      exact (Eval.run_bind_ok hadvance _).trans ih

/-- A loop that comes to its first round has all its rounds before it. -/
theorem Begins.eval_eq {e : Expr} {s : Standing} {m m' : Machine} (h : Begins ctx body e m s m') :
    e.eval ctx m = s.rounds ctx body m' := by
  cases h with
  | whileLoop =>
      simp only [Expr.eval]
      rfl
  | forLoop span h =>
      simp only [Expr.eval]
      exact Eval.run_bind_ok h _
  | forEach span h hitems =>
      simp only [Expr.eval]
      rw [Eval.run_bind_ok h, Eval.walkValue_of_items hitems]
      rfl

end Standing

/-- If how each of some constructs goes on depends on nothing but how the action in it ends, so does
how the constructs go on, one inside the other. -/
theorem Eval.foldr_congr {F : Type} {resume : F → Eval Value → Eval Value}
    (hresume : ∀ f {x y : Eval Value} {m m' : Machine}, x m = y m' → resume f x m = resume f y m')
    (frames : List F) {x y : Eval Value} {m m' : Machine} (h : x m = y m') :
    frames.foldr resume x m = frames.foldr resume y m' := by
  induction frames with
  | nil => exact h
  | cons f frames ih => exact hresume f ih

/-- A block in which an expression is being evaluated. -/
structure OpenBlock where
  /-- The last value before that expression. -/
  last : Value
  /-- The expressions after it. -/
  rest : List Expr

namespace OpenBlock

/-- Go on as the value of the expression demands. -/
def resume (ctx : Context) (block : OpenBlock) (action : Eval Value) : Eval Value := do
  match ← action with
  | .nothing => Expr.evalBlock ctx false block.last block.rest
  | .control signal => return signal.leaveBlock
  | value => Expr.evalBlock ctx false value block.rest

/-- Go on with blocks one inside the other, the outermost first. -/
def within (ctx : Context) (blocks : List OpenBlock) (action : Eval Value) : Eval Value :=
  blocks.foldr (resume ctx) action

/-- The expressions of a block that come before another one are evaluated, and none of them yields a
signal. -/
inductive Passes (ctx : Context) : Value → List Expr → Machine → Value → Machine → Prop where
  | nil (last : Value) (m : Machine) : Passes ctx last [] m last m
  | nothing {e : Expr} {rest : List Expr} {last last' : Value} {m m₁ m' : Machine}
      (h : e.eval ctx m = .ok .nothing m₁) (hrest : Passes ctx last rest m₁ last' m') :
      Passes ctx last (e :: rest) m last' m'
  | value {e : Expr} {rest : List Expr} {last value last' : Value} {m m₁ m' : Machine}
      (h : e.eval ctx m = .ok value m₁) (hvalue : value ≠ .nothing)
      (hsignal : ∀ signal, value ≠ .control signal) (hrest : Passes ctx value rest m₁ last' m') :
      Passes ctx last (e :: rest) m last' m'

/-- Blocks one inside the other have come to an expression of the innermost one. -/
inductive Reaches (ctx : Context) : Expr → Machine → List OpenBlock → Expr → Machine → Prop where
  | here (e : Expr) (m : Machine) : Reaches ctx e m [] e m
  | block (span : Span) {before after : List Expr} {e inner : Expr} {last : Value}
      {blocks : List OpenBlock} {m m₁ m' : Machine} (hpasses : Passes ctx .nothing before m last m₁)
      (hreaches : Reaches ctx e m₁ blocks inner m') :
      Reaches ctx (.block span (before ++ e :: after)) m (⟨last, after⟩ :: blocks) inner m'

variable {ctx : Context}

/-- How a block goes on depends on nothing but how its expression ends. -/
theorem resume_congr (block : OpenBlock) {x y : Eval Value} {m m' : Machine} (h : x m = y m') :
    block.resume ctx x m = block.resume ctx y m' := by
  rw [resume, resume, Eval.run_bind, Eval.run_bind, h]

/-- A block that meets a signal ends. -/
theorem resume_control (block : OpenBlock) {x : Eval Value} {signal : Control} {m m' : Machine}
    (h : x m = .ok (.control signal) m') :
    block.resume ctx x m = .ok signal.leaveBlock m' := by
  rw [resume, Eval.run_bind_ok h]
  rfl

/-- A block evaluates its expressions one after the other. -/
theorem evalBlock_cons (last : Value) (e : Expr) (rest : List Expr) :
    Expr.evalBlock ctx false last (e :: rest) = resume ctx ⟨last, rest⟩ (e.eval ctx) := by
  rw [Expr.evalBlock, resume]
  congr 1
  funext value
  cases value <;> rfl

/-- A block that has come to an expression has done nothing else than what comes before it. -/
theorem Passes.evalBlock_eq {last last' : Value} {before : List Expr} {m m' : Machine}
    (h : Passes ctx last before m last' m') (e : Expr) (after : List Expr) :
    Expr.evalBlock ctx false last (before ++ e :: after) m =
      resume ctx ⟨last', after⟩ (e.eval ctx) m' := by
  induction h with
  | nil => rw [List.nil_append, evalBlock_cons]
  | nothing h _ ih =>
      rw [List.cons_append, evalBlock_cons, resume, Eval.run_bind_ok h]
      exact ih
  | value h hvalue hsignal _ ih =>
      rw [List.cons_append, evalBlock_cons, resume, Eval.run_bind_ok h]
      split
      · exact absurd rfl hvalue
      · exact absurd rfl (hsignal _)
      · exact ih

/-- Blocks that have come to an expression go on with it. -/
theorem Reaches.eval_eq {e inner : Expr} {blocks : List OpenBlock} {m m' : Machine}
    (h : Reaches ctx e m blocks inner m') :
    e.eval ctx m = within ctx blocks (inner.eval ctx) m' := by
  induction h with
  | here => rfl
  | block span hpasses _ ih =>
      simp only [Expr.eval]
      rw [hpasses.evalBlock_eq]
      exact resume_congr _ ih

/-- A signal that crosses blocks loses one of its carry to each. -/
theorem within_control {kind : Control.Kind} {carry : Nat} {x : Eval Value} {m m' : Machine}
    (h : x m = .ok (.control ⟨kind, carry⟩) m') {blocks : List OpenBlock}
    (hle : blocks.length ≤ carry) :
    within ctx blocks x m = .ok (.control ⟨kind, carry - blocks.length⟩) m' := by
  induction blocks with
  | nil => exact h
  | cons block blocks ih =>
      rw [List.length_cons] at hle ⊢
      have hinner := ih (by omega)
      have hcarry : 0 < carry - blocks.length := by omega
      rw [within, List.foldr_cons, ← within, resume_control block hinner, Control.leaveBlock,
        if_pos hcarry, Nat.sub_sub]

/-- A signal arrives at the block that its carry tells. -/
theorem within_arrive {kind : Control.Kind} {x : Eval Value} {m m' : Machine}
    (block : OpenBlock) {inside : List OpenBlock}
    (h : x m = .ok (.control ⟨kind, inside.length⟩) m') :
    within ctx (block :: inside) x m = .ok (Control.leaveBlock ⟨kind, 0⟩) m' := by
  have hinside : within ctx inside x m = _ := within_control h (Nat.le_refl _)
  rw [Nat.sub_self] at hinside
  exact block.resume_control hinside

end OpenBlock

/-- A loop in a round, with the block that is its body open. -/
structure LoopFrame where
  /-- Where the loop stands. -/
  standing : Standing
  /-- The loop's body. -/
  body : Expr
  /-- The block that the body is. -/
  block : OpenBlock

namespace LoopFrame

/-- Go on as the value of the expression demands that the loop's body has come to. -/
def resume (ctx : Context) (frame : LoopFrame) (action : Eval Value) : Eval Value :=
  frame.standing.conclude ctx frame.body (frame.block.resume ctx action)

/-- Go on with loops one inside the other, the outermost first. -/
def within (ctx : Context) (frames : List LoopFrame) (action : Eval Value) : Eval Value :=
  frames.foldr (resume ctx) action

/-- Leave loops, the innermost first. -/
def leave (scope : ScopeId) (frames : List LoopFrame) (m : Machine) : Machine :=
  frames.foldr (fun frame => frame.standing.leave scope) m

/-- Loops one inside the other have come to an expression of the innermost one's body. Each loop is
one of the expressions that make up the body of the loop around it. -/
inductive Reaches (ctx : Context) : Expr → Machine → List LoopFrame → Expr → Machine → Prop where
  | here (e : Expr) (m : Machine) : Reaches ctx e m [] e m
  | loop {span : Span} {before after : List Expr} {outer e inner : Expr} {s r : Standing}
      {last : Value} {frames : List LoopFrame} {m m₁ m₂ m₃ m' : Machine}
      (hbegins : Standing.Begins ctx (.block span (before ++ e :: after)) outer m s m₁)
      (hround : Standing.Reaches ctx (.block span (before ++ e :: after)) s m₁ r m₂)
      (hpasses : OpenBlock.Passes ctx .nothing before m₂ last m₃)
      (hreaches : Reaches ctx e m₃ frames inner m') :
      Reaches ctx outer m (⟨r, .block span (before ++ e :: after), ⟨last, after⟩⟩ :: frames) inner
        m'

variable {ctx : Context}

/-- How a loop goes on depends on nothing but how the expression ends that its body has come to. -/
theorem resume_congr (frame : LoopFrame) {x y : Eval Value} {m m' : Machine} (h : x m = y m') :
    frame.resume ctx x m = frame.resume ctx y m' :=
  frame.standing.conclude_congr (frame.block.resume_congr h)

/-- Loops that have come to an expression go on with it. -/
theorem Reaches.eval_eq {e inner : Expr} {frames : List LoopFrame} {m m' : Machine}
    (h : Reaches ctx e m frames inner m') :
    e.eval ctx m = within ctx frames (inner.eval ctx) m' := by
  induction h with
  | here => rfl
  | loop hbegins hround hpasses _ ih =>
      rw [hbegins.eval_eq, hround.rounds_eq]
      refine Standing.conclude_congr _ ?_
      simp only [Expr.eval]
      rw [hpasses.evalBlock_eq]
      exact OpenBlock.resume_congr _ ih

/-- A signal with more than one block to cross ends the loop and goes on outward. -/
theorem resume_escape (frame : LoopFrame) {kind : Control.Kind} {carry : Nat} {x : Eval Value}
    {m m' : Machine} (h : x m = .ok (.control ⟨kind, carry⟩) m') (hcarry : 1 < carry) :
    frame.resume ctx x m =
      .ok (.control ⟨kind, carry - 1⟩) (frame.standing.leave ctx.scope m') := by
  have hblock : frame.block.resume ctx x m = _ := frame.block.resume_control h
  have hleave : Control.leaveBlock ⟨kind, carry⟩ = .control ⟨kind, carry - 1⟩ :=
    if_pos (by omega : 0 < carry)
  have hflow : Flow.ofValue (.control ⟨kind, carry - 1⟩) = .escape ⟨kind, carry - 1⟩ :=
    if_pos (by omega : 0 < carry - 1)
  rw [resume, Standing.conclude_ok _ hblock, hleave, hflow]

/-- A signal with at most one block to cross reaches the loop. -/
theorem flow_leaveBlock {kind : Control.Kind} {carry : Nat} (hcarry : carry ≤ 1) :
    Flow.ofValue (Control.leaveBlock ⟨kind, carry⟩) =
      match kind with
      | .stop => .stop
      | .next => .next := by
  -- The block makes null or true of carry zero, and a signal with carry zero of carry one. The loop
  -- takes them alike.
  have hcases : carry = 0 ∨ carry = 1 := by omega
  rcases hcases with rfl | rfl <;> cases kind <;> rfl

/-- A signal to leave ends the loop that it reaches. -/
theorem resume_stop (frame : LoopFrame) {carry : Nat} {x : Eval Value} {m m' : Machine}
    (h : x m = .ok (.control ⟨.stop, carry⟩) m') (hcarry : carry ≤ 1) :
    frame.resume ctx x m = .ok frame.standing.total (frame.standing.leave ctx.scope m') := by
  have hblock : frame.block.resume ctx x m = _ := frame.block.resume_control h
  rw [resume, Standing.conclude_ok _ hblock, flow_leaveBlock hcarry]

/-- A signal to go on makes the loop that it reaches do so. -/
theorem resume_next (frame : LoopFrame) {carry : Nat} {x : Eval Value} {m m' : Machine}
    (h : x m = .ok (.control ⟨.next, carry⟩) m') (hcarry : carry ≤ 1) :
    frame.resume ctx x m = frame.standing.proceed ctx frame.body m' := by
  have hblock : frame.block.resume ctx x m = _ := frame.block.resume_control h
  rw [resume, Standing.conclude_ok _ hblock, flow_leaveBlock hcarry]

/-- A signal with more blocks to cross than there are loops ends all of them. -/
theorem within_escape {kind : Control.Kind} {carry : Nat} {x : Eval Value} {m m' : Machine}
    (h : x m = .ok (.control ⟨kind, carry⟩) m') {frames : List LoopFrame}
    (hlt : frames.length < carry) :
    within ctx frames x m =
      .ok (.control ⟨kind, carry - frames.length⟩) (leave ctx.scope frames m') := by
  induction frames with
  | nil => exact h
  | cons frame frames ih =>
      rw [List.length_cons] at hlt ⊢
      have hinner := ih (by omega)
      have hcarry : 1 < carry - frames.length := by omega
      rw [within, List.foldr_cons, ← within, frame.resume_escape hinner hcarry, Nat.sub_sub]
      rfl

/-- A signal gets through all loops before the one that its carry, of which zero counts as one,
tells. -/
theorem within_arrive {kind : Control.Kind} {carry : Nat} {x : Eval Value} {m m' : Machine}
    (h : x m = .ok (.control ⟨kind, carry⟩) m') {frames : List LoopFrame}
    (hlength : frames.length + 1 = max 1 carry) :
    ∃ carry' ≤ 1, within ctx frames x m =
      .ok (.control ⟨kind, carry'⟩) (leave ctx.scope frames m') := by
  by_cases hlt : frames.length < carry
  · exact ⟨carry - frames.length, by omega, within_escape h hlt⟩
  · have hnil : frames = [] := List.eq_nil_of_length_eq_zero (by omega)
    subst hnil
    exact ⟨carry, by omega, h⟩

end LoopFrame

/-- What becomes of a signal inside plain blocks inside loops.

With a carry that gets it through the blocks, what is left of the carry, but at least one, tells
which loop it reaches, counted from the innermost: the loops before that one end, and all that
remains of them is left out. If the signal is one to leave, that loop ends as well and yields its
number; if it is one to go on, that loop goes on to its next round. If there are fewer loops, all of
them end, and the signal is the value of the outermost with its carry less by one for each.

With a smaller carry the signal ends that many blocks and one more, which yields null or true, and
all that is around that block goes on. -/
theorem Expr.signal_crosses {ctx : Context} {e wrapped inner : Expr} {frames : List LoopFrame}
    {blocks : List OpenBlock} {kind : Control.Kind} {carry : Nat} {m m₁ m₂ m₃ : Machine}
    (hloops : LoopFrame.Reaches ctx e m frames wrapped m₁)
    (hblocks : OpenBlock.Reaches ctx wrapped m₁ blocks inner m₂)
    (hsignal : inner.eval ctx m₂ = .ok (.control ⟨kind, carry⟩) m₃) :
    (blocks.length ≤ carry →
      (∀ outer frame inside, frames = outer ++ frame :: inside →
        inside.length + 1 = max 1 (carry - blocks.length) →
        e.eval ctx m =
          match kind with
          | .stop => LoopFrame.within ctx outer (pure frame.standing.total)
              (LoopFrame.leave ctx.scope (frame :: inside) m₃)
          | .next => LoopFrame.within ctx outer (frame.standing.proceed ctx frame.body)
              (LoopFrame.leave ctx.scope inside m₃)) ∧
      (frames.length < carry - blocks.length →
        e.eval ctx m = .ok (.control ⟨kind, carry - blocks.length - frames.length⟩)
          (LoopFrame.leave ctx.scope frames m₃))) ∧
    ∀ outer block inside, blocks = outer ++ block :: inside → inside.length = carry →
      e.eval ctx m =
        LoopFrame.within ctx frames (OpenBlock.within ctx outer (pure
          (match kind with
          | .stop => .null
          | .next => .boolean true))) m₃ := by
  have heval := hloops.eval_eq
  have hwrapped := hblocks.eval_eq
  refine ⟨fun hle => ?_, ?_⟩
  · rw [OpenBlock.within_control hsignal hle] at hwrapped
    refine ⟨?_, fun hlt => heval.trans (LoopFrame.within_escape hwrapped hlt)⟩
    rintro outer frame inside rfl hlength
    obtain ⟨carry', hcarry, hinside⟩ := LoopFrame.within_arrive hwrapped hlength
    rw [heval, LoopFrame.within, List.foldr_append]
    cases kind with
    | stop => exact Eval.foldr_congr LoopFrame.resume_congr outer (frame.resume_stop hinside hcarry)
    | next => exact Eval.foldr_congr LoopFrame.resume_congr outer (frame.resume_next hinside hcarry)
  · rintro outer block inside rfl rfl
    rw [heval]
    refine Eval.foldr_congr LoopFrame.resume_congr frames ?_
    rw [hwrapped, OpenBlock.within, List.foldr_append]
    refine Eval.foldr_congr OpenBlock.resume_congr outer ?_
    refine (OpenBlock.within_arrive block hsignal).trans ?_
    cases kind <;> rfl

/-- In `while true { 1; for c of "ab" { { break 3 }; null }; missing }` the signal crosses the plain
block and ends both loops, so that the name without a binding is never looked up. -/
theorem Expr.signal_crosses_two_loops :
    let session := Session.start {}
    let wrapped := block ⟨33, 11⟩ [control ⟨35, 7⟩ ⟨.stop, 3⟩]
    let walk := forEach ⟨16, 36⟩ .elements "c" (string ⟨25, 4⟩ "ab")
      (block ⟨30, 22⟩ [wrapped, null ⟨46, 4⟩])
    let loop := whileLoop ⟨0, 63⟩ (boolean ⟨6, 4⟩ true)
      (block ⟨11, 52⟩ [number ⟨13, 1⟩ 1, walk, identifier ⟨54, 7⟩ "missing"])
    ∃ m, loop.eval session.context session.machine = .ok (.number 0) m := by
  intro session wrapped walk loop
  have hloops : LoopFrame.Reaches session.context loop session.machine _ wrapped _ :=
    .loop (.whileLoop _ _ _) (.here (.counting rfl))
      (.value (e := number ⟨13, 1⟩ 1) rfl nofun nofun (.nil _ _))
      (.loop (.forEach _ rfl rfl) (.here (.walking rfl)) (.nil _ _) (.here wrapped _))
  have hcrosses := signal_crosses hloops (.block _ (.nil _ _) (.here _ _)) rfl
  exact ⟨_, (hcrosses.1 (by decide)).1 [] _ [_] rfl rfl⟩

end ListScript
