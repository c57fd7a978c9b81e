import ListScript.Proofs.Eval.Iteration
import ListScript.Proofs.Eval.Signals

/-!
# How a loop over items ends

A loop over items goes through some rounds (`ItemLoop.Rounds`) and then ends in one of five ways
(`ItemLoop.Ends`): no items are left, its name cannot be bound to the next item, the body fails, or
the body stops the loop, with or without a signal. A log lists the evaluations that this is made up
of, as for a loop under a condition. Every run of a loop is rounds and an end
(`ItemLoop.exists_proceeds`). It releases its name unless the body has made the name constant and
there is another item (`Expr.forEach_leaves_bound_iff`).
-/

namespace ListScript

/-- The machine after a name is removed from a scope. -/
def Machine.release (m : Machine) (scope : ScopeId) (name : String) : Machine :=
  { m with scopes := m.scopes.release scope name }

/-- The name has a constant binding in the scope. -/
def Scopes.IsConstant (s : Scopes) (scope : ScopeId) (name : String) : Prop :=
  ∃ binding, s.binding? scope name = some binding ∧ binding.isConst = true

theorem Scopes.IsConstant.contains {s : Scopes} {scope : ScopeId} {name : String}
    (h : s.IsConstant scope name) : s.contains scope name = true := by
  obtain ⟨binding, hbinding, -⟩ := h
  rw [Scopes.contains, hbinding]
  rfl

theorem Machine.contains_release (m : Machine) (scope : ScopeId) (name : String) :
    (m.release scope name).scopes.contains scope name = false := by
  show (m.scopes.release scope name).contains scope name = false
  rw [Scopes.contains, Scopes.binding?_release, if_pos ⟨rfl, rfl⟩]
  rfl

namespace Eval

/-- An assignment to a constant name is refused and changes nothing. -/
theorem assign_of_constant {scope : ScopeId} {name : String} {m : Machine}
    (h : m.scopes.IsConstant scope name) (value : Value) (mode : BindingMode) (limit : Option Nat)
    (span : Span) :
    assign scope name value mode limit span m = .error ⟨.constantReassignment name, span⟩ m := by
  obtain ⟨binding, hbinding, hconst⟩ := h
  simp only [assign, Scopes.assign, hbinding, hconst, if_true]

/-- An assignment goes through unless the name is constant. -/
theorem assign_of_not_constant {scope : ScopeId} {name : String} {m : Machine}
    (h : ¬ m.scopes.IsConstant scope name) (value : Value) (mode : BindingMode)
    (limit : Option Nat) (span : Span) :
    ∃ m', assign scope name value mode limit span m = .ok value m' := by
  cases hbinding : m.scopes.binding? scope name with
  | none =>
      simp only [assign, Scopes.assign, hbinding]
      exact ⟨_, rfl⟩
  | some binding =>
      have hconst : ¬ binding.isConst = true := fun hconst => h ⟨binding, hbinding, hconst⟩
      simp only [assign, Scopes.assign, hbinding, if_neg hconst]
      exact ⟨_, rfl⟩

variable {scope : ScopeId} {name : String} {span : Span} {body : Eval Value}

/-- A loop whose name is bound to its next item goes on as the body's result demands. -/
theorem forEach_cons {item : Value} {m m₁ : Machine}
    (h : assign scope name item ⟨false, false⟩ none span m = .ok item m₁) (total : Value)
    (rest : List Value) :
    forEach scope name span body total (item :: rest) m =
      match body m₁ with
      | .error error m₂ => .error error (m₂.release scope name)
      | .ok value m₂ =>
        match Flow.ofValue value with
        | .stop => .ok total (m₂.release scope name)
        | .escape signal => .ok (.control signal) (m₂.release scope name)
        | .next => forEach scope name span body total rest m₂ := by
  rw [forEach, run_bind_ok h, run_bind, onFailure]
  cases body m₁ with
  | error error m₂ => rfl
  | ok value m₂ =>
      dsimp only
      cases Flow.ofValue value <;> rfl

/-- A loop over a value with items is a walk over them. -/
theorem walk_cons (scope : ScopeId) (name : String) (span : Span) (body : Eval Value)
    (item : Value) (rest : List Value) :
    walk scope name span body (item :: rest) =
      forEach scope name span body (.number (.ofNat (item :: rest).length)) (item :: rest) :=
  rfl

end Eval

/-- The parts of a loop over items. -/
structure ItemLoop where
  /-- The scope in which the name is bound. -/
  scope : ScopeId
  /-- The name that is bound to each item. -/
  name : String
  /-- The place of the body. -/
  span : Span
  /-- The body. -/
  body : Eval Value

namespace ItemLoop

/-- Bind the name to an item. -/
def bind (loop : ItemLoop) (item : Value) : Eval Value :=
  Eval.assign loop.scope loop.name item ⟨false, false⟩ none loop.span

/-- The machine after the name is released. -/
def release (loop : ItemLoop) (m : Machine) : Machine := m.release loop.scope loop.name

/-- The rounds of the loop for the given items. -/
def proceed (loop : ItemLoop) (total : Value) (items : List Value) : Eval Value :=
  Eval.forEach loop.scope loop.name loop.span loop.body total items

/-- The loop goes through rounds for items: its name is bound to each of them in turn, and the body
yields a value after which the loop goes on. The log lists these evaluations. -/
inductive Rounds (loop : ItemLoop) :
    List Value → Machine → List Evaluation → Machine → Prop where
  | nil (m : Machine) : Rounds loop [] m [] m
  | cons {item value : Value} {rest : List Value} {m m₁ m₂ m' : Machine} {log : List Evaluation}
      (hbind : loop.bind item m = .ok item m₁) (hbody : loop.body m₁ = .ok value m₂)
      (hflow : Flow.ofValue value = .next) (hrest : Rounds loop rest m₂ log m') :
      Rounds loop (item :: rest) m (.binding m (.ok item m₁) :: .body m₁ (.ok value m₂) :: log) m'

/-- The loop with the given items left ends without another full round. -/
inductive Ends (loop : ItemLoop) (total : Value) :
    List Value → Machine → List Evaluation → Outcome Value → Prop where
  | finished (m : Machine) : Ends loop total [] m [] (.ok total (loop.release m))
  | refused (item : Value) (rest : List Value) {m : Machine}
      (hconst : m.scopes.IsConstant loop.scope loop.name) :
      Ends loop total (item :: rest) m
        [.binding m (.error ⟨.constantReassignment loop.name, loop.span⟩ m)]
        (.error ⟨.constantReassignment loop.name, loop.span⟩ m)
  | failed {item : Value} (rest : List Value) {m m₁ m₂ : Machine} {error : RuntimeError}
      (hbind : loop.bind item m = .ok item m₁) (hbody : loop.body m₁ = .error error m₂) :
      Ends loop total (item :: rest) m [.binding m (.ok item m₁), .body m₁ (.error error m₂)]
        (.error error (loop.release m₂))
  | stopped {item value : Value} (rest : List Value) {m m₁ m₂ : Machine}
      (hbind : loop.bind item m = .ok item m₁) (hbody : loop.body m₁ = .ok value m₂)
      (hflow : Flow.ofValue value = .stop) :
      Ends loop total (item :: rest) m [.binding m (.ok item m₁), .body m₁ (.ok value m₂)]
        (.ok total (loop.release m₂))
  | escaped {item value : Value} (rest : List Value) {m m₁ m₂ : Machine} {signal : Control}
      (hbind : loop.bind item m = .ok item m₁) (hbody : loop.body m₁ = .ok value m₂)
      (hflow : Flow.ofValue value = .escape signal) :
      Ends loop total (item :: rest) m [.binding m (.ok item m₁), .body m₁ (.ok value m₂)]
        (.ok (.control signal) (loop.release m₂))

/-- `Proceeds loop total items m log outcome` says that the loop, when these items are left, makes
the evaluations of the log one after the other, beginning with the machine `m`, and ends with the
outcome. -/
inductive Proceeds (loop : ItemLoop) (total : Value) :
    List Value → Machine → List Evaluation → Outcome Value → Prop where
  | intro {done left : List Value} {m m' : Machine} {log last : List Evaluation}
      {outcome : Outcome Value} (hrounds : Rounds loop done m log m')
      (hends : Ends loop total left m' last outcome) :
      Proceeds loop total (done ++ left) m (log ++ last) outcome

variable {loop : ItemLoop} {total : Value} {m : Machine} {log : List Evaluation}
  {outcome : Outcome Value}

/-- One round of a loop whose name is bound to the next item. -/
theorem proceed_of_ok {item : Value} {m₁ : Machine} (h : loop.bind item m = .ok item m₁)
    (total : Value) (rest : List Value) :
    loop.proceed total (item :: rest) m =
      match loop.body m₁ with
      | .error error m₂ => .error error (loop.release m₂)
      | .ok value m₂ =>
        match Flow.ofValue value with
        | .stop => .ok total (loop.release m₂)
        | .escape signal => .ok (.control signal) (loop.release m₂)
        | .next => loop.proceed total rest m₂ :=
  Eval.forEach_cons h total rest

/-- A loop whose name is constant fails at the next item. -/
theorem proceed_of_constant (h : m.scopes.IsConstant loop.scope loop.name) (total item : Value)
    (rest : List Value) :
    loop.proceed total (item :: rest) m =
      .error ⟨.constantReassignment loop.name, loop.span⟩ m := by
  rw [proceed, Eval.forEach, Eval.run_bind, Eval.assign_of_constant h]

/-- After some rounds, a loop goes on with the items that are left. -/
theorem Rounds.proceed_eq {done : List Value} {m' : Machine} (h : loop.Rounds done m log m')
    (total : Value) (left : List Value) :
    loop.proceed total (done ++ left) m = loop.proceed total left m' := by
  induction h with
  | nil m => rfl
  | cons hbind hbody hflow _ ih =>
      rw [List.cons_append, proceed_of_ok hbind]
      simp only [hbody, hflow, ih]

/-- An end is how the loop ends. -/
theorem Ends.outcome_eq {left : List Value} (h : loop.Ends total left m log outcome) :
    outcome = loop.proceed total left m := by
  cases h with
  | finished => rfl
  | refused item rest hconst => rw [proceed_of_constant hconst]
  | failed rest hbind hbody => simp only [proceed_of_ok hbind, hbody]
  | stopped rest hbind hbody hflow => simp only [proceed_of_ok hbind, hbody, hflow]
  | escaped rest hbind hbody hflow => simp only [proceed_of_ok hbind, hbody, hflow]

/-- Whatever a loop logs, it ends as its rounds do. -/
theorem Proceeds.outcome_eq {items : List Value}
    (h : Proceeds loop total items m log outcome) : outcome = loop.proceed total items m := by
  obtain ⟨hrounds, hends⟩ := h
  rw [hrounds.proceed_eq]
  exact hends.outcome_eq

/-- One more round comes before what a loop logs. -/
theorem Proceeds.cons {item value : Value} {rest : List Value} {m₁ m₂ : Machine}
    (hbind : loop.bind item m = .ok item m₁) (hbody : loop.body m₁ = .ok value m₂)
    (hflow : Flow.ofValue value = .next) (h : Proceeds loop total rest m₂ log outcome) :
    Proceeds loop total (item :: rest) m
      (.binding m (.ok item m₁) :: .body m₁ (.ok value m₂) :: log) outcome := by
  obtain ⟨hrounds, hends⟩ := h
  exact .intro (.cons hbind hbody hflow hrounds) hends

/-- Every run of a loop is made up of rounds and an end. -/
theorem exists_proceeds (loop : ItemLoop) (total : Value) (items : List Value) (m : Machine) :
    ∃ log, Proceeds loop total items m log (loop.proceed total items m) := by
  induction items generalizing m with
  | nil => exact ⟨_, .intro (.nil m) (.finished m)⟩
  | cons item rest ih =>
      by_cases hconst : m.scopes.IsConstant loop.scope loop.name
      · rw [proceed_of_constant hconst]
        exact ⟨_, .intro (.nil m) (.refused item rest hconst)⟩
      · obtain ⟨m₁, hbind⟩ :=
          Eval.assign_of_not_constant hconst item ⟨false, false⟩ none loop.span
        rw [proceed_of_ok hbind]
        cases hbody : loop.body m₁ with
        | error error m₂ => exact ⟨_, .intro (.nil m) (.failed rest hbind hbody)⟩
        | ok value m₂ =>
            dsimp only
            cases hflow : Flow.ofValue value with
            | stop => exact ⟨_, .intro (.nil m) (.stopped rest hbind hbody hflow)⟩
            | escape signal => exact ⟨_, .intro (.nil m) (.escaped rest hbind hbody hflow)⟩
            | next =>
                obtain ⟨log, hlog⟩ := ih m₂
                exact ⟨_, hlog.cons hbind hbody hflow⟩

/-- A loop that keeps its name bound has ended because the name is constant. -/
theorem Ends.of_contains {left : List Value} {action : Eval Value} {m' : Machine}
    (h : loop.Ends total left m' log (action m))
    (hbound : (action.after m).scopes.contains loop.scope loop.name = true) :
    (∃ next others, left = next :: others) ∧ m'.scopes.IsConstant loop.scope loop.name ∧
      action m = .error ⟨.constantReassignment loop.name, loop.span⟩ m' := by
  rw [Eval.after] at hbound
  generalize action m = result at h hbound
  cases h with
  | refused next others hconst => exact ⟨⟨next, others, rfl⟩, hconst, rfl⟩
  | finished | failed | stopped | escaped =>
      dsimp only [release] at hbound
      rw [Machine.contains_release] at hbound
      cases hbound

end ItemLoop

/-- A loop goes through rounds for items: its name is bound to each of them in turn, and the body
yields a value after which the loop goes on. -/
def Eval.Rounds (scope : ScopeId) (name : String) (span : Span) (body : Eval Value)
    (items : List Value) (m m' : Machine) : Prop :=
  ∃ log, (ItemLoop.mk scope name span body).Rounds items m log m'

/-- Suppose that a loop over items has begun: the name could be bound to the first item, and so the
body was evaluated. Then the name is still bound in the loop's scope after the loop, however that
ends, just if some rounds went through, there was another item, and the name was constant by then.
The loop then ends with the error that it cannot bind the name again, and with the machine as the
last round left it. In all other cases the loop has released the name. -/
theorem Expr.forEach_leaves_bound_iff (ctx : Context) (span : Span) (kind : Walk) (name : String)
    (enumerable body : Expr) {m m₀ m₁ : Machine} {value item : Value} {rest : List Value}
    (hvalue : enumerable.eval ctx m = .ok value m₀)
    (hitems : kind.items? value m₀.heap = some (item :: rest))
    (hbegins : Eval.assign ctx.scope name item ⟨false, false⟩ none body.span m₀ = .ok item m₁) :
    let loop := (Expr.forEach span kind name enumerable body).eval ctx
    (loop.after m).scopes.contains ctx.scope name = true ↔
      ∃ done next others m', rest = done ++ next :: others ∧
        Eval.Rounds ctx.scope name body.span (body.eval ctx) (item :: done) m₀ m' ∧
        m'.scopes.IsConstant ctx.scope name ∧
        loop m = .error ⟨.constantReassignment name, body.span⟩ m' := by
  intro loop
  have hloop : loop m = Eval.forEach ctx.scope name body.span (body.eval ctx)
      (.number (.ofNat (item :: rest).length)) (item :: rest) m₀ := by
    show (Expr.forEach span kind name enumerable body).eval ctx m = _
    rw [Expr.eval, Eval.run_bind_ok hvalue, Eval.walkValue_of_items hitems, Eval.walk_cons]
  constructor
  · intro hbound
    obtain ⟨log, hproceeds⟩ := ItemLoop.exists_proceeds
      ⟨ctx.scope, name, body.span, body.eval ctx⟩ (.number (.ofNat (item :: rest).length))
      (item :: rest) m₀
    rw [ItemLoop.proceed, ← hloop] at hproceeds
    generalize hsplit : item :: rest = items at hproceeds
    obtain ⟨hrounds, hends⟩ := hproceeds
    obtain ⟨⟨next, others, rfl⟩, hconst, hrun⟩ := hends.of_contains hbound
    cases hrounds with
    | nil =>
        -- the first item is the one that was bound
        rw [Eval.assign_of_constant hconst] at hbegins
        cases hbegins
    | cons hbind hbody hflow hrest =>
        cases hsplit
        exact ⟨_, next, others, _, rfl, ⟨_, .cons hbind hbody hflow hrest⟩, hconst, hrun⟩
  · rintro ⟨done, next, others, m', -, -, hconst, hrun⟩
    rw [Eval.after, hrun]
    exact hconst.contains

/-- A loop over two items, whose body makes the name constant, goes through one round and then keeps
the name bound. -/
theorem Expr.forEach_leaves_bound_iff_constant :
    let session := Session.start {}
    let body : Expr := .block ⟨23, 13⟩ [.assign ⟨25, 9⟩ (.identifier ⟨25, 1⟩ "i")
      (.boolean ⟨30, 4⟩ true) (.number ⟨34, 0⟩ (-1)) ⟨true, false⟩]
    let loop := (Expr.forEach ⟨0, 36⟩ .elements "i"
      (.list ⟨9, 13⟩ [.boolean ⟨10, 4⟩ true, .boolean ⟨16, 5⟩ false]) body).eval session.context
    let m₀ := { session.machine with heap := ⟨#[[.boolean true, .boolean false]]⟩ }
    (loop.after session.machine).scopes.contains session.scope "i" = true ∧
      ∃ m', Eval.Rounds session.scope "i" body.span (body.eval session.context) [.boolean true]
          m₀ m' ∧
        m'.scopes.IsConstant session.scope "i" ∧
        loop session.machine = .error ⟨.constantReassignment "i", ⟨23, 13⟩⟩ m' := by
  intro session body loop m₀
  have hvalue : (Expr.list ⟨9, 13⟩ [.boolean ⟨10, 4⟩ true, .boolean ⟨16, 5⟩ false]).eval
      session.context session.machine = .ok (.list 0) m₀ := rfl
  have hbound : (loop.after session.machine).scopes.contains session.scope "i" = true := by
    decide +kernel
  have hiff := forEach_leaves_bound_iff session.context ⟨0, 36⟩ .elements "i" _ body hvalue rfl rfl
  obtain ⟨done, next, others, m', hsplit, hrounds, hconst, hrun⟩ := hiff.1 hbound
  obtain rfl : done = [] := by
    cases done with
    | nil => rfl
    | cons item done => cases done <;> cases hsplit
  exact ⟨hbound, m', hrounds, hconst, hrun⟩

/-- Not every loop that has begun releases its name: in the second round of the loop over true and
false with the body that makes the name constant, it cannot be bound again. -/
theorem Expr.forEach_not_always_released :
    ¬ ∀ (ctx : Context) (span : Span) (kind : Walk) (name : String) (enumerable body : Expr)
      (m m₀ m₁ : Machine) (value item : Value) (rest : List Value),
      enumerable.eval ctx m = .ok value m₀ → kind.items? value m₀.heap = some (item :: rest) →
      Eval.assign ctx.scope name item ⟨false, false⟩ none body.span m₀ = .ok item m₁ →
      (((Expr.forEach span kind name enumerable body).eval ctx).after m).scopes.contains
        ctx.scope name = false := by
  intro h
  let session := Session.start {}
  let items : Expr := .list ⟨9, 13⟩ [.boolean ⟨10, 4⟩ true, .boolean ⟨16, 5⟩ false]
  let body : Expr := .block ⟨23, 13⟩ [.assign ⟨25, 9⟩ (.identifier ⟨25, 1⟩ "i")
    (.boolean ⟨30, 4⟩ true) (.number ⟨34, 0⟩ (-1)) ⟨true, false⟩]
  have hvalue : items.eval session.context session.machine =
      .ok (.list 0) { session.machine with heap := ⟨#[[.boolean true, .boolean false]]⟩ } := rfl
  have hreleased := h session.context ⟨0, 36⟩ .elements "i" items body session.machine _ _ _ _ _
    hvalue rfl rfl
  have hbound : (((Expr.forEach ⟨0, 36⟩ .elements "i" items body).eval session.context).after
      session.machine).scopes.contains session.scope "i" = true := by
    decide +kernel
  exact Bool.false_ne_true (hreleased.symm.trans hbound)

end ListScript
