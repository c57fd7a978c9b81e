import ListScript.Proofs.Eval.Walking
import ListScript.Proofs.Scope.Assignment

/-!
# Loops over items walk a snapshot

What a loop over a list binds its name to is settled when the loop begins. The body may change the
list and rebind or release the name as it likes, and yet its evaluations in the log of a run
(`ItemLoop.Runs`) begin, one after the other, with the name bound to what the list held at the start
(`ItemLoop.Rounds.seen_eq`, `Expr.forEach_snapshot`).
-/

namespace ListScript

/-- The machine that the evaluation of a part of a loop begins with. -/
def Evaluation.before : Evaluation → Machine
  | start m _ | condition m _ | body m _ | step m _ | binding m _ => m

/-- What makes a loop pass a signal on. -/
theorem Flow.eq_control_of_escape {value : Value} {signal : Control}
    (h : Flow.ofValue value = .escape signal) : value = .control signal ∧ 0 < signal.carry := by
  cases value with
  | control other =>
      by_cases hcarry : 0 < other.carry
      · simp only [Flow.ofValue, if_pos hcarry] at h
        cases h
        exact ⟨rfl, hcarry⟩
      · obtain ⟨kind, carry⟩ := other
        cases kind <;> simp [Flow.ofValue, hcarry] at h
  | _ => cases h

namespace ItemLoop

/-- The whole loop. -/
def run (loop : ItemLoop) (items : List Value) : Eval Value :=
  Eval.walk loop.scope loop.name loop.span loop.body items

/-- The loop over the items, run on the machine `m`, makes the evaluations of the log and ends with
the outcome. Without items it does nothing, and it does not release the name either. -/
inductive Runs (loop : ItemLoop) :
    List Value → Machine → List Evaluation → Outcome Value → Prop where
  | nil (m : Machine) : Runs loop [] m [] (.ok (.number 0) m)
  | cons {item : Value} {rest : List Value} {m : Machine} {log : List Evaluation}
      {outcome : Outcome Value}
      (h : Proceeds loop (.number (.ofNat (item :: rest).length)) (item :: rest) m log outcome) :
      Runs loop (item :: rest) m log outcome

variable {loop : ItemLoop}

/-- Whatever a loop logs from the start, it ends as it does when it is run. -/
theorem Runs.outcome_eq {items : List Value} {m : Machine} {log : List Evaluation}
    {outcome : Outcome Value} (h : Runs loop items m log outcome) :
    outcome = loop.run items m := by
  cases h with
  | nil => rfl
  | cons h => exact h.outcome_eq

/-- All of a loop can be logged. -/
theorem exists_runs (loop : ItemLoop) (items : List Value) (m : Machine) :
    ∃ log, Runs loop items m log (loop.run items m) := by
  cases items with
  | nil => exact ⟨[], .nil m⟩
  | cons item rest =>
      obtain ⟨log, hlog⟩ := loop.exists_proceeds (.number (.ofNat (item :: rest).length))
        (item :: rest) m
      exact ⟨log, .cons hlog⟩

/-! ## What a log accounts for -/

/-- The scopes are as they can come about, and the loop's own is among them. -/
def Hosts (loop : ItemLoop) (m : Machine) : Prop :=
  m.scopes.Sound ∧ loop.scope < m.scopes.scopes.size

/-- Changes of the scopes leave a loop where it is. -/
theorem Hosts.changes {m m' : Machine} (h : loop.Hosts m) {writable : ScopeId → Prop}
    (hchanges : Scopes.Changes writable m.scopes m'.scopes) : loop.Hosts m' :=
  ⟨hchanges.sound h.1, Nat.lt_of_lt_of_le h.2 hchanges.size_le⟩

/-- After the name is bound to an item, this is its value. -/
theorem Hosts.bind {m m₁ : Machine} (h : loop.Hosts m) {item : Value}
    (hbind : loop.bind item m = .ok item m₁) :
    loop.Hosts m₁ ∧ m₁.scopes.lookup? loop.scope loop.name = some item := by
  simp only [ItemLoop.bind, Eval.assign] at hbind
  split at hbind
  · next scopes hassign =>
    cases hbind
    have hchange : Scopes.Change (fun _ => True) m.scopes scopes := .assign trivial hassign
    exact ⟨h.changes (.single hchange), h.1.lookup?_assign_of_shares hassign h.2 (.inl rfl)⟩
  · cases hbind

/-- The values of the name as the evaluations of the body in a log begin. -/
def seen (loop : ItemLoop) (log : List Evaluation) : List (Option Value) :=
  (log.filter Evaluation.isBody).map (·.before.scopes.lookup? loop.scope loop.name)

theorem seen_binding (m : Machine) (outcome : Outcome Value) (log : List Evaluation) :
    loop.seen (.binding m outcome :: log) = loop.seen log :=
  rfl

theorem seen_body (m : Machine) (outcome : Outcome Value) (log : List Evaluation) :
    loop.seen (.body m outcome :: log) =
      m.scopes.lookup? loop.scope loop.name :: loop.seen log :=
  rfl

theorem seen_append (log last : List Evaluation) :
    loop.seen (log ++ last) = loop.seen log ++ loop.seen last := by
  rw [seen, List.filter_append, List.map_append]
  rfl

section

variable {total : Value} {items : List Value} {m : Machine} {log : List Evaluation}
  {outcome : Outcome Value}

/-- In the rounds of a loop, the evaluations of the body see the items in their order, whatever the
body does. -/
theorem Rounds.seen_eq {m' : Machine} (h : loop.Rounds items m log m')
    (hbody : ∀ m, loop.Hosts m → loop.Hosts (loop.body.after m)) (hm : loop.Hosts m) :
    loop.seen log = items.map some ∧ loop.Hosts m' := by
  induction h with
  | nil m => exact ⟨rfl, hm⟩
  | @cons item value rest m m₁ m₂ m' log hbind hrun hflow _ ih =>
      obtain ⟨hm₁, hbound⟩ := hm.bind hbind
      -- The body may have released or rebound the name. The next round binds it anew, and all that
      -- this takes is that the scopes are still sound.
      have hm₂ := hbody m₁ hm₁
      rw [Eval.after, hrun] at hm₂
      obtain ⟨hseen, hm'⟩ := ih hm₂
      rw [seen_binding, seen_body, hbound, hseen]
      exact ⟨rfl, hm'⟩

/-- At the end of a loop, the body sees at most the next item. -/
theorem Ends.seen_prefix (h : loop.Ends total items m log outcome) (hm : loop.Hosts m) :
    loop.seen log <+: items.map some := by
  cases h with
  | finished | refused => exact List.nil_prefix
  | failed rest hbind | stopped rest hbind | escaped rest hbind =>
      rw [seen_binding, seen_body, (hm.bind hbind).2]
      exact List.prefix_cons_inj _ |>.2 List.nil_prefix

/-- The values that the evaluations of the body see are the first of the items in their order,
whatever the body does. -/
theorem Proceeds.seen_prefix (h : Proceeds loop total items m log outcome)
    (hbody : ∀ m, loop.Hosts m → loop.Hosts (loop.body.after m)) (hm : loop.Hosts m) :
    loop.seen log <+: items.map some := by
  obtain ⟨hrounds, hends⟩ := h
  obtain ⟨hseen, hm'⟩ := hrounds.seen_eq hbody hm
  rw [seen_append, hseen, List.map_append, List.prefix_append_right_inj]
  exact hends.seen_prefix hm'

/-- In the rounds of a loop, the body is evaluated for every item. -/
theorem Rounds.bodies_eq {m' : Machine} (h : loop.Rounds items m log m') :
    log.countP Evaluation.isBody = items.length := by
  induction h with
  | nil => rfl
  | cons _ _ _ _ ih => simp [List.countP_cons, Evaluation.isBody, ih]

/-- A loop that ends although nothing fails and every body lets it go on has no items left. -/
theorem Ends.eq_nil (h : loop.Ends total items m log outcome)
    (hfails : ∀ evaluation ∈ log, evaluation.fails = false)
    (hcompletes : ∀ evaluation ∈ log, evaluation.isBody = true → evaluation.completes = true) :
    items = [] ∧ log = [] := by
  cases h with
  | finished => exact ⟨rfl, rfl⟩
  | refused | failed => simp [Evaluation.fails] at hfails
  | stopped rest _ _ hflow | escaped rest _ _ hflow =>
      simp [Evaluation.isBody, Evaluation.completes, hflow] at hcompletes

/-- If nothing in a loop fails and every body lets the loop go on, the body is evaluated for every
item. -/
theorem Proceeds.bodies_eq (h : Proceeds loop total items m log outcome)
    (hfails : ∀ evaluation ∈ log, evaluation.fails = false)
    (hcompletes : ∀ evaluation ∈ log, evaluation.isBody = true → evaluation.completes = true) :
    log.countP Evaluation.isBody = items.length := by
  obtain ⟨hrounds, hends⟩ := h
  obtain ⟨rfl, rfl⟩ := hends.eq_nil
    (fun evaluation hmem => hfails evaluation (List.mem_append_right _ hmem))
    (fun evaluation hmem => hcompletes evaluation (List.mem_append_right _ hmem))
  rw [List.append_nil, List.append_nil, hrounds.bodies_eq]

/-- What a loop yields, unless it fails. -/
theorem Proceeds.value_cases (h : Proceeds loop total items m log outcome) {value : Value}
    {m' : Machine} (houtcome : outcome = .ok value m') :
    value = total ∨ ∃ signal : Control, 0 < signal.carry ∧ value = .control signal := by
  obtain ⟨-, hends⟩ := h
  cases hends with
  | finished | stopped => exact .inl (EStateM.Result.ok.inj houtcome).1.symm
  | refused | failed => cases houtcome
  | escaped rest _ _ hflow =>
      exact .inr ⟨_, (Flow.eq_control_of_escape hflow).2, (EStateM.Result.ok.inj houtcome).1.symm⟩

/-- The values that the evaluations of the body see are the first of the items in their order,
whether there are items or not. -/
theorem Runs.seen_prefix (h : Runs loop items m log outcome)
    (hbody : ∀ m, loop.Hosts m → loop.Hosts (loop.body.after m)) (hm : loop.Hosts m) :
    loop.seen log <+: items.map some := by
  cases h with
  | nil => exact List.nil_prefix
  | cons h => exact h.seen_prefix hbody hm

/-- If nothing fails and every body lets the loop go on, the body is evaluated for every item. -/
theorem Runs.bodies_eq (h : Runs loop items m log outcome)
    (hfails : ∀ evaluation ∈ log, evaluation.fails = false)
    (hcompletes : ∀ evaluation ∈ log, evaluation.isBody = true → evaluation.completes = true) :
    log.countP Evaluation.isBody = items.length := by
  cases h with
  | nil => rfl
  | cons h => exact h.bodies_eq hfails hcompletes

/-- A loop that does not fail yields the number of its items or passes a signal on. -/
theorem Runs.value_cases (h : Runs loop items m log outcome) {value : Value} {m' : Machine}
    (houtcome : outcome = .ok value m') :
    value = .number (.ofNat items.length) ∨
      ∃ signal : Control, 0 < signal.carry ∧ value = .control signal := by
  cases h with
  | nil => exact .inl (EStateM.Result.ok.inj houtcome).1.symm
  | cons h => exact h.value_cases houtcome

end

end ItemLoop

/-- What a loop over a list with the given elements binds its name to in turn. -/
def Walk.snapshot (elements : List Value) : Walk → List Value
  | .positions => (List.range elements.length).map fun i => .number (.ofNat i)
  | .elements => elements

namespace Walk

theorem items?_list (kind : Walk) (id : ListId) (heap : Heap) :
    kind.items? (.list id) heap = some (kind.snapshot (heap.items id)) := by
  cases kind <;> rfl

theorem length_snapshot (kind : Walk) (elements : List Value) :
    (kind.snapshot elements).length = elements.length := by
  cases kind <;> simp [snapshot]

/-- A loop binds its name to positions in their order, or to elements in theirs. -/
theorem snapshot_eq_some {kind : Walk} {elements : List Value} {i : Nat} {item : Value}
    (h : (kind.snapshot elements)[i]? = some item) :
    ∃ element, elements[i]? = some element ∧
      (kind = .positions → item = .number (.ofNat i)) ∧ (kind = .elements → item = element) := by
  have hi : i < elements.length := by
    rw [← kind.length_snapshot elements]
    exact (List.getElem?_eq_some_iff.1 h).1
  refine ⟨elements[i], List.getElem?_eq_getElem hi, ?_, ?_⟩
  · rintro rfl
    simpa [snapshot, hi] using h.symm
  · rintro rfl
    simpa [snapshot, hi] using h.symm

end Walk

/-- The loop that a loop over items with this body is. -/
def Expr.itemLoop (ctx : Context) (name : String) (body : Expr) : ItemLoop :=
  ⟨ctx.scope, name, body.span, body.eval ctx⟩

/-- A loop over a list runs through what the list holds when the loop begins. -/
theorem Expr.eval_forEach_list {ctx : Context} {enumerable : Expr} {m m₀ : Machine} {id : ListId}
    (hvalue : enumerable.eval ctx m = .ok (.list id) m₀) (span : Span) (kind : Walk)
    (name : String) (body : Expr) :
    (Expr.forEach span kind name enumerable body).eval ctx m =
      (body.itemLoop ctx name).run (kind.snapshot (m₀.heap.items id)) m₀ := by
  rw [Expr.eval, Eval.run_bind_ok hvalue, Eval.walkValue_of_items (kind.items?_list id m₀.heap)]
  rfl

/-- Evaluating leaves a loop where it is. -/
theorem ItemLoop.Hosts.eval {loop : ItemLoop} {m : Machine} (h : loop.Hosts m) {ctx : Context}
    {free : Nat} (hcall : ctx.call = Closure.call ctx.config free) (e : Expr) :
    loop.Hosts ((e.eval ctx).after m) := by
  obtain ⟨config, call, scope⟩ := ctx
  obtain rfl : call = Closure.call config free := hcall
  exact h.changes ((Eval.congruence_evolving config free scope).eval e m).scopes

/-- A loop over a list walks a snapshot of it. However the loop ends, its body is evaluated at most
once for every element that the list had when the loop began. The evaluations begin with the name
bound to the positions of these elements in their order, or to the elements themselves, whatever
earlier evaluations of the body did to the list or to the name. If all bodies let the loop go on and
nothing fails, there is one evaluation for every element. Unless the loop fails or passes a signal
on, it yields their number. -/
theorem Expr.forEach_snapshot (ctx : Context) (free : Nat)
    (hcall : ctx.call = Closure.call ctx.config free) (span : Span) (kind : Walk) (name : String)
    (enumerable body : Expr) {m m₀ : Machine} {id : ListId} (hm : m.scopes.Reachable)
    (hscope : ctx.scope < m.scopes.scopes.size)
    (hvalue : enumerable.eval ctx m = .ok (.list id) m₀) :
    let elements := m₀.heap.items id
    let loop := body.itemLoop ctx name
    let result := (Expr.forEach span kind name enumerable body).eval ctx m
    (∃ log, loop.Runs (kind.snapshot elements) m₀ log result) ∧
    ∀ log outcome, loop.Runs (kind.snapshot elements) m₀ log outcome →
      outcome = result ∧
      log.countP Evaluation.isBody ≤ elements.length ∧
      (∀ (i : Nat) (evaluation : Evaluation),
        (log.filter Evaluation.isBody)[i]? = some evaluation →
        ∃ item element : Value, evaluation.before.scopes.lookup? ctx.scope name = some item ∧
          elements[i]? = some element ∧
          (kind = .positions → item = .number (.ofNat i)) ∧ (kind = .elements → item = element)) ∧
      ((∀ evaluation ∈ log, evaluation.fails = false) →
        (∀ evaluation ∈ log, evaluation.isBody = true → evaluation.completes = true) →
        log.countP Evaluation.isBody = elements.length) ∧
      ∀ value m', outcome = .ok value m' →
        value = .number (.ofNat elements.length) ∨
          ∃ signal : Control, 0 < signal.carry ∧ value = .control signal := by
  intro elements loop result
  have hresult : result = loop.run (kind.snapshot elements) m₀ :=
    eval_forEach_list hvalue span kind name body
  have hhosts : loop.Hosts m₀ := by
    have h : loop.Hosts m := ⟨hm.sound, hscope⟩
    have h₀ := h.eval hcall enumerable
    rwa [Eval.after, hvalue] at h₀
  have hlength := kind.length_snapshot elements
  rw [hresult]
  refine ⟨loop.exists_runs _ m₀, fun log outcome hruns => ⟨hruns.outcome_eq, ?_⟩⟩
  have hseen := hruns.seen_prefix (fun m h => h.eval hcall body) hhosts
  refine ⟨?_, ?_, ?_, ?_⟩
  · have hle := hseen.length_le
    rwa [ItemLoop.seen, List.length_map, List.length_map, hlength, ← List.countP_eq_length_filter]
      at hle
  · intro i evaluation hi
    have hlookup : (loop.seen log)[i]? =
        some (evaluation.before.scopes.lookup? ctx.scope name) := by
      rw [ItemLoop.seen, List.getElem?_map, hi]
      rfl
    obtain ⟨hlt, hget⟩ := List.getElem?_eq_some_iff.1 hlookup
    have hitem := List.prefix_iff_getElem?.1 hseen i hlt
    rw [hget, List.getElem?_map, Option.map_eq_some_iff] at hitem
    obtain ⟨item, hitem, hbound⟩ := hitem
    obtain ⟨element, helement, hkind⟩ := Walk.snapshot_eq_some hitem
    exact ⟨item, element, hbound.symm, helement, hkind⟩
  · intro hfails hcompletes
    rw [hruns.bodies_eq hfails hcompletes, hlength]
  · intro value m' houtcome
    rw [← hlength]
    exact hruns.value_cases houtcome

/-- The body of a loop over two elements takes them out of the list: it is evaluated for the second
one although the list has become shorter, and the list is empty afterwards. -/
theorem Expr.forEach_snapshot_popping :
    let session := Session.start {}
    let enumerable : Expr := .assign ⟨9, 17⟩ (.identifier ⟨9, 1⟩ "x")
      (.list ⟨13, 13⟩ [.boolean ⟨14, 4⟩ true, .boolean ⟨20, 5⟩ false]) (.number ⟨26, 0⟩ (-1))
      ⟨false, false⟩
    let body : Expr := .pop ⟨28, 5⟩ (.identifier ⟨32, 1⟩ "x") (.number ⟨28, 1⟩ 0)
    let walk := (Expr.forEach ⟨0, 33⟩ .elements "i" enumerable body).eval session.context
    ∃ m₀ log, session.machine.scopes.Reachable ∧
      session.scope < session.machine.scopes.scopes.size ∧
      enumerable.eval session.context session.machine = .ok (.list 0) m₀ ∧
      (body.itemLoop session.context "i").Runs [.boolean true, .boolean false] m₀ log
        (walk session.machine) ∧
      log.countP Evaluation.isBody ≤ 2 ∧ (walk.after session.machine).heap.items 0 = [] := by
  intro session enumerable body walk
  have hm : session.machine.scopes.Reachable := (Session.Reachable.start {}).scopes
  have hscope : session.scope < session.machine.scopes.scopes.size := by decide
  obtain ⟨m₀, hvalue, hitems⟩ : ∃ m₀,
      enumerable.eval session.context session.machine = .ok (.list 0) m₀ ∧
        m₀.heap.items 0 = [.boolean true, .boolean false] :=
    ⟨_, rfl, rfl⟩
  obtain ⟨⟨log, hlog⟩, hruns⟩ := forEach_snapshot session.context _ rfl ⟨0, 33⟩ .elements "i"
    enumerable body hm hscope hvalue
  obtain ⟨-, hbodies, -⟩ := hruns log _ hlog
  rw [hitems] at hlog hbodies
  have hempty : ((walk.after session.machine).heap.items 0).length = 0 := by decide +kernel
  exact ⟨m₀, log, hm, hscope, hvalue, hlog, hbodies, List.eq_nil_of_length_eq_zero hempty⟩

end ListScript
