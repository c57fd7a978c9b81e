import ListScript.Proofs.Eval.Evolution
import ListScript.Proofs.Eval.Signals
import ListScript.Proofs.Lists.Renaming
import ListScript.Proofs.Scope.Renaming

/-!
# Evaluation under other identities of lists

No script can tell the identity of a list: if two machines differ in the identities of their lists
alone, then evaluations on them come to the same error, or to the same value under the other
identities, and leave machines that again differ in nothing else. `Eval.Mirrors` says so of two
actions. It is proved of everything that evaluations are made up of, and then, by recursion on
expressions and on how deeply calls may be nested, of every expression: `Expr.mirrors_eval`.
-/

namespace ListScript

/-- The second machine is the first under other identities of lists. -/
structure Machine.Renamed (f : ListId ↪ ListId) (cap : Nat) (m m' : Machine) : Prop where
  heap : Heap.Renamed f cap m.heap m'.heap
  scopes : m'.scopes = m.scopes.rename f
  output : m'.output = m.output
  depth : m'.depth = m.depth
  readings : m'.readings = m.readings

/-- The place with other identities of lists. -/
def Place.rename (f : ListId ↪ ListId) : Place → Place
  | .named name => .named name
  | .element target index => .element (target.rename f) (index.rename f)

/-- Where evaluation goes after a value does not depend on identities. -/
theorem Flow.ofValue_rename (f : ListId ↪ ListId) (value : Value) :
    Flow.ofValue (value.rename f) = Flow.ofValue value := by
  cases value <;> rfl

/-- What a block yields for a signal is no list. -/
theorem Control.leaveBlock_rename (f : ListId ↪ ListId) (signal : Control) :
    signal.leaveBlock.rename f = signal.leaveBlock := by
  unfold leaveBlock
  split
  · rfl
  · cases signal.kind <;> rfl

/-- A loop binds its name to the same items. -/
theorem Heap.Renamed.walkItems {f : ListId ↪ ListId} {cap : Nat} {heap heap' : Heap}
    (h : Heap.Renamed f cap heap heap') (kind : Walk) (value : Value) :
    kind.items? (value.rename f) heap' =
      (kind.items? value heap).map (List.map (Value.rename f)) := by
  cases kind with
  | elements => exact h.elements? value
  | positions =>
      simp only [Walk.items?, Value.positions?, h.length?]
      cases value.length? heap with
      | none => rfl
      | some n => simp [Value.rename]

namespace Eval

/-- What the first action does, the second does under other identities of lists. -/
def Mirrors (f : ListId ↪ ListId) (cap : Nat) {α : Type} (act : α → α) (x y : Eval α) : Prop :=
  ListScript.Mirrors (fun m : Machine => m.heap.size) cap (Machine.Renamed f cap) act x y

variable {f : ListId ↪ ListId} {cap : Nat} {α : Type}

/-! ## Actions -/

/-- Failing mirrors failing in the same way. -/
theorem mirrors_fail {act : α → α} (fault : Fault) (span : Span) :
    Mirrors f cap act (fail fault span) (fail fault span) :=
  .throw _

/-- A result that does not depend on the machine mirrors the renamed one. -/
theorem mirrors_ofExcept {act : α → α} (span : Span) (result : Except Fault α) :
    Mirrors f cap act (ofExcept span result) (ofExcept span (result.map act)) := by
  cases result with
  | ok a => exact .pure a
  | error fault => exact mirrors_fail fault span

/-- A result in which no list occurs mirrors itself. -/
theorem mirrors_ofExcept_same (span : Span) (result : Except Fault α) :
    Mirrors f cap id (ofExcept span result) (ofExcept span result) := by
  have hmap : Mirrors f cap id _ _ := mirrors_ofExcept span result
  rwa [Except.map_id] at hmap

/-- Settling a value mirrors settling the renamed one. -/
theorem mirrors_settle (span : Span) (value : Value) :
    Mirrors f cap (Value.rename f) (settle span value) (settle span (value.rename f)) := by
  rw [settle, settle, Value.settle_rename]
  exact mirrors_ofExcept span value.settle

/-- Operations that mirror each other on the heap do so on the machine. -/
theorem mirrors_onHeap {act : α → α} {x y : HeapM α} (h : HeapM.Mirrors f cap act x y)
    (span : Span) : Mirrors f cap act (onHeap span x) (onHeap span y) where
  grows m := by
    have hgrows := h.grows m.heap
    simp only [onHeap]
    cases hrun : x m.heap with
    | ok a heap =>
        rw [hrun] at hgrows
        exact hgrows
    | error fault heap =>
        rw [hrun] at hgrows
        exact hgrows
  agrees {m m'} hm hcap := by
    simp only [onHeap] at hcap ⊢
    cases hrun : x m.heap with
    | ok a heap =>
        rw [hrun] at hcap
        obtain ⟨heap', hrun', hheap⟩ := h.exists_ok hm.heap hrun hcap
        rw [hrun']
        exact .ok ⟨hheap, hm.scopes, hm.output, hm.depth, hm.readings⟩
    | error fault heap =>
        rw [hrun] at hcap
        obtain ⟨heap', hrun', hheap⟩ := h.exists_error hm.heap hrun hcap
        rw [hrun']
        exact .error ⟨hheap, hm.scopes, hm.output, hm.depth, hm.readings⟩

/-- Changes of the scopes that agree up to identities mirror each other. -/
theorem mirrors_changeScopes {change change' : Scopes → Scopes}
    (h : ∀ s : Scopes, change' (s.rename f) = (change s).rename f) :
    Mirrors f cap id (changeScopes change) (changeScopes change') where
  grows _ := Nat.le_refl _
  agrees {m m'} hm _ := by
    refine .ok ⟨hm.heap, ?_, hm.output, hm.depth, hm.readings⟩
    show change' m'.scopes = _
    rw [hm.scopes, h]

/-- Looking up a name mirrors itself. -/
theorem mirrors_lookup (scope : ScopeId) (name : String) (span : Span) :
    Mirrors f cap (Value.rename f) (lookup scope name span) (lookup scope name span) where
  grows m := by
    unfold lookup
    cases m.scopes.lookup? scope name <;> exact Nat.le_refl _
  agrees {m m'} hm _ := by
    unfold lookup
    rw [hm.scopes, Scopes.lookup?_rename]
    cases m.scopes.lookup? scope name with
    | some value => exact .ok hm
    | none => exact .error hm

/-- Binding a name mirrors binding it to the renamed value. -/
theorem mirrors_assign (scope : ScopeId) (name : String) (value : Value) (mode : BindingMode)
    (limit : Option Nat) (span : Span) :
    Mirrors f cap (Value.rename f) (assign scope name value mode limit span)
      (assign scope name (value.rename f) mode limit span) where
  grows m := by
    unfold assign
    dsimp only
    cases m.scopes.assign scope name value mode limit <;> exact Nat.le_refl _
  agrees {m m'} hm _ := by
    simp only [assign]
    rw [hm.scopes, Scopes.assign_rename]
    cases m.scopes.assign scope name value mode limit with
    | ok scopes => exact .ok ⟨hm.heap, rfl, hm.output, hm.depth, hm.readings⟩
    | error fault => exact .error ⟨hm.heap, rfl, hm.output, hm.depth, hm.readings⟩

/-- A call of the host yields the same, writes the same line and reads the clock as often. -/
theorem mirrors_callNative (now : Clock) (native : Native) (arguments : List Value) (span : Span) :
    Mirrors f cap (Value.rename f) (callNative now native arguments span)
      (callNative now native (arguments.map (Value.rename f)) span) := by
  have hperform : Mirrors f cap (Value.rename f) (callNative.perform now native arguments span)
      (callNative.perform now native (arguments.map (Value.rename f)) span) := by
    refine ⟨fun m => ?_, fun {m m'} hm _ => ?_⟩
    · unfold callNative.perform
      cases native.call (fun i => now (m.readings + i)) m.heap arguments <;> exact Nat.le_refl _
    · simp only [callNative.perform]
      rw [hm.readings, hm.heap.callNative, hm.output]
      cases native.call (fun i => now (m.readings + i)) m.heap arguments with
      | error fault => exact .error hm
      | ok result => exact .ok ⟨hm.heap, hm.scopes, rfl, hm.depth, rfl⟩
  unfold callNative
  rw [List.length_map]
  cases native.arity? with
  | none => exact hperform
  | some expected =>
      by_cases hcount : expected = arguments.length
      · simp only [if_pos hcount]
        exact hperform
      · simp only [if_neg hcount]
        exact mirrors_fail _ span

/-- Cleaning up in any case handles both outcomes alike. -/
theorem afterwards_eq_handle (x : Eval α) (cleanup : Machine → Machine) :
    afterwards x cleanup =
      handle x (fun a m => .ok a (cleanup m)) (fun e m => .error e (cleanup m)) := by
  funext m
  simp only [afterwards, handle]
  cases x m <;> rfl

/-- Cleaning up after a failure handles that outcome only. -/
theorem onFailure_eq_handle (x : Eval α) (cleanup : Machine → Machine) :
    onFailure x cleanup = handle x pure (fun e m => .error e (cleanup m)) := by
  funext m
  simp only [onFailure, handle]
  cases x m <;> rfl

/-- A default handles a failure by yielding a value. -/
theorem orElse_eq_handle (x : Eval Value) (default : Value) :
    orElse x default = handle x pure (fun _ => pure default) := by
  funext m
  simp only [orElse, handle]
  cases x m <;> rfl

/-- What is done after an action may be done under other identities. -/
theorem mirrors_afterwards {act : α → α} {x y : Eval α} (h : Mirrors f cap act x y)
    {cleanup : Machine → Machine} (hheap : ∀ m, (cleanup m).heap = m.heap)
    (hcleanup : ∀ m m', m.Renamed f cap m' → (cleanup m).Renamed f cap (cleanup m')) :
    Mirrors f cap act (afterwards x cleanup) (afterwards y cleanup) := by
  have hsize (m : Machine) : m.heap.size ≤ (cleanup m).heap.size :=
    Nat.le_of_eq (congrArg Heap.size (hheap m).symm)
  rw [afterwards_eq_handle, afterwards_eq_handle]
  exact h.handle (fun a => .ok_change hsize hcleanup a) fun e => .error_change hsize hcleanup e

/-- A name may be released after a failure. -/
theorem mirrors_onFailure {act : α → α} {x y : Eval α} (h : Mirrors f cap act x y)
    (scope : ScopeId) (name : String) :
    Mirrors f cap act
      (onFailure x fun machine => { machine with scopes := machine.scopes.release scope name })
      (onFailure y fun machine =>
        { machine with scopes := machine.scopes.release scope name }) := by
  have hrelease (m m' : Machine) (hm : m.Renamed f cap m') :
      Machine.Renamed f cap { m with scopes := m.scopes.release scope name }
        { m' with scopes := m'.scopes.release scope name } := by
    refine ⟨hm.heap, ?_, hm.output, hm.depth, hm.readings⟩
    rw [hm.scopes, Scopes.release_rename]
  rw [onFailure_eq_handle, onFailure_eq_handle]
  exact h.handle .pure fun e => .error_change (fun m => Nat.le_refl m.heap.size) hrelease e

/-- A default that is no list may stand for a failure. -/
theorem mirrors_orElse {x y : Eval Value} (h : Mirrors f cap (Value.rename f) x y) :
    Mirrors f cap (Value.rename f) (orElse x .null) (orElse y .null) := by
  rw [orElse_eq_handle, orElse_eq_handle]
  exact h.handle .pure fun _ => .pure Value.null

/-- A limit is the same for a renamed value. -/
theorem mirrors_limit (span : Span) (value : Value) :
    Mirrors f cap id (limit span value) (limit span (value.rename f)) := by
  cases value with
  | number x => exact .pure _
  | _ => exact mirrors_fail _ span

/-! ## Places -/

/-- Reading a place mirrors reading the renamed one. -/
theorem mirrors_read (scope : ScopeId) (span : Span) (place : Place) :
    Mirrors f cap (Value.rename f) (place.read scope span)
      ((place.rename f).read scope span) := by
  cases place with
  | named name => exact mirrors_lookup scope name span
  | element target index => exact mirrors_onHeap (HeapM.mirrors_readIndex target index) span

/-- Writing to a place mirrors writing the renamed value to the renamed one. -/
theorem mirrors_write (scope : ScopeId) (span : Span) (value : Value) (mode : BindingMode)
    (limit : Option Nat) (place : Place) :
    Mirrors f cap (Value.rename f) (place.write scope span value mode limit)
      ((place.rename f).write scope span (value.rename f) mode limit) := by
  cases place with
  | named name => exact mirrors_assign scope name value mode limit span
  | element target index =>
      exact mirrors_onHeap (HeapM.mirrors_writeIndex target index value) span

/-- A step at a place mirrors the step at the renamed one. -/
theorem mirrors_update (scope : ScopeId) (span : Span) (step : Step) (place : Place) :
    Mirrors f cap (Prod.map (Value.rename f) (Value.rename f)) (place.update scope span step)
      ((place.rename f).update scope span step) := by
  refine (mirrors_read scope span place).bind fun old => ?_
  rw [Step.apply_rename]
  refine (mirrors_ofExcept span (step.apply old)).bind fun new => ?_
  exact (mirrors_write scope span new _ _ place).bind fun _ => .pure (old, new)

/-! ## Loops -/

/-- Conditions mirror each other if their values do. -/
theorem mirrors_condition (construct : Construct) (span : Span) {x y : Eval Value}
    (h : Mirrors f cap (Value.rename f) x y) :
    Mirrors f cap id (condition construct span x) (condition construct span y) := by
  refine h.bind fun value => ?_
  cases value with
  | boolean b => exact .pure b
  | _ => exact mirrors_fail _ span

/-- Loops mirror each other if their parts do, round by round. -/
theorem mirrors_loop {holds holds' : Eval Bool} {body body' : Eval Value} {step step' : Eval Unit}
    (hholds : Mirrors f cap id holds holds')
    (hbody : Mirrors f cap (Value.rename f) body body') (hstep : Mirrors f cap id step step')
    (limit : Nat) (span : Span) (left rounds : Nat) :
    Mirrors f cap (Value.rename f) (loop limit span holds body step left rounds)
      (loop limit span holds' body' step' left rounds) := by
  induction left generalizing rounds with
  | zero =>
      unfold loop
      refine hholds.bind fun b => ?_
      cases b with
      | true => exact mirrors_fail _ span
      | false => exact .pure _
  | succ left ih =>
      unfold loop
      refine hholds.bind fun b => ?_
      cases b with
      | false => exact .pure _
      | true =>
          refine hbody.bind fun value => ?_
          rw [Flow.ofValue_rename]
          cases Flow.ofValue value with
          | next => exact hstep.bind fun _ => ih (rounds + 1)
          | stop => exact .pure _
          | escape signal => exact .pure _

/-- Loops over items mirror each other if their bodies do, item by item. -/
theorem mirrors_forEach {body body' : Eval Value}
    (hbody : Mirrors f cap (Value.rename f) body body') (scope : ScopeId) (name : String)
    (span : Span) (total : Value) (items : List Value) :
    Mirrors f cap (Value.rename f) (forEach scope name span body total items)
      (forEach scope name span body' (total.rename f) (items.map (Value.rename f))) := by
  have hend (value : Value) : Mirrors f cap (Value.rename f)
      (do changeScopes (·.release scope name); return value)
      (do changeScopes (·.release scope name); return value.rename f) :=
    (mirrors_changeScopes fun s => s.release_rename f scope name).bind fun _ => .pure value
  induction items with
  | nil => exact hend total
  | cons item rest ih =>
      refine (mirrors_assign scope name item _ _ span).bind fun _ => ?_
      refine (mirrors_onFailure hbody scope name).bind fun value => ?_
      rw [Flow.ofValue_rename]
      cases Flow.ofValue value with
      | next => exact ih
      | stop => exact hend total
      | escape signal => exact hend (.control signal)

/-- Walks over renamed items mirror each other if their bodies do. -/
theorem mirrors_walk {body body' : Eval Value}
    (hbody : Mirrors f cap (Value.rename f) body body') (scope : ScopeId) (name : String)
    (span : Span) (items : List Value) :
    Mirrors f cap (Value.rename f) (walk scope name span body items)
      (walk scope name span body' (items.map (Value.rename f))) := by
  rw [walk, walk, List.isEmpty_map, List.length_map]
  split
  · exact .pure _
  · exact mirrors_forEach hbody scope name span _ items

/-- Walks over renamed values mirror each other if their bodies do. -/
theorem mirrors_walkValue (ctx : Context) (kind : Walk) (name : String) (span bodySpan : Span)
    {body body' : Eval Value} (hbody : Mirrors f cap (Value.rename f) body body') (value : Value) :
    Mirrors f cap (Value.rename f) (walkValue ctx kind name span bodySpan body value)
      (walkValue ctx kind name span bodySpan body' (value.rename f)) := by
  cases value with
  | list list =>
      have hitems (heap : Heap) : ∃ items, kind.items? (.list list) heap = some items := by
        cases kind <;> exact ⟨_, rfl⟩
      refine ⟨fun m => ?_, fun {m m'} hm hcap => ?_⟩
      · obtain ⟨items, hitems⟩ := hitems m.heap
        rw [walkValue_of_items hitems]
        exact (mirrors_walk hbody ctx.scope name bodySpan items).grows m
      · obtain ⟨items, hitems⟩ := hitems m.heap
        have hitems' := hm.heap.walkItems kind (.list list)
        rw [hitems, Option.map_some] at hitems'
        rw [walkValue_of_items hitems] at hcap ⊢
        rw [walkValue_of_items hitems']
        exact (mirrors_walk hbody ctx.scope name bodySpan items).agrees hm hcap
  | _ => cases kind <;> exact mirrors_fail _ span

end Eval

/-! ## Expressions -/

/-- Calls do the same under other identities of lists. -/
def Caller.Mirrors (f : ListId ↪ ListId) (cap : Nat) (call : Caller) : Prop :=
  ∀ closure arguments span, Eval.Mirrors f cap (Value.rename f) (call closure arguments span)
    (call closure (arguments.map (Value.rename f)) span)

/-- Calls mirror each other if calls of functions do. -/
theorem Eval.mirrors_apply {f : ListId ↪ ListId} {cap : Nat} {ctx : Context}
    (hcall : ctx.call.Mirrors f cap) (callee : Value) (arguments : List Value) (span : Span) :
    Mirrors f cap (Value.rename f) (apply ctx callee arguments span)
      (apply ctx (callee.rename f) (arguments.map (Value.rename f)) span) := by
  cases callee with
  | function closure => exact hcall closure arguments span
  | native native => exact mirrors_callNative _ native arguments span
  | _ => exact mirrors_fail _ span

namespace Expr

open Eval

variable {f : ListId ↪ ListId} {cap : Nat} {ctx : Context}

mutual

/-- An expression does the same under other identities of lists. -/
theorem mirrors_eval (hcall : ctx.call.Mirrors f cap) (e : Expr) :
    Eval.Mirrors f cap (Value.rename f) (e.eval ctx) (e.eval ctx) := by
  cases e with
  | number | boolean | null | character | control | function =>
      simp only [Expr.eval]
      exact .pure _
  | string span text =>
      simp only [Expr.eval]
      exact mirrors_onHeap (HeapM.mirrors_newText text) span
  | identifier span name =>
      simp only [Expr.eval]
      exact mirrors_lookup ctx.scope name span
  | list span items =>
      simp only [Expr.eval]
      exact (mirrors_evalAll hcall items).bind fun values =>
        mirrors_onHeap (HeapM.mirrors_newList values) span
  | block span body =>
      simp only [Expr.eval]
      exact mirrors_evalBlock hcall false .nothing body
  | group span inner =>
      simp only [Expr.eval]
      exact mirrors_eval hcall inner
  | unary span operator operand =>
      simp only [Expr.eval]
      exact (mirrors_eval hcall operand).bind fun value =>
        mirrors_onHeap (HeapM.mirrors_unary operator value) span
  | update span step after operand =>
      simp only [Expr.eval]
      split
      · exact mirrors_fail _ _
      · refine (mirrors_evalPlace hcall operand).bind fun place => ?_
        refine (mirrors_update ctx.scope span step place).bind fun values => ?_
        cases after with
        | true => exact .pure values.1
        | false => exact .pure values.2
  | binary span operator lhs rhs =>
      simp only [Expr.eval]
      refine (mirrors_eval hcall lhs).bind fun left => (mirrors_eval hcall rhs).bind fun right => ?_
      exact mirrors_onHeap (HeapM.mirrors_binary operator left right) span
  | assign span target value limit mode =>
      simp only [Expr.eval]
      split
      · exact mirrors_fail _ _
      · refine (mirrors_eval hcall value).bind fun value => ?_
        refine (mirrors_settle _ value).bind fun value => ?_
        refine (mirrors_eval hcall limit).bind fun limit => ?_
        refine (mirrors_limit _ limit).bind fun limit => ?_
        exact (mirrors_evalPlace hcall target).bind fun place =>
          mirrors_write ctx.scope span value mode limit place
  | call span callee arguments =>
      simp only [Expr.eval]
      refine (mirrors_evalAll hcall arguments).bind fun values => ?_
      exact (mirrors_eval hcall callee).bind fun callee => mirrors_apply hcall callee values span
  | branch span condition success failure =>
      cases failure with
      | none =>
          simp only [Expr.eval]
          refine (mirrors_condition _ _ (mirrors_eval hcall condition)).bind fun holds => ?_
          cases holds with
          | true => exact mirrors_eval hcall success
          | false => exact .pure _
      | some failure =>
          simp only [Expr.eval]
          refine (mirrors_condition _ _ (mirrors_eval hcall condition)).bind fun holds => ?_
          cases holds with
          | true => exact mirrors_eval hcall success
          | false => exact mirrors_eval hcall failure
  | whileLoop span condition body =>
      simp only [Expr.eval]
      exact mirrors_loop (mirrors_condition _ _ (mirrors_eval hcall condition))
        (mirrors_eval hcall body) (.pure ()) _ _ _ _
  | forLoop span start condition step body =>
      simp only [Expr.eval]
      refine (mirrors_eval hcall start).bind fun _ => ?_
      refine mirrors_loop (mirrors_condition _ _ (mirrors_eval hcall condition))
        (mirrors_eval hcall body) ?_ _ _ _ _
      exact (mirrors_eval hcall step).bind fun _ => .pure ()
  | forEach span kind name enumerable body =>
      simp only [Expr.eval]
      exact (mirrors_eval hcall enumerable).bind fun value =>
        mirrors_walkValue ctx kind name _ _ (mirrors_eval hcall body) value
  | index span target position =>
      simp only [Expr.eval]
      refine (mirrors_eval hcall target).bind fun target => ?_
      rw [Value.isIndexable_rename, Value.kind_rename]
      split
      · exact mirrors_fail _ _
      · exact (mirrors_eval hcall position).bind fun index =>
          mirrors_onHeap (HeapM.mirrors_readIndex target index) span
  | method span receiver name arguments =>
      simp only [Expr.eval]
      refine (mirrors_eval hcall receiver).bind fun receiver => ?_
      rw [Method.find_rename]
      refine (mirrors_ofExcept_same span (Method.find receiver name)).bind fun method => ?_
      exact (mirrors_evalAll hcall arguments).bind fun values =>
        mirrors_onHeap (method.mirrors_call receiver values) span
  | range span first last step inclusive =>
      simp only [Expr.eval]
      refine (mirrors_eval hcall first).bind fun first => ?_
      refine (mirrors_eval hcall last).bind fun last => ?_
      exact (mirrors_eval hcall step).bind fun step =>
        mirrors_onHeap (HeapM.mirrors_range first last step inclusive) span
  | shift span source target =>
      simp only [Expr.eval]
      split
      · exact mirrors_fail _ _
      · refine (mirrors_evalPlace hcall target).bind fun place => ?_
        refine (mirrors_orElse (mirrors_read ctx.scope span place)).bind fun old => ?_
        refine (mirrors_eval hcall source).bind fun value => ?_
        refine (mirrors_settle _ value).bind fun value => ?_
        have hstore (value : Value) : Eval.Mirrors f cap (Value.rename f)
            (do let _ ← place.overwrite ctx.scope span value; return old)
            (do let _ ← (place.rename f).overwrite ctx.scope span (value.rename f)
                return old.rename f) :=
          (mirrors_write ctx.scope span value _ _ place).bind fun _ => .pure old
        split
        · exact (mirrors_onHeap (HeapM.mirrors_copy value) span).bind hstore
        · exact .bind (.pure value) hstore
  | pop span source position =>
      simp only [Expr.eval]
      refine (mirrors_eval hcall source).bind fun target => ?_
      rw [Value.isIndexable_rename]
      split
      · exact .pure _
      · exact (mirrors_eval hcall position).bind fun index =>
          mirrors_onHeap (HeapM.mirrors_pop target index) span
  | push span target position value =>
      simp only [Expr.eval]
      refine (mirrors_eval hcall target).bind fun target => ?_
      refine (mirrors_eval hcall position).bind fun index => ?_
      refine (mirrors_eval hcall value).bind fun value => ?_
      exact (mirrors_settle _ value).bind fun value =>
        mirrors_onHeap (HeapM.mirrors_push target index value) span

/-- The parts of a place are the same under other identities of lists. -/
theorem mirrors_evalPlace (hcall : ctx.call.Mirrors f cap) (e : Expr) :
    Eval.Mirrors f cap (Place.rename f) (e.evalPlace ctx) (e.evalPlace ctx) := by
  cases e with
  | identifier span name =>
      simp only [Expr.evalPlace]
      exact .pure (Place.named name)
  | index span target position =>
      simp only [Expr.evalPlace]
      refine (mirrors_eval hcall target).bind fun target => ?_
      exact (mirrors_eval hcall position).bind fun index => .pure (Place.element target index)
  | _ =>
      simp only [Expr.evalPlace]
      exact mirrors_fail _ _

/-- Values for storage are the same under other identities of lists. -/
theorem mirrors_evalAll (hcall : ctx.call.Mirrors f cap) (es : List Expr) :
    Eval.Mirrors f cap (List.map (Value.rename f)) (evalAll ctx es) (evalAll ctx es) := by
  cases es with
  | nil =>
      simp only [Expr.evalAll]
      exact .pure []
  | cons e rest =>
      simp only [Expr.evalAll]
      refine (mirrors_eval hcall e).bind fun value => ?_
      refine (mirrors_settle _ value).bind fun value => ?_
      exact (mirrors_evalAll hcall rest).bind fun values => .pure (value :: values)

/-- Expressions in sequence do the same under other identities of lists. -/
theorem mirrors_evalBlock (hcall : ctx.call.Mirrors f cap) (note : Bool) (last : Value)
    (es : List Expr) :
    Eval.Mirrors f cap (Value.rename f) (evalBlock ctx note last es)
      (evalBlock ctx note (last.rename f) es) := by
  cases es with
  | nil =>
      simp only [Expr.evalBlock]
      exact .pure last
  | cons e rest =>
      simp only [Expr.evalBlock]
      refine (mirrors_eval hcall e).bind fun value => ?_
      have hnote {x y : Eval Value} (h : Eval.Mirrors f cap (Value.rename f) x y) :
          Eval.Mirrors f cap (Value.rename f)
            (if note = true then do changeScopes (·.noteOutput ctx.scope value); x else x)
            (if note = true then do changeScopes (·.noteOutput ctx.scope (value.rename f)); y
              else y) := by
        split
        · exact (mirrors_changeScopes fun s => s.noteOutput_rename f ctx.scope value).bind
            fun _ => h
        · exact h
      cases value with
      | nothing => exact mirrors_evalBlock hcall note last rest
      | control signal =>
          have hleave : Eval.Mirrors f cap (Value.rename f) (pure signal.leaveBlock)
              (pure (signal.leaveBlock.rename f)) := .pure _
          rw [signal.leaveBlock_rename] at hleave
          exact hnote hleave
      | _ => exact hnote (mirrors_evalBlock hcall note _ rest)

end

end Expr

/-- A call does the same under other identities of lists. -/
theorem Closure.mirrors_call (f : ListId ↪ ListId) (cap : Nat) (config : Config) (free : Nat) :
    Caller.Mirrors f cap (call config free) := by
  induction free with
  | zero =>
      intro closure arguments span
      by_cases harity : arguments.length = closure.parameters.length
      · rw [call_zero harity, call_zero (by simpa using harity)]
        exact Eval.mirrors_fail _ span
      · rw [call_of_ne harity, call_of_ne (by simpa using harity), List.length_map]
        exact Eval.mirrors_fail _ span
  | succ free ih =>
      intro closure arguments span
      by_cases harity : arguments.length = closure.parameters.length
      · have hbody (frame : ScopeId) : Eval.Mirrors f cap (Value.rename f)
            (closure.evalBody config free frame >>= Eval.settle span)
            (closure.evalBody config free frame >>= Eval.settle span) := by
          refine Mirrors.bind ?_ (Eval.mirrors_settle span)
          refine Eval.mirrors_afterwards (Expr.mirrors_evalBlock ih false .nothing closure.body)
            (fun _ => rfl) fun m m' hm => ?_
          exact ⟨hm.heap, hm.scopes, hm.output, congrArg (· - 1) hm.depth, hm.readings⟩
        refine ⟨fun m => ?_, fun {m m'} hm hcap => ?_⟩
        · rw [call_succ harity]
          exact (hbody m.scopes.scopes.size).grows
            { m with scopes := (closure.openFrame arguments m.scopes).2, depth := m.depth + 1 }
        · rw [call_succ harity] at hcap ⊢
          rw [call_succ (by simpa using harity)]
          have hsize : m'.scopes.scopes.size = m.scopes.scopes.size := by
            simp [hm.scopes, Scopes.rename]
          rw [hsize]
          refine (hbody _).agrees ⟨hm.heap, ?_, hm.output, congrArg (· + 1) hm.depth,
            hm.readings⟩ hcap
          show (closure.openFrame _ m'.scopes).2 = _
          rw [hm.scopes, closure.openFrame_rename]
      · rw [call_of_ne harity, call_of_ne (by simpa using harity), List.length_map]
        exact Eval.mirrors_fail _ span

end ListScript
