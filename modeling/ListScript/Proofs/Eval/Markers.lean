import ListScript.Proofs.Eval.Storage
import ListScript.Proofs.Expr.Every

/-!
# Signals and nothing in storage

Control signals and the mark of nothing are values on their way, and whatever stores a value settles
it first, with one exception. A push does not settle its target, and a target that is no list
becomes the element of a new one. So signals stay out of storage as long as the targets of pushes
are expressions that yield none, and a push whose target does yield one stores it:
`Session.markers_stored_by_push`.
-/

namespace ListScript

/-- The value is a control signal or the mark of nothing. -/
def Value.isMarker : Value → Bool
  | .control _ | .nothing => true
  | _ => false

namespace Expr

mutual

/-- Wherever the expression is evaluated, it yields no signal and not nothing, as long as none is
stored. -/
def settled : Expr → Bool
  | .control .. | .branch _ _ _ none => false
  | .block _ body => !body.isEmpty && settledAll body
  | .group _ e | .unary _ .copy e | .whileLoop _ _ e | .forLoop _ _ _ _ e | .forEach _ _ _ _ e
  | .pop _ e _ => e.settled
  | .branch _ _ success (some failure) => success.settled && failure.settled
  | _ => true

/-- All the expressions are settled. -/
def settledAll : List Expr → Bool
  | [] => true
  | e :: rest => e.settled && settledAll rest

end

/-- If the expression is a push, its target is settled. -/
def pushesSettled : Expr → Bool
  | .push _ target _ _ => target.settled
  | _ => true

end Expr

/-- If the value is a function of the script, every push in it has a settled target. -/
def Value.Guarded : Value → Prop
  | .function closure => Expr.everyAll Expr.pushesSettled closure.body = true
  | _ => True

/-- The value is none that must not be stored, and calling it stores none. -/
structure Value.Kept (value : Value) : Prop where
  unmarked : value.isMarker = false
  guarded : value.Guarded

/-- What an expression may yield as long as only kept values are stored. -/
structure Expr.Yields (e : Expr) (value : Value) : Prop where
  guarded : value.Guarded
  unmarked : e.settled = true → value.isMarker = false

/-- What an expression yields may be yielded by one that is settled only if that is. -/
theorem Expr.Yields.mono {e e' : Expr} {value : Value} (h : e.Yields value)
    (hsettled : e'.settled = true → e.settled = true) : e'.Yields value :=
  ⟨h.guarded, fun he' => h.unmarked (hsettled he')⟩

namespace Value

/-- Plain data may be stored. -/
theorem plain_kept : Plain Kept where
  null := ⟨rfl, trivial⟩
  number _ := ⟨rfl, trivial⟩
  boolean _ := ⟨rfl, trivial⟩
  character _ := ⟨rfl, trivial⟩
  list _ := ⟨rfl, trivial⟩
  native _ := ⟨rfl, trivial⟩

/-- Every expression may yield a value that may be stored. -/
theorem Kept.yields {value : Value} (h : value.Kept) (e : Expr) : e.Yields value :=
  ⟨h.guarded, fun _ => h.unmarked⟩

/-- Every expression may yield plain data. -/
theorem plain_yields (e : Expr) : Plain e.Yields where
  null := plain_kept.null.yields e
  number x := (plain_kept.number x).yields e
  boolean b := (plain_kept.boolean b).yields e
  character c := (plain_kept.character c).yields e
  list id := (plain_kept.list id).yields e
  native native := (plain_kept.native native).yields e

/-- Settling makes a value ready to be stored. -/
theorem Guarded.kept_of_settle {value settled : Value} (h : value.Guarded)
    (hsettle : value.settle = .ok settled) : settled.Kept := by
  cases value with
  | control signal => cases hsettle
  | _ =>
      cases hsettle
      exact ⟨rfl, h⟩

/-- A block yields a settled value where a signal arrives at it. -/
theorem guarded_leaveBlock (signal : Control) : signal.leaveBlock.Guarded := by
  unfold Control.leaveBlock
  split
  · trivial
  · cases signal.kind <;> trivial

end Value

namespace Eval

/-- Settling makes a value ready to be stored, or fails. -/
theorem keeps_settle (span : Span) {value : Value} (h : value.Guarded) :
    Keeps (Machine.Stores Value.Kept) Value.Kept (settle span value) :=
  keeps_ofExcept span fun _ hsettle => h.kept_of_settle hsettle

end Eval

/-- Calls of guarded functions with arguments that may be stored store only what may be stored, and
yield it. -/
def Caller.Keeping (call : Caller) : Prop :=
  ∀ (closure : Closure) (arguments : List Value) (span : Span), (Value.function closure).Guarded →
    (∀ value ∈ arguments, value.Kept) →
      Keeps (Machine.Stores Value.Kept) Value.Kept (call closure arguments span)

/-- Calling a value stores only what may be stored. -/
theorem Eval.keeps_apply {ctx : Context} (hcall : ctx.call.Keeping) {callee : Value}
    (hcallee : callee.Guarded) {arguments : List Value}
    (harguments : ∀ value ∈ arguments, value.Kept) (span : Span) :
    Keeps (Machine.Stores Value.Kept) Value.Kept (apply ctx callee arguments span) := by
  unfold apply
  split
  · exact hcall _ arguments span hcallee harguments
  · exact keeps_callNative Value.plain_kept _ _ arguments span
  · exact .throw _

namespace Expr

open Eval

variable {ctx : Context}

mutual

/-- An expression in which every push has a settled target stores only what may be stored. -/
theorem keeps_eval (hcall : ctx.call.Keeping) (e : Expr) (he : e.every pushesSettled = true) :
    Keeps (Machine.Stores Value.Kept) e.Yields (e.eval ctx) := by
  have hkept {action : Eval Value} (h : Keeps (Machine.Stores Value.Kept) Value.Kept action) :
      Keeps (Machine.Stores Value.Kept) e.Yields action :=
    h.mono fun _ hvalue => hvalue.yields e
  cases e with
  | number | boolean | null | character =>
      simp only [Expr.eval]
      exact .pure ⟨trivial, fun _ => rfl⟩
  | control =>
      simp only [Expr.eval]
      refine .pure ⟨trivial, ?_⟩
      simp only [settled, Bool.false_eq_true, false_implies]
  | function span parameters body bodySpan =>
      simp only [Expr.eval]
      simp only [every, pushesSettled, Bool.true_and] at he
      exact .pure ⟨he, fun _ => rfl⟩
  | string span text =>
      simp only [Expr.eval]
      exact hkept (keeps_onHeap span (HeapM.keeps_newText Value.plain_kept Value.plain_kept text))
  | identifier span name =>
      simp only [Expr.eval]
      exact hkept (keeps_lookup ctx.scope name span)
  | list span items =>
      simp only [Expr.eval]
      simp only [every, pushesSettled, Bool.true_and] at he
      refine .bind (keeps_evalAll hcall items he) fun values hvalues => hkept ?_
      exact keeps_onHeap span (HeapM.keeps_newList Value.plain_kept hvalues)
  | block span body =>
      simp only [Expr.eval]
      simp only [every, pushesSettled, Bool.true_and] at he
      refine (keeps_evalBlock hcall false (by trivial) body he).mono fun value hvalue => ?_
      refine ⟨hvalue.1, fun hsettled => ?_⟩
      simp only [settled, Bool.and_eq_true, Bool.not_eq_true', List.isEmpty_eq_false_iff]
        at hsettled
      exact hvalue.2 hsettled.2 (.inl hsettled.1)
  | group span inner =>
      simp only [Expr.eval]
      simp only [every, pushesSettled, Bool.true_and] at he
      refine (keeps_eval hcall inner he).mono fun value hvalue => hvalue.mono ?_
      simp only [settled, imp_self]
  | unary span operator operand =>
      simp only [Expr.eval]
      simp only [every, pushesSettled, Bool.true_and] at he
      refine .bind (keeps_eval hcall operand he) fun value hvalue => ?_
      refine keeps_onHeap span (HeapM.keeps_unary (Value.plain_yields _) operator ?_)
      rintro rfl
      apply hvalue.mono
      simp only [settled, imp_self]
  | update span step after operand =>
      simp only [Expr.eval]
      simp only [every, pushesSettled, Bool.true_and] at he
      split
      · exact .throw _
      · refine .bind (keeps_evalPlace hcall operand he) fun place _ => ?_
        refine .bind (keeps_update Value.plain_kept ctx.scope span step place) fun values h => ?_
        cases after with
        | true => exact .pure (h.1.yields _)
        | false => exact .pure (h.2.yields _)
  | binary span operator lhs rhs =>
      simp only [Expr.eval]
      simp only [every, pushesSettled, Bool.true_and, Bool.and_eq_true] at he
      refine .bind (keeps_eval hcall lhs he.1) fun left _ => ?_
      refine .bind (keeps_eval hcall rhs he.2) fun right _ => hkept ?_
      exact keeps_onHeap span (HeapM.keeps_binary Value.plain_kept operator left right)
  | assign span target value limit mode =>
      simp only [Expr.eval]
      simp only [every, pushesSettled, Bool.true_and, Bool.and_eq_true] at he
      obtain ⟨⟨htarget, hvalue⟩, hlimit⟩ := he
      split
      · exact .throw _
      · refine .bind (keeps_eval hcall value hvalue) fun value hvalue => ?_
        refine .bind (keeps_settle _ hvalue.guarded) fun value hvalue => ?_
        refine .bind (keeps_eval hcall limit hlimit) fun limit _ => ?_
        refine .bind (keeps_limit _ limit) fun limit _ => ?_
        refine .bind (keeps_evalPlace hcall target htarget) fun place _ => hkept ?_
        exact keeps_write ctx.scope span hvalue mode limit place
  | call span callee arguments =>
      simp only [Expr.eval]
      simp only [every, pushesSettled, Bool.true_and, Bool.and_eq_true] at he
      refine .bind (keeps_evalAll hcall arguments he.2) fun values hvalues => ?_
      refine .bind (keeps_eval hcall callee he.1) fun callee hcallee => hkept ?_
      exact keeps_apply hcall hcallee.guarded hvalues span
  | branch span condition success failure =>
      cases failure with
      | none =>
          simp only [Expr.eval]
          simp only [every, pushesSettled, Bool.true_and, Bool.and_eq_true] at he
          refine .bind (keeps_condition _ _ (keeps_eval hcall condition he.1)) fun holds _ => ?_
          cases holds with
          | true =>
              refine (keeps_eval hcall success he.2).mono fun value hvalue => hvalue.mono ?_
              simp only [settled, Bool.false_eq_true, false_implies]
          | false =>
              refine .pure ⟨trivial, ?_⟩
              simp only [settled, Bool.false_eq_true, false_implies]
      | some failure =>
          simp only [Expr.eval]
          simp only [every, pushesSettled, Bool.true_and, Bool.and_eq_true] at he
          obtain ⟨⟨hcondition, hsuccess⟩, hfailure⟩ := he
          refine .bind (keeps_condition _ _ (keeps_eval hcall condition hcondition)) fun b _ => ?_
          cases b with
          | true =>
              refine (keeps_eval hcall success hsuccess).mono fun value hvalue => hvalue.mono ?_
              simp only [settled, Bool.and_eq_true]
              exact And.left
          | false =>
              refine (keeps_eval hcall failure hfailure).mono fun value hvalue => hvalue.mono ?_
              simp only [settled, Bool.and_eq_true]
              exact And.right
  | whileLoop span condition body =>
      simp only [Expr.eval]
      simp only [every, pushesSettled, Bool.true_and, Bool.and_eq_true] at he
      have hsettled : (whileLoop span condition body).settled = true → body.settled = true := by
        simp only [settled, imp_self]
      have hbody := (keeps_eval hcall body he.2).mono fun _ hvalue => hvalue.mono hsettled
      exact keeps_loop (Value.plain_yields _).number
        (keeps_condition _ _ (keeps_eval hcall condition he.1)) hbody (.pure trivial) _ _ _ _
  | forLoop span start condition step body =>
      simp only [Expr.eval]
      simp only [every, pushesSettled, Bool.true_and, Bool.and_eq_true] at he
      obtain ⟨⟨⟨hstart, hcondition⟩, hstep⟩, hbody⟩ := he
      have hsettled :
          (forLoop span start condition step body).settled = true → body.settled = true := by
        simp only [settled, imp_self]
      have hbody := (keeps_eval hcall body hbody).mono fun _ hvalue => hvalue.mono hsettled
      refine .bind (keeps_eval hcall start hstart) fun _ _ => ?_
      exact keeps_loop (Value.plain_yields _).number
        (keeps_condition _ _ (keeps_eval hcall condition hcondition)) hbody
        (.bind (keeps_eval hcall step hstep) fun _ _ => .pure trivial) _ _ _ _
  | forEach span kind name enumerable body =>
      simp only [Expr.eval]
      simp only [every, pushesSettled, Bool.true_and, Bool.and_eq_true] at he
      have hsettled :
          (forEach span kind name enumerable body).settled = true → body.settled = true := by
        simp only [settled, imp_self]
      have hbody := (keeps_eval hcall body he.2).mono fun _ hvalue => hvalue.mono hsettled
      refine .bind (keeps_eval hcall enumerable he.1) fun value _ => ?_
      exact keeps_walkValue Value.plain_kept (Value.plain_yields _).number hbody ctx kind name _ _
        value
  | index span target position =>
      simp only [Expr.eval]
      simp only [every, pushesSettled, Bool.true_and, Bool.and_eq_true] at he
      refine .bind (keeps_eval hcall target he.1) fun target _ => ?_
      split
      · exact .throw _
      · refine .bind (keeps_eval hcall position he.2) fun index _ => hkept ?_
        exact keeps_onHeap span (HeapM.keeps_readIndex Value.plain_kept target index)
  | method span receiver name arguments =>
      simp only [Expr.eval]
      simp only [every, pushesSettled, Bool.true_and, Bool.and_eq_true] at he
      refine .bind (keeps_eval hcall receiver he.1) fun receiver _ => ?_
      refine .bind (keeps_ofExcept span fun _ _ => trivial) fun method _ => ?_
      refine .bind (keeps_evalAll hcall arguments he.2) fun values hvalues => hkept ?_
      exact keeps_onHeap span (Method.keeps_call Value.plain_kept method receiver hvalues)
  | range span first last step inclusive =>
      simp only [Expr.eval]
      simp only [every, pushesSettled, Bool.true_and, Bool.and_eq_true] at he
      obtain ⟨⟨hfirst, hlast⟩, hstep⟩ := he
      refine .bind (keeps_eval hcall first hfirst) fun first _ => ?_
      refine .bind (keeps_eval hcall last hlast) fun last _ => ?_
      refine .bind (keeps_eval hcall step hstep) fun step _ => hkept ?_
      exact keeps_onHeap span (HeapM.keeps_range Value.plain_kept first last step inclusive)
  | shift span source target =>
      simp only [Expr.eval]
      simp only [every, pushesSettled, Bool.true_and, Bool.and_eq_true] at he
      split
      · exact .throw _
      · refine .bind (keeps_evalPlace hcall target he.2) fun place _ => ?_
        refine .bind (keeps_peek Value.plain_kept ctx.scope span place) fun old hold => ?_
        refine .bind (keeps_eval hcall source he.1) fun value hvalue => ?_
        refine .bind (keeps_settle _ hvalue.guarded) fun value hvalue => ?_
        have hstore (value : Value) (hvalue : value.Kept) :=
          Keeps.bind (keeps_write ctx.scope span hvalue ⟨false, false⟩ none place)
            fun _ _ => .pure (hold.yields (.shift span source target))
        split
        · exact .bind (keeps_onHeap span (HeapM.keeps_copy Value.plain_kept hvalue)) hstore
        · exact .bind (.pure hvalue) hstore
  | pop span source position =>
      simp only [Expr.eval]
      simp only [every, pushesSettled, Bool.true_and, Bool.and_eq_true] at he
      refine .bind (keeps_eval hcall source he.1) fun target htarget => ?_
      have hyields : (pop span source position).Yields target := by
        apply htarget.mono
        simp only [settled, imp_self]
      split
      · exact .pure hyields
      · refine .bind (keeps_eval hcall position he.2) fun index _ => ?_
        exact keeps_onHeap span
          (HeapM.keeps_pop Value.plain_kept (fun _ hvalue => hvalue.yields _) hyields index)
  | push span target position value =>
      simp only [Expr.eval]
      simp only [every, pushesSettled, Bool.and_eq_true] at he
      obtain ⟨hsettled, ⟨htarget, hposition⟩, hvalue⟩ := he
      refine .bind (keeps_eval hcall target htarget) fun target htarget => ?_
      refine .bind (keeps_eval hcall position hposition) fun index _ => ?_
      refine .bind (keeps_eval hcall value hvalue) fun value hvalue => ?_
      refine .bind (keeps_settle _ hvalue.guarded) fun value hvalue => hkept ?_
      -- This is the one place where a value comes to be stored without having been settled.
      have hkeep : target.Kept := ⟨htarget.unmarked hsettled, htarget.guarded⟩
      exact keeps_onHeap span (HeapM.keeps_push Value.plain_kept hkeep index hvalue)

/-- A place stores nothing. -/
theorem keeps_evalPlace (hcall : ctx.call.Keeping) (e : Expr)
    (he : e.every pushesSettled = true) :
    Keeps (Machine.Stores Value.Kept) (fun _ => True) (e.evalPlace ctx) := by
  cases e with
  | identifier span name =>
      simp only [Expr.evalPlace]
      exact .pure trivial
  | index span target position =>
      simp only [Expr.evalPlace]
      simp only [every, pushesSettled, Bool.true_and, Bool.and_eq_true] at he
      refine .bind (keeps_eval hcall target he.1) fun target _ => ?_
      exact .bind (keeps_eval hcall position he.2) fun index _ => .pure trivial
  | _ =>
      simp only [Expr.evalPlace]
      exact .throw _

/-- Values for storage may be stored. -/
theorem keeps_evalAll (hcall : ctx.call.Keeping) (es : List Expr)
    (hes : everyAll pushesSettled es = true) :
    Keeps (Machine.Stores Value.Kept) (fun values => ∀ value ∈ values, value.Kept)
      (evalAll ctx es) := by
  cases es with
  | nil =>
      simp only [Expr.evalAll]
      exact .pure fun value hmem => by cases hmem
  | cons e rest =>
      simp only [Expr.evalAll]
      simp only [everyAll, Bool.and_eq_true] at hes
      refine .bind (keeps_eval hcall e hes.1) fun value hvalue => ?_
      refine .bind (keeps_settle e.span hvalue.guarded) fun value hvalue => ?_
      refine .bind (keeps_evalAll hcall rest hes.2) fun values hvalues => .pure ?_
      exact List.forall_mem_cons.2 ⟨hvalue, hvalues⟩

/-- A sequence of settled expressions yields the last of their values. -/
theorem keeps_evalBlock (hcall : ctx.call.Keeping) (note : Bool) {last : Value}
    (hlast : last.Guarded) (es : List Expr) (hes : everyAll pushesSettled es = true) :
    Keeps (Machine.Stores Value.Kept)
      (fun value => value.Guarded ∧
        (settledAll es = true → es ≠ [] ∨ last.isMarker = false → value.isMarker = false))
      (evalBlock ctx note last es) := by
  cases es with
  | nil =>
      simp only [Expr.evalBlock]
      exact .pure ⟨hlast, fun _ h => h.resolve_left fun hne => hne rfl⟩
  | cons e rest =>
      simp only [Expr.evalBlock]
      simp only [everyAll, Bool.and_eq_true] at hes
      simp only [settledAll, Bool.and_eq_true]
      refine .bind (keeps_eval hcall e hes.1) fun value hvalue => ?_
      have hnote {yields : Value → Prop} {x : Eval Value}
          (hx : Keeps (Machine.Stores Value.Kept) yields x) :
          Keeps (Machine.Stores Value.Kept) yields
            (if note = true then do changeScopes (·.noteOutput ctx.scope value); x else x) := by
        split
        · exact .bind (keeps_changeScopes fun _ hs => hs) fun _ _ => hx
        · exact hx
      -- A settled expression yields neither nothing nor a signal, so its value is the new last one.
      cases value with
      | nothing =>
          refine (keeps_evalBlock hcall note hlast rest hes.2).mono fun value h => ⟨h.1, ?_⟩
          intro hsettled _
          cases hvalue.unmarked hsettled.1
      | control signal =>
          refine hnote (.pure ⟨Value.guarded_leaveBlock signal, ?_⟩)
          intro hsettled _
          cases hvalue.unmarked hsettled.1
      | _ =>
          refine hnote ((keeps_evalBlock hcall note hvalue.guarded rest hes.2).mono ?_)
          exact fun value h => ⟨h.1, fun hsettled _ => h.2 hsettled.2 (.inr rfl)⟩

end

end Expr

namespace Closure

/-- A function body keeps what it may store, if the calls in it do. -/
theorem keeps_evalBody {config : Config} {free : Nat} (hcall : Caller.Keeping (call config free))
    {closure : Closure} (hclosure : (Value.function closure).Guarded) (frame : ScopeId) :
    Keeps (Machine.Stores Value.Kept) Value.Guarded (closure.evalBody config free frame) := by
  have hlast : Value.nothing.Guarded := trivial
  apply Eval.keeps_afterwards
  · have hctx : (⟨config, call config free, frame⟩ : Context).call.Keeping := hcall
    exact (Expr.keeps_evalBlock hctx false hlast closure.body hclosure).mono fun _ h => h.1
  · exact fun m hm => ⟨hm.slots, hm.lists⟩

/-- Calls of guarded functions keep what they may store, however deeply they nest. -/
theorem keeping_call (config : Config) (free : Nat) : Caller.Keeping (call config free) := by
  induction free with
  | zero =>
      intro closure arguments span _ _
      by_cases harity : arguments.length = closure.parameters.length
      · rw [call_zero harity]
        exact .throw _
      · rw [call_of_ne harity]
        exact .throw _
  | succ free ih =>
      intro closure arguments span hclosure harguments
      by_cases harity : arguments.length = closure.parameters.length
      · intro m hm
        -- The body makes only calls that may nest one level less, and what it yields is settled.
        have hframe : Machine.Stores Value.Kept
            { m with scopes := (closure.openFrame arguments m.scopes).2, depth := m.depth + 1 } :=
          ⟨hm.slots.openFrame closure harguments, hm.lists⟩
        rw [call_succ harity]
        exact Keeps.bind (keeps_evalBody ih hclosure m.scopes.scopes.size)
          (fun value hvalue => Eval.keeps_settle span hvalue) _ hframe
      · rw [call_of_ne harity]
        exact .throw _

end Closure

/-- The machine stores no signal and not nothing. -/
def Machine.Unmarked (m : Machine) : Prop := m.Stores fun value => value.isMarker = false

/-- A push whose target yields a signal or nothing stores it. -/
theorem Expr.not_unmarked_after_push {ctx : Context} {target position value : Expr}
    {marker index pushed settled : Value} {m m₁ m₂ m₃ : Machine}
    (htarget : target.eval ctx m = .ok marker m₁) (hmarker : marker.isMarker = true)
    (hposition : position.eval ctx m₁ = .ok index m₂) (hvalue : value.eval ctx m₂ = .ok pushed m₃)
    (hsettle : pushed.settle = .ok settled) (span : Span) :
    ¬ (((push span target position value).eval ctx).after m).Unmarked := by
  have hrun : (push span target position value).eval ctx m =
      Eval.onHeap span (HeapM.push marker index settled) m₃ := by
    rw [eval, Eval.run_bind_ok htarget, Eval.run_bind_ok hposition, Eval.run_bind_ok hvalue,
      Eval.settle, hsettle]
    rfl
  have hlist : marker.isIndexable = false := by
    cases marker with
    | list id => cases hmarker
    | _ => rfl
  -- The new list is the one with the next free identity.
  have hmem : marker ∈ (m₃.heap.alloc [marker]).2.items m₃.heap.size := by
    rw [Heap.items_alloc, if_pos rfl]
    exact List.mem_singleton_self marker
  have hkeeps := HeapM.keeps_mem_push index settled _ hmem
  rw [← HeapM.push_of_not_list hlist] at hkeeps
  have hstored {heap : Heap} (h : marker ∈ heap.items m₃.heap.size)
      (hlists : heap.Holds fun value => value.isMarker = false) : False := by
    simp [hlists _ marker h] at hmarker
  intro hunmarked
  rw [Eval.after, hrun] at hunmarked
  simp only [Eval.onHeap] at hunmarked
  cases hresult : HeapM.push marker index settled m₃.heap with
  | ok result heap =>
      rw [hresult] at hkeeps hunmarked
      exact hstored hkeeps.1 hunmarked.lists
  | error fault heap =>
      rw [hresult] at hkeeps hunmarked
      exact hstored hkeeps hunmarked.lists

namespace Session

/-- A session that programs and expressions have led to from the start, whether they failed or not,
in all of which a check passes at every expression. -/
inductive ReachedBy (check : Expr → Bool) : Session → Prop where
  | start (config : Config) : ReachedBy check (start config)
  | run {session : Session} (h : ReachedBy check session) {program : Block}
      (hprogram : Expr.everyAll check program.body = true) : ReachedBy check (session.run program).2
  | evaluate {session : Session} (h : ReachedBy check session) {e : Expr}
      (he : e.every check = true) : ReachedBy check (session.evaluate e).2

/-- A session whose pushes all have settled targets stores only what may be stored. -/
theorem ReachedBy.stores {session : Session} (h : session.ReachedBy Expr.pushesSettled) :
    session.machine.Stores Value.Kept := by
  have hcall (session : Session) : session.context.call.Keeping := Closure.keeping_call _ _
  have hlast : Value.nothing.Guarded := trivial
  induction h with
  | start config =>
      exact ⟨Scopes.holds_newGlobal Value.plain_kept, Heap.Holds.empty Value.Kept⟩
  | @run session h program hprogram ih =>
      rw [Session.run, machine_perform, Eval.after_bind_settle]
      exact Eval.stores_after
        (Expr.keeps_evalBlock (hcall session) true hlast program.body hprogram) ih
  | @evaluate session h e he ih =>
      rw [Session.evaluate, machine_perform]
      exact Eval.stores_after (Expr.keeps_eval (hcall session) e he) ih

/-- As long as all pushes have settled targets, no slot and no list holds a signal or nothing,
whatever else programs and expressions do and whether they fail or not. This is so between programs,
and it stays so with every expression that is evaluated on the way, in any scope and at any depth of
calls. A push whose target yields a signal or nothing stores it. -/
theorem markers_stored_by_push (session : Session) :
    (session.ReachedBy Expr.pushesSettled →
      session.machine.Stores Value.Kept ∧ session.machine.Unmarked) ∧
    (∀ (free : Nat) (scope : ScopeId) (e : Expr) (m : Machine),
      e.every Expr.pushesSettled = true → m.Stores Value.Kept →
      ((e.eval ⟨session.config, Closure.call session.config free, scope⟩).after m).Stores
        Value.Kept) ∧
    ∀ (span : Span) (target position value : Expr) (marker index pushed settled : Value)
      (m₁ m₂ m₃ : Machine),
      target.eval session.context session.machine = .ok marker m₁ → marker.isMarker = true →
      position.eval session.context m₁ = .ok index m₂ →
      value.eval session.context m₂ = .ok pushed m₃ → pushed.settle = .ok settled →
      ¬ (session.evaluate (.push span target position value)).2.machine.Unmarked := by
  refine ⟨fun h => ?_, fun free scope e m he hm => ?_, ?_⟩
  · exact ⟨h.stores, h.stores.mono fun value hvalue => hvalue.unmarked⟩
  · have hcall := Closure.keeping_call session.config free
    exact Eval.stores_after (Expr.keeps_eval hcall e he) hm
  · intro span target position value marker index pushed settled m₁ m₂ m₃ htarget hmarker
      hposition hvalue hsettle
    rw [evaluate, machine_perform]
    exact Expr.not_unmarked_after_push htarget hmarker hposition hvalue hsettle span

/-- Pushing nothing into a list stores null, and pushing into a signal stores the signal. -/
theorem markers_stored_by_push_break :
    let program : Block := ⟨[.push ⟨0, 18⟩ (.list ⟨0, 2⟩ []) (.number ⟨2, 0⟩ (-1))
      (.branch ⟨6, 11⟩ (.boolean ⟨9, 5⟩ false) (.null ⟨15, 4⟩) none)], ⟨0, 18⟩⟩
    let session := ((start {}).run program).2
    session.ReachedBy Expr.pushesSettled ∧ session.machine.Unmarked ∧
      ¬ (session.evaluate (.push ⟨0, 15⟩ (.group ⟨0, 7⟩ (.control ⟨1, 5⟩ ⟨.stop, 0⟩))
        (.number ⟨7, 0⟩ (-1)) (.null ⟨11, 4⟩))).2.machine.Unmarked := by
  intro program session
  have hsession : session.ReachedBy Expr.pushesSettled := (ReachedBy.start {}).run (by decide)
  have hpush := markers_stored_by_push session
  refine ⟨hsession, (hpush.1 hsession).2, ?_⟩
  exact hpush.2.2 _ _ _ _ (.control ⟨.stop, 0⟩) (.number (-1)) .null .null session.machine
    session.machine session.machine rfl rfl rfl rfl rfl

/-- Not every session is free of stored signals: one push is enough to store one. -/
theorem signal_stored : ¬ ∀ session : Session, session.Reachable → session.machine.Unmarked := by
  intro h
  let program : Block := ⟨[.push ⟨0, 15⟩ (.group ⟨0, 7⟩ (.control ⟨1, 5⟩ ⟨.stop, 0⟩))
    (.number ⟨7, 0⟩ (-1)) (.null ⟨11, 4⟩)], ⟨0, 15⟩⟩
  let session := ((start {}).run program).2
  have hunmarked := h session ((Reachable.start {}).run program)
  have hmarked : (session.machine.heap.items 0).any Value.isMarker = true := by decide +kernel
  obtain ⟨value, hmem, hmarker⟩ := List.any_eq_true.1 hmarked
  simp [hunmarked.lists 0 value hmem] at hmarker

end Session

end ListScript
