import ListScript.Proofs.Eval.Storage
import ListScript.Proofs.Expr.Nesting
import ListScript.Proofs.Source.LineTable

/-!
# Where errors point

Every action of an evaluation fails at the place that it is given, and that is the place of a node
of the expression evaluated, or of a node of a function's body that was stored earlier. So if all
the nodes of a program stand at sites, no matter which, then so do its errors:
`Session.site_of_run`. With the places of a program's own nodes as sites, and what is known of them
(`Block.row_of_parse`), an error points into the source: `Session.error_in_source`.
-/

namespace ListScript

variable {site : Span → Bool}

/-- The expression stands at a site. -/
def Expr.atSite (site : Span → Bool) (e : Expr) : Bool := site e.span

/-- An expression made up of sites stands at one. -/
theorem Expr.site_of_every {e : Expr} (h : e.every (atSite site) = true) : site e.span = true :=
  (every_iff_children.1 h).1

/-- If the value is a function of the script, all the nodes of its body stand at sites. -/
def Value.Sited (site : Span → Bool) : Value → Prop
  | .function closure => Expr.everyAll (Expr.atSite site) closure.body = true
  | _ => True

/-- Values other than functions hold no expressions. -/
theorem Value.plain_sited (site : Span → Bool) : Plain (Sited site) where
  null := trivial
  number _ := trivial
  boolean _ := trivial
  character _ := trivial
  list _ := trivial
  native _ := trivial

/-- What a block yields for a signal is no function. -/
theorem Value.sited_leaveBlock (signal : Control) : signal.leaveBlock.Sited site := by
  unfold Control.leaveBlock
  split
  · trivial
  · cases signal.kind <;> trivial

/-- Settling does not touch functions. -/
theorem Value.Sited.of_settle {value settled : Value} (h : value.Sited site)
    (hsettle : value.settle = .ok settled) : settled.Sited site := by
  cases value with
  | control signal => cases hsettle
  | _ =>
      cases hsettle
      exact h

namespace Eval

variable {α β : Type}

/-! ## Actions that fail at one place -/

/-- If the action fails, it does so at the given place. -/
def FailsAt (span : Span) (action : Eval α) : Prop :=
  ∀ ⦃m error m'⦄, action m = .error error m' → error.span = span

namespace FailsAt

variable {span : Span}

/-- Yielding a value does not fail. -/
theorem pure (a : α) : FailsAt span (Pure.pure a : Eval α) := by
  intro m error m' h
  cases h

/-- A fault that is raised at the place is raised there. -/
theorem fail (fault : Fault) : FailsAt span (Eval.fail fault span : Eval α) := by
  intro m error m' h
  cases h
  rfl

/-- Both parts fail at the same place. -/
theorem bind {x : Eval α} {f : α → Eval β} (hx : FailsAt span x) (hf : ∀ a, FailsAt span (f a)) :
    FailsAt span (x >>= f) := by
  intro m error m'' h
  rw [run_bind] at h
  cases hresult : x m with
  | ok a m' =>
      rw [hresult] at h
      exact hf a h
  | error error' m' =>
      rw [hresult] at h
      cases h
      exact hx hresult

/-- An operation on lists fails where it is asked for. -/
theorem onHeap (action : HeapM α) : FailsAt span (onHeap span action) := by
  intro m error m' h
  simp only [Eval.onHeap] at h
  split at h <;> cases h
  rfl

/-- A fault is reported where it is found. -/
theorem ofExcept (result : Except Fault α) : FailsAt span (ofExcept span result) := by
  cases result with
  | ok a => exact .pure a
  | error fault => exact .fail fault

/-- A name that is not bound is reported where it is used. -/
theorem lookup (scope : ScopeId) (name : String) : FailsAt span (lookup scope name span) := by
  intro m error m' h
  simp only [Eval.lookup] at h
  split at h <;> cases h
  rfl

/-- A binding that is refused is reported at the assignment. -/
theorem assign (scope : ScopeId) (name : String) (value : Value) (mode : BindingMode)
    (limit : Option Nat) : FailsAt span (assign scope name value mode limit span) := by
  intro m error m' h
  simp only [Eval.assign] at h
  split at h <;> cases h
  rfl

/-- A built-in function fails where it is called. -/
theorem callNative (now : Clock) (native : Native) (arguments : List Value) :
    FailsAt span (callNative now native arguments span) := by
  have hperform : FailsAt span (callNative.perform now native arguments span) := by
    intro m error m' h
    simp only [callNative.perform] at h
    split at h <;> cases h
    rfl
  intro m error m' h
  unfold Eval.callNative at h
  split at h
  · split at h
    · exact hperform h
    · cases h
      rfl
  · exact hperform h

/-- A limit that is none is reported where it is set. -/
theorem limit (value : Value) : FailsAt span (limit span value) := by
  unfold Eval.limit
  split
  · exact .pure _
  · exact .fail _

/-- A place fails to be read where it is named. -/
theorem read (scope : ScopeId) (place : Place) : FailsAt span (place.read scope span) := by
  cases place with
  | named name => exact .lookup scope name
  | element target index => exact .onHeap _

/-- A place fails to be written where it is named. -/
theorem write (scope : ScopeId) (value : Value) (mode : BindingMode) (limit : Option Nat)
    (place : Place) : FailsAt span (place.write scope span value mode limit) := by
  cases place with
  | named name => exact .assign scope name value mode limit
  | element target index => exact .onHeap _

/-- A step fails where it is taken. -/
theorem update (scope : ScopeId) (step : Step) (place : Place) :
    FailsAt span (place.update scope span step) := by
  refine .bind (.read scope place) fun old => ?_
  refine .bind (.ofExcept _) fun new => ?_
  exact .bind (.write scope new _ _ place) fun _ => .pure _

end FailsAt

/-! ## Actions that fail at sites -/

/-- From a machine that stores only functions made up of sites the action comes to another one, what
it yields has the given property, and if it fails, it does so at a site. -/
structure Sited (site : Span → Bool) (yields : α → Prop) (action : Eval α) : Prop where
  keeps : Keeps (Machine.Stores (Value.Sited site)) yields action
  site_of_error : ∀ {m error m'}, m.Stores (Value.Sited site) → action m = .error error m' →
    site error.span = true

namespace Sited

variable {yields : α → Prop} {yields' : β → Prop} {span : Span}

/-- An action that fails at one site fails at sites. -/
theorem of_failsAt {action : Eval α} (hfails : FailsAt span action) (hspan : site span = true)
    (hkeeps : Keeps (Machine.Stores (Value.Sited site)) yields action) :
    Sited site yields action where
  keeps := hkeeps
  site_of_error _ h := by rwa [hfails h]

/-- Yielding a value does not fail. -/
theorem pure {a : α} (h : yields a) : Sited site yields (Pure.pure a) where
  keeps := .pure h
  site_of_error _ h := by cases h

/-- A fault that is raised at a site is raised at one. -/
theorem fail (fault : Fault) (hspan : site span = true) :
    Sited site yields (fail fault span : Eval α) :=
  of_failsAt (.fail fault) hspan (.throw _)

/-- What follows starts from a machine that still stores only functions made up of sites. -/
theorem bind {x : Eval α} {f : α → Eval β} (hx : Sited site yields x)
    (hf : ∀ a, yields a → Sited site yields' (f a)) : Sited site yields' (x >>= f) where
  keeps := hx.keeps.bind fun a ha => (hf a ha).keeps
  site_of_error := by
    intro m error m'' hm h
    rw [run_bind] at h
    cases hresult : x m with
    | ok a m' =>
        rw [hresult] at h
        obtain ⟨hm', ha⟩ := hx.keeps.ok hm hresult
        exact (hf a ha).site_of_error hm' h
    | error error' m' =>
        rw [hresult] at h
        cases h
        exact hx.site_of_error hm hresult

/-- Cleaning up after an action does not change where it failed. -/
theorem afterwards {action : Eval α} (h : Sited site yields action) {cleanup : Machine → Machine}
    (hcleanup : ∀ m, m.Stores (Value.Sited site) → (cleanup m).Stores (Value.Sited site)) :
    Sited site yields (afterwards action cleanup) where
  keeps := keeps_afterwards h.keeps hcleanup
  site_of_error := by
    intro m error m' hm herror
    simp only [Eval.afterwards] at herror
    split at herror
    · cases herror
    · next hresult =>
        cases herror
        exact h.site_of_error hm hresult

/-- Cleaning up after a failure does not move it. -/
theorem onFailure {action : Eval α} (h : Sited site yields action) {cleanup : Machine → Machine}
    (hcleanup : ∀ m, m.Stores (Value.Sited site) → (cleanup m).Stores (Value.Sited site)) :
    Sited site yields (onFailure action cleanup) where
  keeps := keeps_onFailure h.keeps hcleanup
  site_of_error := by
    intro m error m' hm herror
    simp only [Eval.onFailure] at herror
    split at herror
    · cases herror
    · next hresult =>
        cases herror
        exact h.site_of_error hm hresult

end Sited

variable {yields : α → Prop} {span : Span}

/-- An operation on lists fails at the site where it is asked for. -/
theorem sited_onHeap {action : HeapM α} (hspan : site span = true)
    (h : Keeps (Heap.Holds (Value.Sited site)) yields action) :
    Sited site yields (onHeap span action) :=
  .of_failsAt (.onHeap action) hspan (keeps_onHeap span h)

/-- Changing the scopes does not fail. -/
theorem sited_changeScopes {change : Scopes → Scopes}
    (h : ∀ s : Scopes, s.Holds (Value.Sited site) → (change s).Holds (Value.Sited site)) :
    Sited site (fun _ => True) (changeScopes change) where
  keeps := keeps_changeScopes h
  site_of_error _ h := by cases h

/-- Settling fails at the site of the value. -/
theorem sited_settle {value : Value} (hspan : site span = true) (h : value.Sited site) :
    Sited site (Value.Sited site) (settle span value) :=
  .of_failsAt (.ofExcept _) hspan (keeps_ofExcept span fun _ hsettle => h.of_settle hsettle)

/-- A look at a place that may hold nothing does not fail. -/
theorem sited_peek (scope : ScopeId) (span : Span) (place : Place) :
    Sited site (Value.Sited site) (orElse (place.read scope span) .null) := by
  refine ⟨keeps_peek (Value.plain_sited site) scope span place, fun _ h => ?_⟩
  simp only [orElse] at h
  split at h <;> cases h

/-- A condition fails where its value does, or at the given site if that is no boolean. -/
theorem sited_condition (construct : Construct) (hspan : site span = true) {action : Eval Value}
    (h : Sited site (Value.Sited site) action) :
    Sited site (fun _ => True) (condition construct span action) := by
  refine .bind h fun value _ => ?_
  split
  · exact .pure trivial
  · exact .fail _ hspan

/-! ## Loops -/

section Loops

variable {body : Eval Value}

/-- A loop fails where its parts do, or at the given site if it runs too long. -/
theorem sited_loop {holds : Eval Bool} {step : Eval Unit}
    (hholds : Sited site (fun _ => True) holds) (hbody : Sited site (Value.Sited site) body)
    (hstep : Sited site (fun _ => True) step) (limit : Nat) (hspan : site span = true)
    (left rounds : Nat) :
    Sited site (Value.Sited site) (loop limit span holds body step left rounds) := by
  induction left generalizing rounds with
  | zero =>
      unfold loop
      refine .bind hholds fun b _ => ?_
      cases b with
      | true => exact .fail _ hspan
      | false => exact .pure trivial
  | succ left ih =>
      unfold loop
      refine .bind hholds fun b _ => ?_
      cases b with
      | false => exact .pure trivial
      | true =>
          refine .bind hbody fun value hvalue => ?_
          cases Flow.ofValue value with
          | next => exact .bind hstep fun _ _ => ih (rounds + 1)
          | stop => exact .pure trivial
          | escape signal => exact .pure trivial

/-- A loop over items fails where its body does, or at the given site if its name cannot be bound.
-/
theorem sited_forEach (hbody : Sited site (Value.Sited site) body) (scope : ScopeId)
    (name : String) (hspan : site span = true) {total : Value} (htotal : total.Sited site)
    {items : List Value} (hitems : ∀ value ∈ items, value.Sited site) :
    Sited site (Value.Sited site) (forEach scope name span body total items) := by
  have hend {value : Value} (hvalue : value.Sited site) :
      Sited site (Value.Sited site)
        (do changeScopes (·.release scope name); return value : Eval Value) :=
    .bind (sited_changeScopes fun _ hs => hs) fun _ _ => .pure hvalue
  induction items with
  | nil => exact hend htotal
  | cons item rest ih =>
      obtain ⟨hitem, hrest⟩ := List.forall_mem_cons.1 hitems
      unfold forEach
      refine .bind (.of_failsAt (.assign scope name item _ _) hspan
        (keeps_assign scope name hitem _ _ span)) fun _ _ => ?_
      refine .bind (hbody.onFailure fun m hm => ⟨hm.slots, hm.lists⟩) fun value _ => ?_
      cases Flow.ofValue value with
      | next => exact ih hrest
      | stop => exact hend htotal
      | escape signal => exact hend trivial

/-- A walk over a value fails where its body does, or at one of the given sites. -/
theorem sited_walkValue (hbody : Sited site (Value.Sited site) body) (ctx : Context) (kind : Walk)
    (name : String) {bodySpan : Span} (hspan : site span = true)
    (hbodySpan : site bodySpan = true) (value : Value) :
    Sited site (Value.Sited site) (walkValue ctx kind name span bodySpan body value) := by
  have hwalk {items : List Value} (hitems : ∀ value ∈ items, value.Sited site) :
      Sited site (Value.Sited site) (walk ctx.scope name bodySpan body items) := by
    unfold walk
    split
    · exact .pure trivial
    · exact sited_forEach hbody ctx.scope name hbodySpan (by trivial) hitems
  have hget : Sited site (Machine.Stores (Value.Sited site)) (get : Eval Machine) :=
    ⟨fun m hm => ⟨hm, hm⟩, fun _ h => by cases h⟩
  unfold walkValue
  refine .bind hget fun m hm => ?_
  cases kind with
  | positions =>
      dsimp only
      split
      · next items hitems =>
          exact hwalk fun item => Value.of_mem_positions? (Value.plain_sited site) hitems
      · exact .fail _ hspan
  | elements =>
      dsimp only
      split
      · next items hitems => exact hwalk fun item => Value.of_mem_elements? hm.lists hitems
      · exact .fail _ hspan

end Loops

end Eval

/-- Calls of functions made up of sites, with such functions among the arguments, fail at sites. -/
def Caller.Sited (site : Span → Bool) (call : Caller) : Prop :=
  ∀ (closure : Closure) (arguments : List Value) (span : Span),
    (Value.function closure).Sited site → (∀ value ∈ arguments, value.Sited site) →
    site span = true → Eval.Sited site (Value.Sited site) (call closure arguments span)

/-- A call fails at its own site or at one of the function that is called. -/
theorem Eval.sited_apply {ctx : Context} (hcall : ctx.call.Sited site) {callee : Value}
    (hcallee : callee.Sited site) {arguments : List Value}
    (harguments : ∀ value ∈ arguments, value.Sited site) {span : Span} (hspan : site span = true) :
    Eval.Sited site (Value.Sited site) (apply ctx callee arguments span) := by
  unfold apply
  split
  · exact hcall _ arguments span hcallee harguments hspan
  · exact .of_failsAt (.callNative _ _ arguments) hspan
      (keeps_callNative (Value.plain_sited site) _ _ arguments span)
  · exact .fail _ hspan

namespace Expr

open Eval

variable {ctx : Context}

mutual

/-- An expression all of whose nodes stand at sites fails at a site. -/
theorem sited_eval (hcall : ctx.call.Sited site) (e : Expr) (he : e.every (atSite site) = true) :
    Eval.Sited site (Value.Sited site) (e.eval ctx) := by
  have hplain := Value.plain_sited site
  have hspan := site_of_every he
  cases e with
  | number | boolean | null | character | control =>
      simp only [Expr.eval]
      exact .pure trivial
  | function span parameters body bodySpan =>
      simp only [Expr.eval]
      simp only [every, Bool.and_eq_true] at he
      exact .pure he.2
  | string span text =>
      simp only [Expr.eval]
      exact sited_onHeap hspan (HeapM.keeps_newText hplain hplain text)
  | identifier span name =>
      simp only [Expr.eval]
      exact .of_failsAt (.lookup ctx.scope name) hspan (keeps_lookup ctx.scope name span)
  | list span items =>
      simp only [Expr.eval]
      simp only [every, Bool.and_eq_true] at he
      refine .bind (sited_evalAll hcall items he.2) fun values hvalues => ?_
      exact sited_onHeap hspan (HeapM.keeps_newList hplain hvalues)
  | block span body =>
      simp only [Expr.eval]
      simp only [every, Bool.and_eq_true] at he
      exact sited_evalBlock hcall false (by trivial) body he.2
  | group span inner =>
      simp only [Expr.eval]
      simp only [every, Bool.and_eq_true] at he
      exact sited_eval hcall inner he.2
  | unary span operator operand =>
      simp only [Expr.eval]
      simp only [every, Bool.and_eq_true] at he
      refine .bind (sited_eval hcall operand he.2) fun value hvalue => ?_
      exact sited_onHeap hspan (HeapM.keeps_unary hplain operator fun _ => hvalue)
  | update span step after operand =>
      simp only [Expr.eval]
      simp only [every, Bool.and_eq_true] at he
      split
      · exact .fail _ (site_of_every he.2)
      · refine .bind (sited_evalPlace hcall operand he.2) fun place _ => ?_
        refine .bind (.of_failsAt (.update ctx.scope step place) hspan
          (keeps_update hplain ctx.scope span step place)) fun values hvalues => ?_
        cases after with
        | true => exact .pure hvalues.1
        | false => exact .pure hvalues.2
  | binary span operator lhs rhs =>
      simp only [Expr.eval]
      simp only [every, Bool.and_eq_true] at he
      refine .bind (sited_eval hcall lhs he.2.1) fun left _ => ?_
      refine .bind (sited_eval hcall rhs he.2.2) fun right _ => ?_
      exact sited_onHeap hspan (HeapM.keeps_binary hplain operator left right)
  | assign span target value limit mode =>
      simp only [Expr.eval]
      simp only [every, Bool.and_eq_true] at he
      obtain ⟨-, ⟨htarget, hvalue⟩, hlimit⟩ := he
      split
      · exact .fail _ (site_of_every htarget)
      · refine .bind (sited_eval hcall value hvalue) fun result hresult => ?_
        refine .bind (sited_settle (site_of_every hvalue) hresult) fun result hresult => ?_
        refine .bind (sited_eval hcall limit hlimit) fun bound _ => ?_
        refine .bind (.of_failsAt (.limit bound) (site_of_every hlimit)
          (keeps_limit _ bound)) fun bound _ => ?_
        refine .bind (sited_evalPlace hcall target htarget) fun place _ => ?_
        exact .of_failsAt (.write ctx.scope result mode bound place) hspan
          (keeps_write ctx.scope span hresult mode bound place)
  | call span callee arguments =>
      simp only [Expr.eval]
      simp only [every, Bool.and_eq_true] at he
      refine .bind (sited_evalAll hcall arguments he.2.2) fun values hvalues => ?_
      refine .bind (sited_eval hcall callee he.2.1) fun callee hcallee => ?_
      exact sited_apply hcall hcallee hvalues hspan
  | branch span condition success failure =>
      cases failure with
      | none =>
          simp only [Expr.eval]
          simp only [every, Bool.and_eq_true] at he
          obtain ⟨-, hcondition, hsuccess⟩ := he
          refine .bind (sited_condition _ (site_of_every hcondition)
            (sited_eval hcall condition hcondition)) fun holds _ => ?_
          cases holds with
          | true => exact sited_eval hcall success hsuccess
          | false => exact .pure trivial
      | some failure =>
          simp only [Expr.eval]
          simp only [every, Bool.and_eq_true] at he
          obtain ⟨-, ⟨hcondition, hsuccess⟩, hfailure⟩ := he
          refine .bind (sited_condition _ (site_of_every hcondition)
            (sited_eval hcall condition hcondition)) fun holds _ => ?_
          cases holds with
          | true => exact sited_eval hcall success hsuccess
          | false => exact sited_eval hcall failure hfailure
  | whileLoop span condition body =>
      simp only [Expr.eval]
      simp only [every, Bool.and_eq_true] at he
      obtain ⟨-, hcondition, hbody⟩ := he
      have hholds := sited_condition .whileLoop (site_of_every hcondition)
        (sited_eval hcall condition hcondition)
      exact sited_loop hholds (sited_eval hcall body hbody) (.pure trivial) _ (site_of_every hbody)
        _ _
  | forLoop span start condition step body =>
      simp only [Expr.eval]
      simp only [every, Bool.and_eq_true] at he
      obtain ⟨-, ⟨⟨hstart, hcondition⟩, hstep⟩, hbody⟩ := he
      have hholds := sited_condition .forLoop (site_of_every hcondition)
        (sited_eval hcall condition hcondition)
      refine .bind (sited_eval hcall start hstart) fun _ _ => ?_
      exact sited_loop hholds (sited_eval hcall body hbody)
        (.bind (sited_eval hcall step hstep) fun _ _ => .pure trivial) _ (site_of_every hbody) _ _
  | forEach span kind name enumerable body =>
      simp only [Expr.eval]
      simp only [every, Bool.and_eq_true] at he
      obtain ⟨-, henumerable, hbody⟩ := he
      refine .bind (sited_eval hcall enumerable henumerable) fun value _ => ?_
      exact sited_walkValue (sited_eval hcall body hbody) ctx kind name (site_of_every henumerable)
        (site_of_every hbody) value
  | index span target position =>
      simp only [Expr.eval]
      simp only [every, Bool.and_eq_true] at he
      refine .bind (sited_eval hcall target he.2.1) fun target _ => ?_
      split
      · exact .fail _ hspan
      · refine .bind (sited_eval hcall position he.2.2) fun index _ => ?_
        exact sited_onHeap hspan (HeapM.keeps_readIndex hplain target index)
  | method span receiver name arguments =>
      simp only [Expr.eval]
      simp only [every, Bool.and_eq_true] at he
      refine .bind (sited_eval hcall receiver he.2.1) fun receiver _ => ?_
      refine .bind (.of_failsAt (.ofExcept _) hspan (keeps_ofExcept span fun _ _ => trivial))
        fun method (_ : True) => ?_
      refine .bind (sited_evalAll hcall arguments he.2.2) fun values hvalues => ?_
      exact sited_onHeap hspan (Method.keeps_call hplain method receiver hvalues)
  | range span first last step inclusive =>
      simp only [Expr.eval]
      simp only [every, Bool.and_eq_true] at he
      obtain ⟨-, ⟨hfirst, hlast⟩, hstep⟩ := he
      refine .bind (sited_eval hcall first hfirst) fun first _ => ?_
      refine .bind (sited_eval hcall last hlast) fun last _ => ?_
      refine .bind (sited_eval hcall step hstep) fun step _ => ?_
      exact sited_onHeap hspan (HeapM.keeps_range hplain first last step inclusive)
  | shift span source target =>
      simp only [Expr.eval]
      simp only [every, Bool.and_eq_true] at he
      obtain ⟨-, hsource, htarget⟩ := he
      split
      · exact .fail _ (site_of_every htarget)
      · refine .bind (sited_evalPlace hcall target htarget) fun place _ => ?_
        refine .bind (sited_peek ctx.scope span place) fun old hold => ?_
        refine .bind (sited_eval hcall source hsource) fun value hvalue => ?_
        refine .bind (sited_settle (site_of_every hsource) hvalue) fun value hvalue => ?_
        have hstore (value : Value) (hvalue : value.Sited site) :
            Eval.Sited site (Value.Sited site)
              (do let _ ← place.overwrite ctx.scope span value; return old) :=
          .bind (.of_failsAt (.write ctx.scope value _ _ place) hspan
            (keeps_write ctx.scope span hvalue ⟨false, false⟩ none place)) fun _ _ => .pure hold
        split
        · exact .bind (sited_onHeap hspan (HeapM.keeps_copy hplain hvalue)) hstore
        · exact .bind (.pure hvalue) hstore
  | pop span source position =>
      simp only [Expr.eval]
      simp only [every, Bool.and_eq_true] at he
      refine .bind (sited_eval hcall source he.2.1) fun target htarget => ?_
      split
      · exact .pure htarget
      · refine .bind (sited_eval hcall position he.2.2) fun index _ => ?_
        exact sited_onHeap hspan (HeapM.keeps_pop hplain (fun _ hvalue => hvalue) htarget index)
  | push span target position value =>
      simp only [Expr.eval]
      simp only [every, Bool.and_eq_true] at he
      obtain ⟨-, ⟨htarget, hposition⟩, hvalue⟩ := he
      refine .bind (sited_eval hcall target htarget) fun target htarget => ?_
      refine .bind (sited_eval hcall position hposition) fun index _ => ?_
      refine .bind (sited_eval hcall value hvalue) fun result hresult => ?_
      refine .bind (sited_settle (site_of_every hvalue) hresult) fun result hresult => ?_
      exact sited_onHeap hspan (HeapM.keeps_push hplain htarget index hresult)

/-- A place whose nodes stand at sites fails at a site. -/
theorem sited_evalPlace (hcall : ctx.call.Sited site) (e : Expr)
    (he : e.every (atSite site) = true) :
    Eval.Sited site (fun _ => True) (e.evalPlace ctx) := by
  cases e with
  | identifier span name =>
      simp only [Expr.evalPlace]
      exact .pure trivial
  | index span target position =>
      simp only [Expr.evalPlace]
      simp only [every, Bool.and_eq_true] at he
      refine .bind (sited_eval hcall target he.2.1) fun target _ => ?_
      exact .bind (sited_eval hcall position he.2.2) fun index _ => .pure trivial
  | _ =>
      simp only [Expr.evalPlace]
      exact .fail _ (site_of_every he)

/-- Expressions for storage fail at sites. -/
theorem sited_evalAll (hcall : ctx.call.Sited site) (es : List Expr)
    (hes : everyAll (atSite site) es = true) :
    Eval.Sited site (fun values => ∀ value ∈ values, value.Sited site) (evalAll ctx es) := by
  cases es with
  | nil =>
      simp only [Expr.evalAll]
      exact .pure (by simp)
  | cons e rest =>
      simp only [Expr.evalAll]
      simp only [everyAll, Bool.and_eq_true] at hes
      refine .bind (sited_eval hcall e hes.1) fun value hvalue => ?_
      refine .bind (sited_settle (site_of_every hes.1) hvalue) fun value hvalue => ?_
      refine .bind (sited_evalAll hcall rest hes.2) fun values hvalues => .pure ?_
      exact List.forall_mem_cons.2 ⟨hvalue, hvalues⟩

/-- Expressions in sequence fail at sites. -/
theorem sited_evalBlock (hcall : ctx.call.Sited site) (note : Bool) {last : Value}
    (hlast : last.Sited site) (es : List Expr) (hes : everyAll (atSite site) es = true) :
    Eval.Sited site (Value.Sited site) (evalBlock ctx note last es) := by
  cases es with
  | nil =>
      simp only [Expr.evalBlock]
      exact .pure hlast
  | cons e rest =>
      simp only [Expr.evalBlock]
      simp only [everyAll, Bool.and_eq_true] at hes
      refine .bind (sited_eval hcall e hes.1) fun value hvalue => ?_
      have hnote {x : Eval Value} (hx : Eval.Sited site (Value.Sited site) x) :
          Eval.Sited site (Value.Sited site)
            (if note = true then do changeScopes (·.noteOutput ctx.scope value); x else x) := by
        split
        · exact .bind (sited_changeScopes fun _ hs => hs) fun _ _ => hx
        · exact hx
      cases value with
      | nothing => exact sited_evalBlock hcall note hlast rest hes.2
      | control signal => exact hnote (.pure (Value.sited_leaveBlock signal))
      | _ => exact hnote (sited_evalBlock hcall note hvalue rest hes.2)

end

end Expr

namespace Closure

/-- Calls of functions made up of sites fail at sites, however deeply they nest. -/
theorem sited_call (config : Config) (free : Nat) : Caller.Sited site (call config free) := by
  induction free with
  | zero =>
      intro closure arguments span _ _ hspan
      by_cases harity : arguments.length = closure.parameters.length
      · rw [call_zero harity]
        exact .fail _ hspan
      · rw [call_of_ne harity]
        exact .fail _ hspan
  | succ free ih =>
      intro closure arguments span hclosure harguments hspan
      by_cases harity : arguments.length = closure.parameters.length
      · have hbody (frame : ScopeId) :
            Eval.Sited site (Value.Sited site) (closure.evalBody config free frame) := by
          have hctx : (⟨config, call config free, frame⟩ : Context).call.Sited site := ih
          exact (Expr.sited_evalBlock hctx false (by trivial) closure.body hclosure).afterwards
            fun m hm => ⟨hm.slots, hm.lists⟩
        have hcall (frame : ScopeId) := (hbody frame).bind fun value hvalue =>
          Eval.sited_settle hspan hvalue
        have hframe {m : Machine} (hm : m.Stores (Value.Sited site)) :
            Machine.Stores (Value.Sited site)
              { m with scopes := (closure.openFrame arguments m.scopes).2, depth := m.depth + 1 } :=
          ⟨hm.slots.openFrame closure harguments, hm.lists⟩
        refine ⟨fun m hm => ?_, fun {m error m'} hm h => ?_⟩
        · rw [call_succ harity]
          exact (hcall _).keeps _ (hframe hm)
        · rw [call_succ harity] at h
          exact (hcall _).site_of_error (hframe hm) h
      · rw [call_of_ne harity]
        exact .fail _ hspan

end Closure

namespace Session

/-- A program that stands at sites fails at a site. -/
theorem site_of_run {program : Block} (hbody : Expr.everyAll (Expr.atSite site) program.body = true)
    (hspan : site program.span = true) (config : Config) {error : RuntimeError}
    (h : ((start config).run program).1 = .error error) : site error.span = true := by
  have hstart : (start config).machine.Stores (Value.Sited site) :=
    ⟨Scopes.holds_newGlobal (Value.plain_sited site), Heap.Holds.empty (Value.Sited site)⟩
  have hctx : (start config).context.call.Sited site := Closure.sited_call _ _
  have hprogram : Eval.Sited site (Value.Sited site) (do
      let value ← Expr.evalBlock (start config).context true .nothing program.body
      Eval.settle program.span value) :=
    .bind (Expr.sited_evalBlock hctx true (by trivial) program.body hbody) fun value hvalue =>
      Eval.sited_settle hspan hvalue
  simp only [run, perform] at h
  split at h
  · cases h
  · next hresult =>
      cases h
      exact hprogram.site_of_error hstart hresult

end Session

/-- The place of a program or of one of its nodes. -/
def Block.Site (program : Block) (span : Span) : Prop :=
  span = program.span ∨ ∃ e ∈ program.body, ∃ node, Expr.Node node e ∧ span = node.span

open Classical in
/-- A program fails at its own place or at that of one of its nodes. -/
theorem Session.site_of_run_error (config : Config) {program : Block} {error : RuntimeError}
    (h : ((start config).run program).1 = .error error) : program.Site error.span := by
  let site (span : Span) : Bool := decide (program.Site span)
  have hspan : site program.span = true := decide_eq_true (.inl rfl)
  have hbody : Expr.everyAll (Expr.atSite site) program.body = true := by
    refine Expr.everyAll_iff.2 fun e he => Expr.every_iff.2 fun node hnode => ?_
    exact decide_eq_true (.inr ⟨e, he, node, hnode, rfl⟩)
  exact of_decide_eq_true (site_of_run hbody hspan config h)

/-- The sites of a program that was read from a source lie between character boundaries. -/
theorem Block.Site.boundary {source : String} {program : Block} {span : Span}
    (h : program.Site span) (hparse : Block.parse source = .ok program) :
    Boundary source span.start ∧ Boundary source span.stop := by
  obtain ⟨hrow, hspan⟩ := Block.row_of_parse hparse
  obtain rfl | ⟨e, he, node, hnode, rfl⟩ := h
  · rw [hspan, Span.stop, Nat.zero_add]
    exact ⟨.zero source, .size source⟩
  · exact Expr.boundary_of_placed (Expr.every_iff.1 (hrow.fits he).placed node hnode)

/-- Whatever it is told from outside, a program that fails does so at the place of one of its nodes,
or at its own place. That place lies in the source between character boundaries, and the line
reported for it is one more than the number of newlines before it. Unless the source has too many
lines for that, it is a number of 32 bits. -/
theorem Session.error_in_source {source : String} {program : Block}
    (hparse : Block.parse source = .ok program) (config : Config) {error : RuntimeError}
    (hrun : ((start config).run program).1 = .error error) :
    (error.span = program.span ∨
      ∃ e ∈ program.body, ∃ node, Expr.Node node e ∧ error.span = node.span) ∧
    error.span.stop ≤ source.utf8ByteSize ∧ (error.span.text? source).isSome = true ∧
    ∃ before, (Span.between 0 error.span.start).text? source = some before ∧
      error.summary (.ofText source) =
        "(" ++ toString (before.toList.count '\n' + 1) ++ ") " ++ error.fault.category.label ++
          ": " ++ error.fault.message ∧
      ((Lines.ofText source).intervals.size < UInt32.size - 1 →
        before.toList.count '\n' + 1 < UInt32.size) := by
  have hsite := site_of_run_error config hrun
  have hboundary := hsite.boundary hparse
  obtain ⟨before, hbefore, hline⟩ := Lines.lineAt_of_boundary hboundary.1
  refine ⟨hsite, hboundary.2.le_size, Boundary.text?_isSome_iff.2 hboundary, before, hbefore, ?_,
    fun hsize => ?_⟩
  · rw [RuntimeError.summary, hline]
  · rw [← hline]
    exact Lines.lineAt_lt_size hsize _

/-- A function that fails on the third line when it is called on the fifth. -/
theorem Session.error_in_source_called :
    let source := "f = (x) => \x7b\n  x << 1\n  x - [2]\n\x7d\nf([])"
    ∃ program error, Block.parse source = .ok program ∧
      ((start {}).run program).1 = .error error ∧ error.span = ⟨24, 7⟩ ∧
      (error.span = program.span ∨
        ∃ e ∈ program.body, ∃ node, Expr.Node node e ∧ error.span = node.span) ∧
      (error.span.text? source).isSome = true ∧
      ∃ before, (Span.between 0 24).text? source = some before ∧
        error.summary (.ofText source) =
          "(" ++ toString (before.toList.count '\n' + 1) ++ ") " ++ error.fault.category.label ++
            ": " ++ error.fault.message := by
  intro source
  have hview : ((Block.parse source).toOption.bind fun program =>
      ((((start {}).run program).1.map fun _ => Span.empty 0).tryCatch fun error =>
        .ok error.span).toOption) = some ⟨24, 7⟩ := by decide +kernel
  obtain ⟨program, hprogram, hview⟩ := Option.bind_eq_some_iff.1 hview
  have hparse : Block.parse source = .ok program := by
    cases hresult : Block.parse source with
    | error error =>
        rw [hresult] at hprogram
        cases hprogram
    | ok block =>
        rw [hresult] at hprogram
        exact congrArg Except.ok (Option.some.inj hprogram)
  cases hrun : ((start {}).run program).1 with
  | ok value =>
      rw [hrun] at hview
      cases hview
  | error error =>
      rw [hrun] at hview
      have hspan : error.span = ⟨24, 7⟩ := Option.some.inj hview
      obtain ⟨hsite, -, htext, before, hbefore, hsummary, -⟩ := error_in_source hparse {} hrun
      rw [hspan] at hbefore
      exact ⟨program, error, hparse, hrun, hspan, hsite, htext, before, hbefore, hsummary⟩

end ListScript
