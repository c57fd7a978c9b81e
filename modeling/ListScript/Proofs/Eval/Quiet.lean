import ListScript.Proofs.Eval.Evolution
import ListScript.Proofs.Lists.Allocation

/-!
# Expressions that store nothing

A quiet expression has no assignment, shift, update, push, pop and call outside of function
literals, and its loops over items are over names from a given set. All that its evaluation does is
to look up names, to make lists, and to bind and release the names of loops. A property that passes
through these, a `Quiet.Respected` one, is a property of the evaluation of every quiet expression:
`Quiet.Respected.eval`. If no loop over items is allowed at all, the expression is read-only, and
its evaluation leaves behind nothing but new lists: `Expr.retaining_eval`.
-/

namespace ListScript

namespace Expr

mutual

/-- Outside of function literals, nothing in the expression stores a value or calls a function, and
all loops over items are over allowed names. -/
def quiet (allowed : String → Bool) : Expr → Bool
  | .number .. | .boolean .. | .null .. | .string .. | .character .. | .identifier ..
  | .control .. | .function .. => true
  | .list _ es | .block _ es => quietAll allowed es
  | .group _ a | .unary _ _ a => a.quiet allowed
  | .binary _ _ a b | .whileLoop _ a b | .index _ a b | .branch _ a b none =>
    a.quiet allowed && b.quiet allowed
  | .range _ a b c _ | .branch _ a b (some c) =>
    a.quiet allowed && b.quiet allowed && c.quiet allowed
  | .forLoop _ a b c d =>
    a.quiet allowed && b.quiet allowed && c.quiet allowed && d.quiet allowed
  | .forEach _ _ name a b => allowed name && a.quiet allowed && b.quiet allowed
  | .method _ a _ es => a.quiet allowed && quietAll allowed es
  | .update .. | .assign .. | .call .. | .shift .. | .pop .. | .push .. => false

/-- All the expressions are quiet. -/
def quietAll (allowed : String → Bool) : List Expr → Bool
  | [] => true
  | e :: rest => e.quiet allowed && quietAll allowed rest

end

end Expr

namespace Quiet

/-- The property passes through everything that evaluations of quiet expressions in a scope are made
up of. -/
structure Respected (scope : ScopeId) (allowed : String → Bool)
    (P : {α : Type} → Eval α → Prop) : Prop where
  pure {α : Type} (a : α) : P (Pure.pure a : Eval α)
  fail {α : Type} (fault : Fault) (span : Span) : P (Eval.fail fault span : Eval α)
  state : P (get : Eval Machine)
  lookup (name : String) (span : Span) : P (Eval.lookup scope name span)
  onHeap {action : HeapM Value} (span : Span) : action.Allocates → P (Eval.onHeap span action)
  bind {α β : Type} {x : Eval α} {f : α → Eval β} : P x → (∀ a, P (f a)) → P (x >>= f)
  forEach {name : String} {body : Eval Value} (span : Span) (total : Value) (items : List Value) :
    allowed name = true → P body → P (Eval.forEach scope name span body total items)

namespace Respected

variable {ctx : Context} {allowed : String → Bool} {P : {α : Type} → Eval α → Prop}

theorem ofExcept (h : Respected ctx.scope allowed P) {α : Type} (span : Span)
    (result : Except Fault α) : P (Eval.ofExcept span result) := by
  cases result with
  | ok a => exact h.pure a
  | error fault => exact h.fail fault span

theorem condition (h : Respected ctx.scope allowed P) (construct : Construct) (span : Span)
    {x : Eval Value} (hx : P x) : P (Eval.condition construct span x) := by
  refine h.bind hx fun value => ?_
  split
  · exact h.pure _
  · exact h.fail _ span

theorem loop (h : Respected ctx.scope allowed P) {holds : Eval Bool} {body : Eval Value}
    {step : Eval Unit} (hholds : P holds) (hbody : P body) (hstep : P step) (limit : Nat)
    (span : Span) (left rounds : Nat) :
    P (Eval.loop limit span holds body step left rounds) :=
  Eval.loop_of_bind h.pure h.fail h.bind hholds hbody hstep limit span left rounds

theorem walkValue (h : Respected ctx.scope allowed P) (kind : Walk) {name : String}
    (hname : allowed name = true) (span bodySpan : Span) {body : Eval Value} (hbody : P body)
    (value : Value) : P (Eval.walkValue ctx kind name span bodySpan body value) := by
  have hwalk (items : List Value) : P (Eval.walk ctx.scope name bodySpan body items) := by
    unfold Eval.walk
    split
    · exact h.pure _
    · exact h.forEach bodySpan _ items hname hbody
  refine h.bind h.state fun machine => ?_
  cases kind with
  | positions =>
      dsimp only
      split
      · exact hwalk _
      · exact h.fail _ span
  | elements =>
      dsimp only
      split
      · exact hwalk _
      · exact h.fail _ span

mutual

/-- The evaluation of a quiet expression has the property. -/
theorem eval (h : Respected ctx.scope allowed P) (e : Expr) (he : e.quiet allowed = true) :
    P (e.eval ctx) := by
  cases e with
  | number | boolean | null | character | control | function =>
      simp only [Expr.eval]
      exact h.pure _
  | string span text =>
      simp only [Expr.eval]
      exact h.onHeap span (HeapM.allocates_newList _)
  | identifier span name =>
      simp only [Expr.eval]
      exact h.lookup name span
  | list span items =>
      simp only [Expr.eval]
      exact h.bind (evalAll h items he) fun values => h.onHeap span (HeapM.allocates_newList _)
  | block span body =>
      simp only [Expr.eval]
      exact evalBlock h .nothing body he
  | group span inner =>
      simp only [Expr.eval]
      exact eval h inner he
  | unary span operator operand =>
      simp only [Expr.eval]
      refine h.bind (eval h operand he) fun value => ?_
      exact h.onHeap span (HeapM.allocates_unary _ _)
  | binary span operator lhs rhs =>
      simp only [Expr.eval]
      simp only [Expr.quiet, Bool.and_eq_true] at he
      refine h.bind (eval h lhs he.1) fun left => h.bind (eval h rhs he.2) fun right => ?_
      exact h.onHeap span (HeapM.allocates_binary _ _ _)
  | branch span condition success failure =>
      cases failure with
      | none =>
          simp only [Expr.eval]
          simp only [Expr.quiet, Bool.and_eq_true] at he
          refine h.bind (h.condition _ _ (eval h condition he.1)) fun holds => ?_
          cases holds with
          | true => exact eval h success he.2
          | false => exact h.pure _
      | some failure =>
          simp only [Expr.eval]
          simp only [Expr.quiet, Bool.and_eq_true] at he
          refine h.bind (h.condition _ _ (eval h condition he.1.1)) fun holds => ?_
          cases holds with
          | true => exact eval h success he.1.2
          | false => exact eval h failure he.2
  | whileLoop span condition body =>
      simp only [Expr.eval]
      simp only [Expr.quiet, Bool.and_eq_true] at he
      have hcondition := h.condition .whileLoop condition.span (eval h condition he.1)
      exact h.loop hcondition (eval h body he.2) (h.pure ()) _ _ _ _
  | forLoop span start condition step body =>
      simp only [Expr.eval]
      simp only [Expr.quiet, Bool.and_eq_true] at he
      have hcondition := h.condition .forLoop condition.span (eval h condition he.1.1.2)
      have hstep := h.bind (eval h step he.1.2) fun _ => h.pure ()
      refine h.bind (eval h start he.1.1.1) fun _ => ?_
      exact h.loop hcondition (eval h body he.2) hstep _ _ _ _
  | forEach span kind name enumerable body =>
      simp only [Expr.eval]
      simp only [Expr.quiet, Bool.and_eq_true] at he
      refine h.bind (eval h enumerable he.1.2) fun value => ?_
      exact h.walkValue kind he.1.1 _ _ (eval h body he.2) value
  | index span target position =>
      simp only [Expr.eval]
      simp only [Expr.quiet, Bool.and_eq_true] at he
      refine h.bind (eval h target he.1) fun target => ?_
      split
      · exact h.fail _ _
      · refine h.bind (eval h position he.2) fun index => ?_
        exact h.onHeap span (HeapM.allocates_readIndex _ _)
  | method span receiver name arguments =>
      simp only [Expr.eval]
      simp only [Expr.quiet, Bool.and_eq_true] at he
      refine h.bind (eval h receiver he.1) fun receiver => h.bind (h.ofExcept _ _) fun method => ?_
      refine h.bind (evalAll h arguments he.2) fun values => ?_
      exact h.onHeap span (method.allocates_call _ _)
  | range span first last step inclusive =>
      simp only [Expr.eval]
      simp only [Expr.quiet, Bool.and_eq_true] at he
      refine h.bind (eval h first he.1.1) fun first => h.bind (eval h last he.1.2) fun last => ?_
      refine h.bind (eval h step he.2) fun step => ?_
      exact h.onHeap span (HeapM.allocates_range _ _ _ _)
  | update | assign | call | shift | pop | push => cases he

/-- The evaluation of quiet expressions to values for storage has the property. -/
theorem evalAll (h : Respected ctx.scope allowed P) (es : List Expr)
    (hes : Expr.quietAll allowed es = true) : P (Expr.evalAll ctx es) := by
  cases es with
  | nil =>
      simp only [Expr.evalAll]
      exact h.pure _
  | cons e rest =>
      simp only [Expr.evalAll]
      simp only [Expr.quietAll, Bool.and_eq_true] at hes
      refine h.bind (eval h e hes.1) fun value => h.bind (h.ofExcept _ _) fun value => ?_
      exact h.bind (evalAll h rest hes.2) fun values => h.pure _

/-- The evaluation of quiet expressions in sequence has the property. -/
theorem evalBlock (h : Respected ctx.scope allowed P) (last : Value) (es : List Expr)
    (hes : Expr.quietAll allowed es = true) : P (Expr.evalBlock ctx false last es) := by
  cases es with
  | nil =>
      simp only [Expr.evalBlock]
      exact h.pure _
  | cons e rest =>
      simp only [Expr.evalBlock]
      simp only [Expr.quietAll, Bool.and_eq_true] at hes
      refine h.bind (eval h e hes.1) fun value => ?_
      cases value with
      | nothing => exact evalBlock h last rest hes.2
      | control signal => exact h.pure _
      | _ => exact evalBlock h _ rest hes.2

end

end Respected

end Quiet

/-! ## Expressions that change nothing -/

/-- Everything that the machine had is as it was: all scopes with their bindings and last values,
the output, the open calls, the readings of the clock and the elements of all lists. There may be
more lists. -/
structure Machine.Retains (m m' : Machine) : Prop where
  scopes : m'.scopes = m.scopes
  output : m'.output = m.output
  depth : m'.depth = m.depth
  readings : m'.readings = m.readings
  heap : m.heap.Extends m'.heap

namespace Machine.Retains

variable {m m' m'' : Machine}

theorem refl (m : Machine) : m.Retains m := ⟨rfl, rfl, rfl, rfl, .refl m.heap⟩

theorem trans (h : m.Retains m') (h' : m'.Retains m'') : m.Retains m'' where
  scopes := h'.scopes.trans h.scopes
  output := h'.output.trans h.output
  depth := h'.depth.trans h.depth
  readings := h'.readings.trans h.readings
  heap := h.heap.trans h'.heap

end Machine.Retains

namespace Eval

/-- The relation holds of a machine and itself, of one step after another, and of a machine and the
same machine with more lists. -/
structure AllowsLists (R : Machine → Machine → Prop) : Prop where
  refl (m : Machine) : R m m
  trans ⦃m m' m'' : Machine⦄ : R m m' → R m' m'' → R m m''
  heap {m : Machine} {heap : Heap} : m.heap.Extends heap → R m { m with heap }

/-- An action on the heap that only makes lists. -/
theorem Leads.onHeap {R : Machine → Machine → Prop} (hR : AllowsLists R) {α : Type}
    {action : HeapM α} (h : action.Allocates) (span : Span) : Leads R (onHeap span action) := by
  intro m
  rw [after, Eval.onHeap]
  cases hrun : action m.heap with
  | ok a heap => exact hR.heap (h.ok hrun)
  | error fault heap => exact hR.heap (h.error hrun)

/-- What quiet evaluations are made up of is within a relation that allows new lists, if the loops
are. -/
theorem AllowsLists.respected {R : Machine → Machine → Prop} (hR : AllowsLists R)
    {scope : ScopeId} {allowed : String → Bool}
    (hforEach : ∀ {name : String} {body : Eval Value} (span : Span) (total : Value)
      (items : List Value), allowed name = true → Leads R body →
        Leads R (forEach scope name span body total items)) :
    Quiet.Respected scope allowed (Leads R) where
  pure _ := .of_after hR.refl fun _ => rfl
  fail _ _ := .of_after hR.refl fun _ => rfl
  state := .of_after hR.refl fun _ => rfl
  lookup name span := .of_after hR.refl fun m => after_lookup scope name span m
  onHeap span h := .onHeap hR h span
  bind := .bind hR.trans
  forEach := hforEach

/-- The action leaves everything as it was, whether it fails or not. -/
def Retaining {α : Type} (x : Eval α) : Prop := Leads Machine.Retains x

/-- New lists are within retaining. -/
theorem allowsLists_retains : AllowsLists Machine.Retains where
  refl := .refl
  trans _ _ _ := .trans
  heap h := ⟨rfl, rfl, rfl, rfl, h⟩

/-- What quiet evaluations are made up of changes nothing, as long as no loop binds a name. -/
theorem respected_retaining (scope : ScopeId) :
    Quiet.Respected scope (fun _ => false) Retaining :=
  allowsLists_retains.respected fun _ _ _ hname => nomatch hname

end Eval

namespace Expr

/-- Outside of function literals, nothing in the expression stores a value, calls a function or
loops over items. -/
def isReadOnly (e : Expr) : Bool := e.quiet fun _ => false

/-- The evaluation of a read-only expression changes nothing. -/
theorem retaining_eval (ctx : Context) {e : Expr} (he : e.isReadOnly = true) :
    Eval.Retaining (e.eval ctx) :=
  (Eval.respected_retaining ctx.scope).eval e he

end Expr

end ListScript
