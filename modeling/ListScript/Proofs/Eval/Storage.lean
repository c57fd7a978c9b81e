import ListScript.Proofs.Eval.Evolution
import ListScript.Proofs.Lists.Contents
import ListScript.Proofs.Scope.Assignment

/-!
# What the machine stores

Values are stored in the slots of scopes and in lists. `Machine.Stores P` says that all of them have
a property `P`. There is one lemma for each action out of which evaluation is built: an action that
is given only values with the property, where it stores what it is given, keeps `Machine.Stores P`.
Loops keep what their parts keep.
-/

namespace ListScript

namespace Scopes

variable {P : Value → Prop}

/-- All slots hold values that have the property. -/
def Holds (P : Value → Prop) (s : Scopes) : Prop := ∀ slot, P (s.read slot)

/-- A value that has the property may be written. -/
theorem Holds.write {s : Scopes} (h : s.Holds P) {value : Value} (hvalue : P value)
    (slot : SlotId) : (s.write slot value).Holds P := by
  intro other
  rw [read_write]
  split
  · exact hvalue
  · exact h other

/-- A new slot may hold a value that has the property. -/
theorem Holds.newSlot {s : Scopes} (h : s.Holds P) {value : Value} (hvalue : P value) :
    (s.newSlot value).2.Holds P := by
  intro other
  rw [read_newSlot]
  split
  · exact hvalue
  · exact h other

/-- An assignment stores its value. -/
theorem Holds.assign {s s' : Scopes} (h : s.Holds P) {id : ScopeId} {name : String} {value : Value}
    (hvalue : P value) {mode : BindingMode} {limit : Option Nat}
    (hs : s.assign id name value mode limit = .ok s') : s'.Holds P := by
  rcases assign_cases hs with ⟨b, -, -, rfl⟩ | ⟨-, rfl⟩
  · exact Holds.write h hvalue b.slot
  · exact h.newSlot hvalue

/-- A frame inherits the values that it copies. -/
theorem Holds.inherit {s : Scopes} (h : s.Holds P) (bindings : Bindings) :
    (s.inherit bindings).2.Holds P := by
  fun_induction Scopes.inherit s bindings with
  | case1 => exact h
  | case2 s name binding rest hlimit ih => exact ih h
  | case3 s name binding rest hlimit limit slot s' hslot rest' s'' hrest ih =>
      rw [hrest] at ih
      apply ih
      split at hslot
      · cases hslot
        exact h
      · cases hslot
        exact h.newSlot (h binding.slot)

/-- A call's frame holds inherited values and the arguments. -/
theorem Holds.openFrame {s : Scopes} (h : s.Holds P) (closure : Closure) {arguments : List Value}
    (harguments : ∀ value ∈ arguments, P value) : (closure.openFrame arguments s).2.Holds P := by
  have hframe : (s.newFrame closure.scope).2.Holds P := h.inherit (s.bindings closure.scope)
  have hdeclare (frame : ScopeId) (entries : List (String × Value)) (s : Scopes) (hs : s.Holds P)
      (hentries : ∀ entry ∈ entries, P entry.2) :
      (entries.foldl (fun s entry => s.declare frame entry.1 entry.2) s).Holds P := by
    induction entries generalizing s with
    | nil => exact hs
    | cons entry rest ih =>
        apply ih
        · exact Holds.newSlot hs (hentries entry List.mem_cons_self)
        · exact fun other hother => hentries other (List.mem_cons_of_mem entry hother)
  apply hdeclare _ _ _ hframe
  intro entry hentry
  exact harguments entry.2 (List.of_mem_zip hentry).2

/-- The functions of the host are plain data. -/
theorem holds_newGlobal (hP : Value.Plain P) : none.newGlobal.2.Holds P := by
  have hnone : none.Holds P := fun _ => hP.null
  exact ((hnone.newSlot (hP.native .print)).newSlot (hP.native .len)).newSlot (hP.native .clock)

end Scopes

/-- What a function of the host yields is plain data. -/
theorem Native.plain_of_call {P : Value → Prop} (hP : Value.Plain P) {native : Native} {now : Clock}
    {heap : Heap} {arguments : List Value} {result : Value × Option String}
    (h : native.call now heap arguments = .ok result) : P result.1 := by
  unfold Native.call at h
  split at h
  · cases h
    exact hP.null
  · cases h
    exact hP.number _
  · split at h
    · cases h
    · split at h
      · cases h
        exact hP.number _
      · cases h

/-- The positions of a value are plain data. -/
theorem Value.of_mem_positions? {P : Value → Prop} (hP : Value.Plain P) {value item : Value}
    {heap : Heap} {items : List Value} (h : value.positions? heap = some items)
    (hmem : item ∈ items) : P item := by
  obtain ⟨n, -, rfl⟩ := Option.map_eq_some_iff.1 h
  obtain ⟨i, -, rfl⟩ := List.mem_map.1 hmem
  exact hP.number _

/-- The elements of a value are those of a list. -/
theorem Value.of_mem_elements? {P : Value → Prop} {value item : Value} {heap : Heap}
    (hheap : heap.Holds P) {items : List Value} (h : value.elements? heap = some items)
    (hmem : item ∈ items) : P item := by
  cases value with
  | list id =>
      cases h
      exact hheap id item hmem
  | _ => cases h

/-- All slots and all lists of the machine hold values that have the property. -/
structure Machine.Stores (P : Value → Prop) (m : Machine) : Prop where
  slots : m.scopes.Holds P
  lists : m.heap.Holds P

/-- Values with a property have what follows from it. -/
theorem Machine.Stores.mono {P Q : Value → Prop} (h : ∀ value, P value → Q value) {m : Machine}
    (hm : m.Stores P) : m.Stores Q :=
  ⟨fun slot => h _ (hm.slots slot), fun id value hmem => h value (hm.lists id value hmem)⟩

namespace Eval

variable {P : Value → Prop} {α : Type} {yields : α → Prop}

/-- The machine after an action that keeps what it stores. -/
theorem stores_after {action : Eval α} (h : Keeps (Machine.Stores P) yields action) {m : Machine}
    (hm : m.Stores P) : (action.after m).Stores P := by
  unfold after
  cases hresult : action m with
  | ok a m' => exact (h.ok hm hresult).1
  | error error m' => exact h.error hm hresult

/-- An action on the heap keeps what it keeps of the heap. -/
theorem keeps_onHeap (span : Span) {action : HeapM α}
    (h : Keeps (Heap.Holds P) yields action) :
    Keeps (Machine.Stores P) yields (onHeap span action) := by
  intro m hm
  simp only [onHeap]
  cases hresult : action m.heap with
  | ok a heap =>
      obtain ⟨hheap, ha⟩ := h.ok hm.lists hresult
      exact ⟨⟨hm.slots, hheap⟩, ha⟩
  | error fault heap => exact ⟨hm.slots, h.error hm.lists hresult⟩

/-- A result that needs no machine is as it is. -/
theorem keeps_ofExcept (span : Span) {result : Except Fault α}
    (h : ∀ a, result = .ok a → yields a) :
    Keeps (Machine.Stores P) yields (ofExcept span result) := by
  cases result with
  | ok a => exact .pure (h a rfl)
  | error fault => exact .throw _

/-- A change of the scopes may keep what the slots hold. -/
theorem keeps_changeScopes {change : Scopes → Scopes}
    (h : ∀ s : Scopes, s.Holds P → (change s).Holds P) :
    Keeps (Machine.Stores P) (fun _ => True) (changeScopes change) :=
  fun m hm => ⟨⟨h m.scopes hm.slots, hm.lists⟩, trivial⟩

/-- A name yields what its slot holds. -/
theorem keeps_lookup (scope : ScopeId) (name : String) (span : Span) :
    Keeps (Machine.Stores P) P (lookup scope name span) := by
  intro m hm
  simp only [lookup, Scopes.lookup?]
  cases m.scopes.binding? scope name with
  | none => exact hm
  | some binding => exact ⟨hm, hm.slots binding.slot⟩

/-- An assignment stores and yields its value. -/
theorem keeps_assign (scope : ScopeId) (name : String) {value : Value} (hvalue : P value)
    (mode : BindingMode) (limit : Option Nat) (span : Span) :
    Keeps (Machine.Stores P) P (assign scope name value mode limit span) := by
  intro m hm
  simp only [assign]
  cases hs : m.scopes.assign scope name value mode limit with
  | ok scopes => exact ⟨⟨hm.slots.assign hvalue hs, hm.lists⟩, hvalue⟩
  | error fault => exact hm

/-- A function of the host yields plain data. -/
theorem keeps_callNative (hP : Value.Plain P) (now : Clock) (native : Native)
    (arguments : List Value) (span : Span) :
    Keeps (Machine.Stores P) P (callNative now native arguments span) := by
  have hperform : Keeps (Machine.Stores P) P (callNative.perform now native arguments span) := by
    intro m hm
    simp only [callNative.perform]
    cases hresult : native.call (fun i => now (m.readings + i)) m.heap arguments with
    | error fault => exact hm
    | ok result => exact ⟨⟨hm.slots, hm.lists⟩, Native.plain_of_call hP hresult⟩
  intro m hm
  simp only [callNative]
  cases native.arity? with
  | none => exact hperform m hm
  | some expected =>
      by_cases harity : expected = arguments.length
      · simpa only [if_pos harity] using hperform m hm
      · simpa only [if_neg harity] using hm

/-- Cleaning up after an action keeps what the action keeps. -/
theorem keeps_afterwards {action : Eval α} (haction : Keeps (Machine.Stores P) yields action)
    {cleanup : Machine → Machine} (h : ∀ m, m.Stores P → (cleanup m).Stores P) :
    Keeps (Machine.Stores P) yields (afterwards action cleanup) := by
  intro m hm
  simp only [afterwards]
  cases hresult : action m with
  | ok a m' =>
      obtain ⟨hm', ha⟩ := haction.ok hm hresult
      exact ⟨h m' hm', ha⟩
  | error error m' => exact h m' (haction.error hm hresult)

/-- Cleaning up after an action that fails keeps what the action keeps. -/
theorem keeps_onFailure {action : Eval α} (haction : Keeps (Machine.Stores P) yields action)
    {cleanup : Machine → Machine} (h : ∀ m, m.Stores P → (cleanup m).Stores P) :
    Keeps (Machine.Stores P) yields (onFailure action cleanup) := by
  intro m hm
  simp only [onFailure]
  cases hresult : action m with
  | ok a m' => exact haction.ok hm hresult
  | error error m' => exact h m' (haction.error hm hresult)

/-- A place yields what it holds. -/
theorem keeps_read (hP : Value.Plain P) (scope : ScopeId) (span : Span) (place : Place) :
    Keeps (Machine.Stores P) P (place.read scope span) := by
  cases place with
  | named name => exact keeps_lookup scope name span
  | element target index => exact keeps_onHeap span (HeapM.keeps_readIndex hP target index)

/-- A place that may hold nothing yields null then. -/
theorem keeps_peek (hP : Value.Plain P) (scope : ScopeId) (span : Span) (place : Place) :
    Keeps (Machine.Stores P) P (orElse (place.read scope span) .null) := by
  intro m hm
  have hread := keeps_read hP scope span place
  simp only [orElse]
  cases hresult : place.read scope span m with
  | ok a m' => exact hread.ok hm hresult
  | error error m' => exact ⟨hread.error hm hresult, hP.null⟩

/-- A value that has the property may be stored in a place. -/
theorem keeps_write (scope : ScopeId) (span : Span) {value : Value} (hvalue : P value)
    (mode : BindingMode) (limit : Option Nat) (place : Place) :
    Keeps (Machine.Stores P) P (place.write scope span value mode limit) := by
  cases place with
  | named name => exact keeps_assign scope name hvalue mode limit span
  | element target index => exact keeps_onHeap span (HeapM.keeps_writeIndex target index hvalue)

/-- Changing a place by one stores a number. -/
theorem keeps_update (hP : Value.Plain P) (scope : ScopeId) (span : Span) (step : Step)
    (place : Place) :
    Keeps (Machine.Stores P) (fun values => P values.1 ∧ P values.2)
      (place.update scope span step) := by
  have hstep (old new : Value) (h : step.apply old = .ok new) : P new := by
    unfold Step.apply at h
    split at h
    · split at h <;> cases h <;> exact hP.number _
    · cases h
  unfold Place.update
  refine .bind (keeps_read hP scope span place) fun old hold => ?_
  refine .bind (keeps_ofExcept span (hstep old)) fun new hnew => ?_
  exact .bind (keeps_write scope span hnew _ _ place) fun _ _ => .pure ⟨hold, hnew⟩

/-- Reading a limit stores nothing. -/
theorem keeps_limit (span : Span) (value : Value) :
    Keeps (Machine.Stores P) (fun _ => True) (limit span value) := by
  unfold limit
  split
  · exact .pure trivial
  · exact .throw _

/-- A condition keeps what its action keeps. -/
theorem keeps_condition (construct : Construct) (span : Span) {action : Eval Value}
    {yields : Value → Prop} (haction : Keeps (Machine.Stores P) yields action) :
    Keeps (Machine.Stores P) (fun _ => True) (condition construct span action) := by
  unfold condition
  refine .bind haction fun value _ => ?_
  split
  · exact .pure trivial
  · exact .throw _

/-- A loop passes on only a signal that its body yielded. -/
theorem eq_control_of_escape {value : Value} {signal : Control}
    (h : Flow.ofValue value = .escape signal) : value = .control signal := by
  cases value with
  | control other =>
      simp only [Flow.ofValue] at h
      split at h
      · cases h
        rfl
      · cases hkind : other.kind <;> simp [hkind] at h
  | _ => cases h

section Loops

variable {yields : Value → Prop} {body : Eval Value}

/-- A loop yields a number or a signal that its body yielded. -/
theorem keeps_loop (hnumber : ∀ x, yields (.number x)) {holds : Eval Bool} {step : Eval Unit}
    (hholds : Keeps (Machine.Stores P) (fun _ => True) holds)
    (hbody : Keeps (Machine.Stores P) yields body)
    (hstep : Keeps (Machine.Stores P) (fun _ => True) step) (limit : Nat) (span : Span)
    (left rounds : Nat) :
    Keeps (Machine.Stores P) yields (loop limit span holds body step left rounds) := by
  induction left generalizing rounds with
  | zero =>
      unfold loop
      refine .bind hholds fun b _ => ?_
      cases b with
      | true => exact .throw _
      | false => exact .pure (hnumber _)
  | succ left ih =>
      unfold loop
      refine .bind hholds fun b _ => ?_
      cases b with
      | false => exact .pure (hnumber _)
      | true =>
          refine .bind hbody fun value hvalue => ?_
          cases hflow : Flow.ofValue value with
          | next => exact .bind hstep fun _ _ => ih (rounds + 1)
          | stop => exact .pure (hnumber _)
          | escape signal =>
              rw [eq_control_of_escape hflow] at hvalue
              exact .pure hvalue

/-- Releasing a name leaves what the slots hold. -/
theorem keeps_release (scope : ScopeId) (name : String) :
    Keeps (Machine.Stores P) (fun _ => True) (changeScopes (·.release scope name)) :=
  keeps_changeScopes fun _ hs => hs

/-- A loop over items yields its total or a signal that its body yielded. -/
theorem keeps_forEach (hbody : Keeps (Machine.Stores P) yields body) (scope : ScopeId)
    (name : String) (span : Span) {total : Value} (htotal : yields total) {items : List Value}
    (hitems : ∀ value ∈ items, P value) :
    Keeps (Machine.Stores P) yields (forEach scope name span body total items) := by
  have hend {value : Value} (hvalue : yields value) :
      Keeps (Machine.Stores P) yields
        (do changeScopes (·.release scope name); return value : Eval Value) :=
    .bind (keeps_release scope name) fun _ _ => .pure hvalue
  induction items with
  | nil => exact hend htotal
  | cons item rest ih =>
      unfold forEach
      refine .bind (keeps_assign scope name (hitems item List.mem_cons_self) _ _ span) fun _ _ => ?_
      refine .bind (keeps_onFailure hbody fun m hm => ⟨hm.slots, hm.lists⟩) fun value hvalue => ?_
      cases hflow : Flow.ofValue value with
      | next => exact ih fun other hother => hitems other (List.mem_cons_of_mem item hother)
      | stop => exact hend htotal
      | escape signal =>
          rw [eq_control_of_escape hflow] at hvalue
          exact hend hvalue

/-- A walk yields a number or a signal that its body yielded. -/
theorem keeps_walkValue (hP : Value.Plain P) (hnumber : ∀ x, yields (.number x))
    (hbody : Keeps (Machine.Stores P) yields body) (ctx : Context) (kind : Walk) (name : String)
    (span bodySpan : Span) (value : Value) :
    Keeps (Machine.Stores P) yields (walkValue ctx kind name span bodySpan body value) := by
  have hwalk {items : List Value} (hitems : ∀ value ∈ items, P value) :
      Keeps (Machine.Stores P) yields (walk ctx.scope name bodySpan body items) := by
    unfold walk
    split
    · exact .pure (hnumber 0)
    · exact keeps_forEach hbody ctx.scope name bodySpan (hnumber _) hitems
  have hget : Keeps (Machine.Stores P) (Machine.Stores P) (get : Eval Machine) :=
    fun m hm => ⟨hm, hm⟩
  unfold walkValue
  refine .bind hget fun m hm => ?_
  cases kind with
  | positions =>
      dsimp only
      split
      · next items hitems => exact hwalk fun item => Value.of_mem_positions? hP hitems
      · exact .throw _
  | elements =>
      dsimp only
      split
      · next items hitems => exact hwalk fun item => Value.of_mem_elements? hm.lists hitems
      · exact .throw _

end Loops

end Eval

end ListScript
