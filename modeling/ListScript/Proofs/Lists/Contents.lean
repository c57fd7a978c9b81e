import ListScript.Lists.Range
import ListScript.Lists.Transfer
import ListScript.Value.Method
import ListScript.Value.Operator

/-!
# What lists come to contain

Operations on lists move values about: every element that they leave in a list, and every value that
they yield, is one that they were given or met in a list, or plain data that they made. So a
property that plain data has, an `Value.Plain` one, stays a property of all elements of all lists:
there is one lemma for each operation, from `HeapM.keeps_readIndex` to `Method.keeps_call`. Only a
push puts its target into a list, and asks for the property of the target: `HeapM.keeps_push`.
-/

namespace ListScript

/-- From a state with the invariant the action comes to a state with the invariant, also when it
fails, and what it yields has the given property. -/
def Keeps {ε σ α : Type} (invariant : σ → Prop) (yields : α → Prop) (action : EStateM ε σ α) :
    Prop :=
  ∀ state, invariant state →
    match action state with
    | .ok a state' => invariant state' ∧ yields a
    | .error _ state' => invariant state'

namespace Keeps

variable {ε σ α β : Type} {invariant : σ → Prop} {yields : α → Prop} {yields' : β → Prop}

/-- What a successful action comes to. -/
theorem ok {x : EStateM ε σ α} (hx : Keeps invariant yields x) {state state' : σ} {a : α}
    (hstate : invariant state) (h : x state = .ok a state') : invariant state' ∧ yields a := by
  have hkeeps := hx state hstate
  rw [h] at hkeeps
  exact hkeeps

/-- What an action that fails comes to. -/
theorem error {x : EStateM ε σ α} (hx : Keeps invariant yields x) {state state' : σ} {e : ε}
    (hstate : invariant state) (h : x state = .error e state') : invariant state' := by
  have hkeeps := hx state hstate
  rw [h] at hkeeps
  exact hkeeps

/-- A value that has the property may be yielded. -/
theorem pure {a : α} (h : yields a) : Keeps invariant yields (Pure.pure a : EStateM ε σ α) :=
  fun _ hstate => ⟨hstate, h⟩

/-- A failure yields nothing. -/
theorem throw (error : ε) : Keeps invariant yields (throw error : EStateM ε σ α) :=
  fun _ hstate => hstate

/-- A sequence keeps what its parts keep. -/
theorem bind {x : EStateM ε σ α} {f : α → EStateM ε σ β} (hx : Keeps invariant yields x)
    (hf : ∀ a, yields a → Keeps invariant yields' (f a)) :
    Keeps invariant yields' (x >>= f) := by
  intro state hstate
  show match EStateM.bind x f state with
    | .ok a state' => invariant state' ∧ yields' a
    | .error _ state' => invariant state'
  unfold EStateM.bind
  cases hresult : x state with
  | ok a state' =>
      obtain ⟨hstate', ha⟩ := hx.ok hstate hresult
      exact hf a ha state' hstate'
  | error e state' => exact hx.error hstate hresult

/-- A failure ends a sequence. -/
theorem throw_bind (error : ε) (f : α → EStateM ε σ β) :
    Keeps invariant yields' (MonadExcept.throw error >>= f) :=
  fun _ hstate => hstate

/-- What is yielded may be known by less. -/
theorem mono {x : EStateM ε σ α} {more : α → Prop} (hx : Keeps invariant yields x)
    (h : ∀ a, yields a → more a) : Keeps invariant more x := by
  intro state hstate
  cases hresult : x state with
  | ok a state' =>
      obtain ⟨hstate', ha⟩ := hx.ok hstate hresult
      exact ⟨hstate', h a ha⟩
  | error e state' => exact hx.error hstate hresult

end Keeps

/-- A property of values that all plain data has. -/
structure Value.Plain (P : Value → Prop) : Prop where
  null : P .null
  number : ∀ x, P (.number x)
  boolean : ∀ b, P (.boolean b)
  character : ∀ c, P (.character c)
  list : ∀ id, P (.list id)
  native : ∀ native, P (.native native)

/-- All elements of all lists have the property. -/
def Heap.Holds (P : Value → Prop) (heap : Heap) : Prop := ∀ id, ∀ value ∈ heap.items id, P value

/-- The heap without lists has no elements. -/
theorem Heap.Holds.empty (P : Value → Prop) : Heap.empty.Holds P := by
  intro id value hmem
  rw [items_of_size_le (Nat.zero_le id)] at hmem
  cases hmem

section Elements

variable {items : List Value} {value : Value}

/-- The element at a position is one of the elements. -/
theorem mem_of_elementAt {raw : Number} (h : elementAt items raw = .ok value) : value ∈ items := by
  unfold elementAt at h
  dsimp only at h
  split at h
  · cases h
  · split at h
    · next item hitem =>
      cases h
      exact List.mem_of_getElem? hitem
    · cases h

/-- The results of a check of several things are results of checking one of them. -/
theorem exists_of_mem_mapM {ε α β : Type} {check : α → Except ε β} {inputs : List α}
    {results : List β} (h : inputs.mapM check = .ok results) {b : β} (hb : b ∈ results) :
    ∃ a, check a = .ok b := by
  induction inputs generalizing results with
  | nil =>
      cases h
      cases hb
  | cons a rest ih =>
      rw [List.mapM_cons] at h
      cases hfirst : check a with
      | error error => simp [hfirst, bind, Except.bind] at h
      | ok first =>
          cases hrest : rest.mapM check with
          | error error => simp [hfirst, hrest, bind, Except.bind] at h
          | ok others =>
              have hresults : first :: others = results := by
                simpa [hfirst, hrest, bind, Except.bind, pure, Except.pure] using h
              subst hresults
              rcases List.mem_cons.1 hb with rfl | hmem
              · exact ⟨a, hfirst⟩
              · exact ih hrest hmem

/-- After a write there are the old elements and the written one. -/
theorem mem_setOrAppend {position : Nat} {new : Value}
    (h : value ∈ setOrAppend items position new) : value ∈ items ∨ value = new := by
  unfold setOrAppend at h
  split at h
  · exact List.mem_or_eq_of_mem_set h
  · simpa using h

/-- After several writes there are the old elements and the written ones. -/
theorem mem_writeAll {writes : List (Nat × Value)} (h : value ∈ writeAll items writes) :
    value ∈ items ∨ ∃ write ∈ writes, value = write.2 := by
  unfold writeAll at h
  induction writes generalizing items with
  | nil => exact .inl h
  | cons write rest ih =>
      rcases ih h with hmem | ⟨other, hother, heq⟩
      · rcases mem_setOrAppend hmem with hold | hnew
        · exact .inl hold
        · exact .inr ⟨write, List.mem_cons_self, hnew⟩
      · exact .inr ⟨other, List.mem_cons_of_mem write hother, heq⟩

/-- After an insertion there are the old elements and the new one. -/
theorem mem_insertAt {position : Nat} {new : Value} :
    value ∈ insertAt items position new ↔ value ∈ items ∨ value = new := by
  unfold insertAt
  rw [List.mem_insertIdx (Nat.min_le_right _ _), or_comm]

/-- After several insertions there are the old elements and the new ones. -/
theorem mem_insertAll {inserts : List (Nat × Value)} :
    value ∈ insertAll items inserts ↔ value ∈ items ∨ ∃ insert ∈ inserts, value = insert.2 := by
  unfold insertAll
  induction inserts generalizing items with
  | nil => simp
  | cons insert rest ih =>
      rw [List.foldl_cons, ih, mem_insertAt]
      simp [or_assoc]

/-- A list that is turned around has the same elements. -/
theorem mem_rotate {count : Nat} : value ∈ rotate items count ↔ value ∈ items := by
  unfold rotate
  rw [List.mem_append, or_comm, ← List.mem_append, List.take_append_drop]

/-- What a removal leaves and what it takes were among the elements. -/
theorem mem_of_removeAll {raws : List Number} :
    (value ∈ (removeAll items raws).1 → value ∈ items) ∧
      (value ∈ (removeAll items raws).2 → value ∈ items) := by
  fun_induction removeAll items raws with
  | case1 items => exact ⟨id, nofun⟩
  | case2 items raw raws position hnone ih => exact ih
  | case3 items raw raws position item hitem rest removed hrest ih =>
      rw [hrest] at ih
      have herase {v : Value} (h : v ∈ items.eraseIdx position) : v ∈ items :=
        List.mem_of_mem_eraseIdx h
      refine ⟨fun h => herase (ih.1 h), fun h => ?_⟩
      rcases List.mem_cons.1 h with rfl | hmem
      · exact List.mem_of_getElem? hitem
      · exact herase (ih.2 hmem)

/-- After a replacement there are elements and replacing values. -/
theorem mem_replaceFirst {heap : Heap} {search replacement : List Value}
    (h : value ∈ Method.replaceFirst heap items search replacement) :
    value ∈ items ∨ value ∈ replacement := by
  unfold Method.replaceFirst at h
  split at h
  · exact .inl h
  · simp only [List.mem_append] at h
    rcases h with (htake | hnew) | hdrop
    · exact .inl (List.mem_of_mem_take htake)
    · exact .inr hnew
    · exact .inl (List.mem_of_mem_drop hdrop)

end Elements

/-- Numbers, truth values and results of comparisons are plain data. -/
theorem Binary.plain_of_pureValue? {P : Value → Prop} (hP : Value.Plain P) {heap : Heap}
    {operator : Binary} {lhs rhs value : Value}
    (h : operator.pureValue? heap lhs rhs = some value) : P value := by
  unfold pureValue? at h
  split at h
  · obtain ⟨equal, -, rfl⟩ := Option.map_eq_some_iff.1 h
    exact hP.boolean equal
  · split at h
    · unfold onNumbers at h
      split at h <;> cases h <;> first | exact hP.number _ | exact hP.boolean _
    · unfold onBooleans at h
      split at h <;> cases h <;> exact hP.boolean _
    · cases h

namespace HeapM

variable {P Q : Value → Prop}

/-- The elements of a list have the property. -/
theorem keeps_items (id : ListId) :
    Keeps (Heap.Holds P) (fun items => ∀ value ∈ items, P value) (items id) :=
  fun _ hheap => ⟨hheap, hheap id⟩

/-- Elements that have the property may be put into a list. -/
theorem keeps_put {new : List Value} (hnew : ∀ value ∈ new, P value) (id : ListId) :
    Keeps (Heap.Holds P) (fun _ => True) (put id new) := by
  intro heap hheap
  refine ⟨fun other value hmem => ?_, trivial⟩
  rw [Heap.items_put] at hmem
  split at hmem
  · exact hnew value hmem
  · exact hheap other value hmem

/-- A new list may have elements that have the property. -/
theorem holds_alloc {heap : Heap} (hheap : heap.Holds P) {new : List Value}
    (hnew : ∀ value ∈ new, P value) : (heap.alloc new).2.Holds P := by
  intro id value hmem
  rw [Heap.items_alloc] at hmem
  split at hmem
  · exact hnew value hmem
  · exact hheap id value hmem

/-- A new list of elements that have the property is plain data. -/
theorem keeps_newList (hQ : Value.Plain Q) {new : List Value} (hnew : ∀ value ∈ new, P value) :
    Keeps (Heap.Holds P) Q (newList new) :=
  fun heap hheap => ⟨holds_alloc hheap hnew, hQ.list heap.size⟩

/-- A new text is plain data. -/
theorem keeps_newText (hP : Value.Plain P) (hQ : Value.Plain Q) (text : String) :
    Keeps (Heap.Holds P) Q (newText text) := by
  apply keeps_newList hQ
  intro value hmem
  obtain ⟨c, -, rfl⟩ := List.mem_map.1 hmem
  exact hP.character c

/-- A result that needs no heap is as it is. -/
theorem keeps_ofExcept {invariant : Heap → Prop} {α : Type} {yields : α → Prop}
    {result : Except Fault α} (h : ∀ a, result = .ok a → yields a) :
    Keeps invariant yields (ofExcept result) := by
  cases result with
  | ok a => exact .pure (h a rfl)
  | error fault => exact .throw fault

/-- A copy is a new list or the value itself. -/
theorem keeps_copy (hQ : Value.Plain Q) {value : Value} (hvalue : Q value) :
    Keeps (Heap.Holds P) Q (copy value) := by
  unfold copy
  split
  · exact .bind (keeps_items _) fun items hitems => keeps_newList hQ hitems
  · exact .pure hvalue

/-- Finding out which list a value is changes nothing. -/
theorem keeps_expectList (target : Value) :
    Keeps (Heap.Holds P) (fun _ => True) (expectList target) := by
  unfold expectList
  split
  · exact .pure trivial
  · exact .throw _

/-- Finding out positions changes nothing. -/
theorem keeps_positions {invariant : Heap → Prop} (length : Nat) (index : Value) :
    Keeps invariant (fun _ => True) (positions length index) :=
  fun heap hheap => keeps_ofExcept (fun _ _ => trivial) heap hheap

/-- Reading yields an element or a new list of elements. -/
theorem keeps_readIndex (hP : Value.Plain P) (target index : Value) :
    Keeps (Heap.Holds P) P (readIndex target index) := by
  unfold readIndex
  refine .bind (keeps_expectList target) fun id _ => ?_
  refine .bind (keeps_items id) fun items hitems => ?_
  refine .bind (keeps_positions items.length index) fun positions _ => ?_
  cases positions with
  | single raw => exact keeps_ofExcept fun value h => hitems value (mem_of_elementAt h)
  | several raws =>
      have hfound (found : List Value) (h : raws.mapM (elementAt items) = .ok found) :
          ∀ value ∈ found, P value := by
        intro value hmem
        obtain ⟨raw, hraw⟩ := exists_of_mem_mapM h hmem
        exact hitems value (mem_of_elementAt hraw)
      exact .bind (keeps_ofExcept hfound) fun found hfound => keeps_newList hP hfound

/-- Writing puts the value, or elements of it, into a list. -/
theorem keeps_writeIndex (target index : Value) {value : Value} (hvalue : P value) :
    Keeps (Heap.Holds P) P (writeIndex target index value) := by
  unfold writeIndex
  refine .bind (keeps_expectList target) fun id _ => ?_
  refine .bind (keeps_items id) fun old hold => ?_
  refine .bind (keeps_positions old.length index) fun positions _ => ?_
  have hend : Keeps (Heap.Holds P) P (pure value : HeapM Value) := .pure hvalue
  split
  · next raw =>
    refine .bind (keeps_put (fun other hother => ?_) id) fun _ _ => hend
    rcases mem_setOrAppend hother with hmem | rfl
    · exact hold other hmem
    · exact hvalue
  · exact hend
  · next raws hraws =>
    split
    · next source =>
      refine .bind (keeps_items source) fun new hnew => ?_
      split
      · exact .throw_bind _ _
      · refine .bind (keeps_put (fun other hother => ?_) id) fun _ _ => hend
        rcases mem_writeAll hother with hmem | ⟨write, hwrite, rfl⟩
        · exact hold other hmem
        · exact hnew _ (List.of_mem_zip hwrite).2
    · exact .throw_bind _ _

/-- What a value is pushed into is a list, or becomes the element of a new one. -/
theorem keeps_asList {target : Value} (htarget : P target) :
    Keeps (Heap.Holds P) (fun _ => True) (asList target) := by
  have hsingle : ∀ value ∈ [target], P value := by
    intro value hmem
    rw [List.mem_singleton.1 hmem]
    exact htarget
  cases target with
  | list id => exact .pure trivial
  | _ => exact fun heap hheap => ⟨holds_alloc hheap hsingle, trivial⟩

/-- Pushing puts the value, or elements of it, into the target, which becomes a list if it is
none. -/
theorem keeps_push (hP : Value.Plain P) {target : Value} (htarget : P target) (index : Value)
    {value : Value} (hvalue : P value) : Keeps (Heap.Holds P) P (push target index value) := by
  unfold push
  refine .bind (keeps_asList htarget) fun id _ => ?_
  refine .bind (keeps_items id) fun old hold => ?_
  refine .bind (keeps_positions old.length index) fun positions _ => ?_
  have hput {new : List Value} (hnew : ∀ other ∈ new, P other) :
      Keeps (Heap.Holds P) P (do put id new; return .list id : HeapM Value) :=
    .bind (keeps_put hnew id) fun _ _ => .pure (hP.list id)
  have hinsert (raw : Number) :
      ∀ other ∈ insertAt old (pushPosition old.length raw) value, P other := by
    intro other hother
    rcases mem_insertAt.1 hother with hmem | rfl
    · exact hold other hmem
    · exact hvalue
  split
  · next raw source =>
    split
    · exact hput fun other hother => hold other (mem_rotate.1 hother)
    · exact hput (hinsert raw)
  · next raw _ => exact hput (hinsert raw)
  · next raws source =>
    refine .bind (keeps_items source) fun new hnew => ?_
    split
    · exact .throw_bind _ _
    · apply hput
      intro other hother
      rcases mem_insertAll.1 hother with hmem | ⟨insert, hinsert, rfl⟩
      · exact hold other hmem
      · exact hnew _ (List.of_mem_zip hinsert).2
  · next raws _ =>
    apply hput
    intro other hother
    rcases mem_insertAll.1 hother with hmem | ⟨insert, hinsert, rfl⟩
    · exact hold other hmem
    · obtain ⟨raw, -, rfl⟩ := List.mem_map.1 hinsert
      exact hvalue

/-- What a list contains stays in it when a value is pushed. -/
theorem keeps_mem_push {member : Value} {id : ListId} (index value : Value) :
    Keeps (fun heap : Heap => member ∈ heap.items id) (fun _ => True)
      (push (.list id) index value) := by
  have hput {new : List Value} (hnew : member ∈ new) :
      Keeps (fun heap : Heap => member ∈ heap.items id) (fun _ => True)
        (do put id new; return .list id : HeapM Value) := by
    intro heap hheap
    refine ⟨?_, trivial⟩
    show member ∈ (heap.put id new).items id
    rw [Heap.items_put]
    split
    · exact hnew
    · exact hheap
  have hid : Keeps (fun heap : Heap => member ∈ heap.items id) (· = id) (asList (.list id)) :=
    .pure rfl
  have hget : Keeps (fun heap : Heap => member ∈ heap.items id) (member ∈ ·) (items id) :=
    fun _ hheap => ⟨hheap, hheap⟩
  unfold push
  refine .bind hid fun found hfound => ?_
  rw [hfound]
  refine .bind hget fun old hold => .bind (keeps_positions old.length index) fun _ _ => ?_
  split
  · split
    · exact hput (mem_rotate.2 hold)
    · exact hput (mem_insertAt.2 (.inl hold))
  · exact hput (mem_insertAt.2 (.inl hold))
  · next source =>
    have hsource : Keeps (fun heap : Heap => member ∈ heap.items id) (fun _ => True)
        (items source) := fun _ hheap => ⟨hheap, trivial⟩
    refine .bind hsource fun new _ => ?_
    split
    · exact .throw_bind _ _
    · exact hput (mem_insertAll.2 (.inl hold))
  · exact hput (mem_insertAll.2 (.inl hold))

/-- Pushing into a value that is no list is pushing into a new list of it. -/
theorem push_of_not_list {target : Value} (h : target.isIndexable = false) (index value : Value)
    (heap : Heap) :
    push target index value heap = push (.list heap.size) index value (heap.alloc [target]).2 := by
  cases target with
  | list id => cases h
  | _ => rfl

/-- What was popped is yielded as it is or in a new list. -/
theorem keeps_popped (hP : Value.Plain P) {removed : List Value}
    (hremoved : ∀ value ∈ removed, P value) : Keeps (Heap.Holds P) P (popped removed) := by
  unfold popped
  split
  · exact .pure hP.null
  · exact .pure (hremoved _ List.mem_cons_self)
  · exact keeps_newList hP hremoved

/-- Popping yields elements, or the target if it is no list. -/
theorem keeps_pop (hP : Value.Plain P) (hQ : ∀ value, P value → Q value) {target : Value}
    (htarget : Q target) (index : Value) : Keeps (Heap.Holds P) Q (pop target index) := by
  unfold pop
  split
  · next id =>
    refine .bind (keeps_items id) fun old hold => ?_
    refine .bind (keeps_positions old.length index) fun positions _ => ?_
    dsimp only
    split
    · exact .throw _
    · refine .bind (keeps_put (fun value hmem => hold value (mem_of_removeAll.1 hmem)) id) ?_
      intro _ _
      exact (keeps_popped hP fun value hmem => hold value (mem_of_removeAll.2 hmem)).mono hQ
  · exact .pure htarget

/-- An operator between operands yields plain data. -/
theorem keeps_binary (hP : Value.Plain P) (operator : Binary) (lhs rhs : Value) :
    Keeps (Heap.Holds P) P (binary operator lhs rhs) := by
  fun_cases binary operator lhs rhs with
  | case1 a b =>
      refine .bind (keeps_items a) fun xs hxs => .bind (keeps_items b) fun ys hys => ?_
      refine keeps_newList hP fun value hmem => ?_
      rcases List.mem_append.1 hmem with hx | hy
      · exact hxs value hx
      · exact hys value hy
  | case2 =>
      intro heap hheap
      dsimp only
      cases hvalue : operator.pureValue? heap lhs rhs with
      | some value => exact ⟨hheap, Binary.plain_of_pureValue? hP hvalue⟩
      | none => exact hheap

/-- An operator before an operand yields plain data, or the operand if it asks for a copy. -/
theorem keeps_unary (hQ : Value.Plain Q) (operator : Unary) {operand : Value}
    (hoperand : operator = .copy → Q operand) :
    Keeps (Heap.Holds P) Q (unary operator operand) := by
  unfold unary
  split
  · exact keeps_copy hQ (hoperand rfl)
  · exact .pure (hQ.number _)
  · exact .pure (hQ.boolean _)
  · exact .throw _

/-- A range is plain data. -/
theorem keeps_range (hP : Value.Plain P) (first last step : Value) (inclusive : Bool) :
    Keeps (Heap.Holds P) P (range first last step inclusive) := by
  unfold range
  split
  · split
    · refine keeps_newList hP fun value hmem => ?_
      obtain ⟨x, -, rfl⟩ := List.mem_map.1 hmem
      exact hP.number x
    · exact .throw _
  · exact .throw _

end HeapM

/-- A method yields plain data; it puts elements and arguments into new lists. -/
theorem Method.keeps_call {P : Value → Prop} (hP : Value.Plain P) (method : Method)
    (receiver : Value) {arguments : List Value} (harguments : ∀ value ∈ arguments, P value) :
    Keeps (Heap.Holds P) P (method.call receiver arguments) := by
  have hnumber (result : Except Fault Number) :
      Keeps (Heap.Holds P) P (Value.number <$> HeapM.ofExcept result) := by
    cases result with
    | ok x => exact .pure (hP.number x)
    | error fault => exact .throw fault
  fun_cases Method.call method receiver arguments with
  | case1 =>
      intro heap hheap
      dsimp only
      cases Value.text heap receiver with
      | ok text => exact HeapM.keeps_newText hP hP text heap hheap
      | error fault => exact hheap
  | case3 | case4 => exact hnumber _
  | case7 x => exact .pure (hP.number x.ceil)
  | case9 x => exact .pure (hP.number x.floor)
  | case11 id search replacement =>
      intro heap hheap
      refine HeapM.keeps_newList hP (fun value hmem => ?_) heap hheap
      rcases mem_replaceFirst hmem with hitem | hnew
      · exact hheap id value hitem
      · unfold asItems at hnew
        split at hnew
        · next other => exact hheap other value hnew
        · rw [List.mem_singleton.1 hnew]
          exact harguments replacement (by simp)
  | case2 | case5 | case6 | case8 | case10 | case12 => exact .throw _

end ListScript
