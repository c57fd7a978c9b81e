import ListScript.Proofs.Lists.Contents

/-!
# Operations that leave the lists alone

Operators, methods, ranges and reading at positions make new lists at most: every list that was
there keeps its elements, also when they fail. `HeapM.Allocates` says so, with one lemma for each
operation.
-/

namespace ListScript

/-- All lists have the elements that they had; there may be more lists. -/
structure Heap.Extends (heap heap' : Heap) : Prop where
  size : heap.size ≤ heap'.size
  items : ∀ id < heap.size, heap'.items id = heap.items id

/-- A heap extends itself. -/
theorem Heap.Extends.refl (heap : Heap) : heap.Extends heap := ⟨Nat.le_refl _, fun _ _ => rfl⟩

/-- Extensions compose. -/
theorem Heap.Extends.trans {heap heap' heap'' : Heap} (h : heap.Extends heap')
    (h' : heap'.Extends heap'') : heap.Extends heap'' where
  size := Nat.le_trans h.size h'.size
  items id hid := (h'.items id (Nat.lt_of_lt_of_le hid h.size)).trans (h.items id hid)

/-- A new list is an extension. -/
theorem Heap.extends_alloc (heap : Heap) (new : List Value) :
    heap.Extends (heap.alloc new).2 where
  size := by simp [Heap.alloc, Heap.size]
  items id hid := by rw [Heap.items_alloc, if_neg (Nat.ne_of_lt hid)]

namespace HeapM

variable {α β : Type}

/-- The operation only ever extends a heap, also when it fails. -/
def Allocates (action : HeapM α) : Prop :=
  ∀ heap : Heap, Keeps heap.Extends (fun _ => True) action

/-- The heap after the operation extends the one before. -/
theorem Allocates.ok {action : HeapM α} (h : action.Allocates) {heap heap' : Heap} {a : α}
    (hrun : action heap = .ok a heap') : heap.Extends heap' :=
  ((h heap).ok (.refl heap) hrun).1

/-- The heap after an operation that fails extends the one before. -/
theorem Allocates.error {action : HeapM α} (h : action.Allocates) {heap heap' : Heap}
    {fault : Fault} (hrun : action heap = .error fault heap') : heap.Extends heap' :=
  (h heap).error (.refl heap) hrun

/-- Operations that only allocate do no more one after the other. -/
theorem Allocates.bind {action : HeapM α} {f : α → HeapM β} (h : action.Allocates)
    (hf : ∀ a, (f a).Allocates) : (action >>= f).Allocates :=
  fun heap => (h heap).bind fun a _ => hf a heap

/-- Yielding a value leaves the heap as it is. -/
theorem allocates_pure (a : α) : (pure a : HeapM α).Allocates := fun _ => .pure trivial

/-- Failing leaves the heap as it is. -/
theorem allocates_throw (fault : Fault) : (throw fault : HeapM α).Allocates := fun _ => .throw fault

/-- A result that does not depend on the heap leaves it as it is. -/
theorem allocates_ofExcept (result : Except Fault α) : (ofExcept result).Allocates :=
  fun _ => keeps_ofExcept fun _ _ => trivial

/-- Reading the elements of a list leaves the heap as it is. -/
theorem allocates_items (id : ListId) : (items id).Allocates := fun _ _ h => ⟨h, trivial⟩

/-- A new list leaves the others as they are. -/
theorem allocates_newList (new : List Value) : (newList new).Allocates :=
  fun _ heap h => ⟨h.trans (heap.extends_alloc new), trivial⟩

/-- A copy of a list is a new one. -/
theorem allocates_copy (value : Value) : (copy value).Allocates := by
  unfold copy
  split
  · exact (allocates_items _).bind allocates_newList
  · exact allocates_pure _

/-- Asking for a list leaves the heap as it is. -/
theorem allocates_expectList (target : Value) : (expectList target).Allocates := by
  unfold expectList
  split
  · exact allocates_pure _
  · exact allocates_throw _

/-- Finding positions leaves the heap as it is. -/
theorem allocates_positions (length : Nat) (index : Value) : (positions length index).Allocates :=
  fun _ => keeps_positions length index

/-- What is read at several positions is put into a new list. -/
theorem allocates_readIndex (target index : Value) : (readIndex target index).Allocates := by
  refine (allocates_expectList target).bind fun id => (allocates_items id).bind fun items => ?_
  refine (allocates_positions items.length index).bind fun positions => ?_
  cases positions with
  | single raw => exact allocates_ofExcept _
  | several raws => exact (allocates_ofExcept _).bind allocates_newList

/-- An operator makes a new list at most. -/
theorem allocates_binary (operator : Binary) (lhs rhs : Value) :
    (binary operator lhs rhs).Allocates := by
  fun_cases binary operator lhs rhs with
  | case1 a b =>
      refine (allocates_items a).bind fun xs => (allocates_items b).bind fun ys => ?_
      exact allocates_newList (xs ++ ys)
  | case2 =>
      intro heap₀ heap hheap
      dsimp only
      cases operator.pureValue? heap lhs rhs with
      | some value => exact ⟨hheap, trivial⟩
      | none => exact hheap

/-- An operator before an operand makes a new list at most. -/
theorem allocates_unary (operator : Unary) (operand : Value) :
    (unary operator operand).Allocates := by
  unfold unary
  split
  · exact allocates_copy _
  · exact allocates_pure _
  · exact allocates_pure _
  · exact allocates_throw _

/-- A range is a new list. -/
theorem allocates_range (first last step : Value) (inclusive : Bool) :
    (range first last step inclusive).Allocates := by
  unfold range
  split
  · split
    · exact allocates_newList _
    · exact allocates_throw _
  · exact allocates_throw _

end HeapM

/-- Methods change no list; what they yield may be a new one. -/
theorem Method.allocates_call (method : Method) (receiver : Value) (arguments : List Value) :
    (method.call receiver arguments).Allocates := by
  have hnumber (result : Except Fault Number) :
      HeapM.Allocates (Value.number <$> HeapM.ofExcept result) := by
    rw [map_eq_pure_bind]
    exact (HeapM.allocates_ofExcept result).bind fun x => HeapM.allocates_pure (Value.number x)
  fun_cases Method.call method receiver arguments with
  | case1 =>
      intro heap₀ heap hheap
      dsimp only
      cases Value.text heap receiver with
      | ok text => exact HeapM.allocates_newList _ heap₀ heap hheap
      | error fault => exact hheap
  | case3 | case4 => exact hnumber _
  | case7 x => exact HeapM.allocates_pure _
  | case9 x => exact HeapM.allocates_pure _
  | case11 id search replacement =>
      intro heap₀ heap hheap
      exact HeapM.allocates_newList _ heap₀ heap hheap
  | case2 | case5 | case6 | case8 | case10 | case12 => exact HeapM.allocates_throw _

end ListScript
