import ListScript.Proofs.Lists.Allocation

/-!
# Operations that fail change no list

Writing, pushing and popping change a list in place, and each of them can fail: for what stands for
the list, for a position that is none, for a value that does not go with the positions. All of that
is found out before the list changes. An operation is `HeapM.Atomic` if a failure leaves every list
the elements that it had. What only allocates is atomic, and so is what never fails; an operation
that first checks and then changes is put together from the two.
-/

namespace ListScript

namespace HeapM

variable {α β : Type}

/-- The operation leaves every list its elements when it fails. -/
def Atomic (action : HeapM α) : Prop :=
  ∀ heap fault heap', action heap = .error fault heap' → heap.Extends heap'

/-- The operation does not fail. -/
def Infallible (action : HeapM α) : Prop :=
  ∀ heap, ∃ a heap', action heap = .ok a heap'

/-- Yielding a value does not fail. -/
theorem infallible_pure (a : α) : (pure a : HeapM α).Infallible := fun heap => ⟨a, heap, rfl⟩

/-- Making a list does not fail. -/
theorem infallible_newList (new : List Value) : (newList new).Infallible :=
  fun _ => ⟨_, _, rfl⟩

/-- What a pop removed can always be yielded. -/
theorem infallible_popped (removed : List Value) : (popped removed).Infallible := by
  unfold popped
  split
  · exact infallible_pure _
  · exact infallible_pure _
  · exact infallible_newList _

/-- Giving a list other elements does not fail, so what follows fails by itself or not at all. -/
theorem Infallible.put {f : Unit → HeapM β} (hf : (f ()).Infallible) (id : ListId)
    (new : List Value) : (put id new >>= f).Infallible :=
  fun heap => hf (heap.put id new)

/-- What does not fail is atomic. -/
theorem Infallible.atomic {action : HeapM α} (h : action.Infallible) : action.Atomic := by
  intro heap fault heap' hrun
  obtain ⟨a, heap'', hok⟩ := h heap
  rw [hok] at hrun
  cases hrun

/-- What only allocates is atomic. -/
theorem Allocates.atomic {action : HeapM α} (h : action.Allocates) : action.Atomic :=
  fun _ _ _ => h.error

/-- A check may come before an atomic operation. -/
theorem Allocates.bind_atomic {x : HeapM α} {f : α → HeapM β} (hx : x.Allocates)
    (hf : ∀ a, (f a).Atomic) : (x >>= f).Atomic := by
  intro heap fault heap' hrun
  change EStateM.bind x f heap = _ at hrun
  unfold EStateM.bind at hrun
  cases hresult : x heap with
  | error e heap₁ =>
      rw [hresult] at hrun
      cases hrun
      exact hx.error hresult
  | ok a heap₁ =>
      rw [hresult] at hrun
      exact (hx.ok hresult).trans (hf a heap₁ fault heap' hrun)

/-- After a failure nothing else happens. -/
theorem atomic_throw_bind (fault : Fault) (f : α → HeapM β) :
    ((throw fault : HeapM α) >>= f).Atomic := by
  intro heap fault' heap' hrun
  cases hrun
  exact .refl heap

/-- A value that is no list is put into a new one. -/
theorem allocates_asList (target : Value) : (asList target).Allocates := by
  cases target with
  | list id => exact allocates_pure id
  | _ => exact fun _ heap h => ⟨h.trans (heap.extends_alloc _), trivial⟩

/-- Writing finds out what is wrong before it changes the list. -/
theorem atomic_writeIndex (target index value : Value) :
    (writeIndex target index value).Atomic := by
  have hend : (pure value : HeapM Value).Infallible := infallible_pure value
  refine (allocates_expectList target).bind_atomic fun id => ?_
  refine (allocates_items id).bind_atomic fun old => ?_
  refine (allocates_positions old.length index).bind_atomic fun positions => ?_
  split
  · exact (Infallible.put hend id _).atomic
  · exact hend.atomic
  · split
    · next source =>
      refine (allocates_items source).bind_atomic fun new => ?_
      split
      · exact atomic_throw_bind _ _
      · exact (Infallible.put hend id _).atomic
    · exact atomic_throw_bind _ _

/-- Pushing finds out what is wrong before it changes the list. -/
theorem atomic_push (target index value : Value) : (push target index value).Atomic := by
  refine (allocates_asList target).bind_atomic fun id => ?_
  refine (allocates_items id).bind_atomic fun old => ?_
  refine (allocates_positions old.length index).bind_atomic fun positions => ?_
  have hput (new : List Value) : (do put id new; return .list id : HeapM Value).Atomic :=
    (Infallible.put (infallible_pure (Value.list id)) id new).atomic
  split
  · split
    · exact hput _
    · exact hput _
  · exact hput _
  · next source =>
    refine (allocates_items source).bind_atomic fun new => ?_
    split
    · exact atomic_throw_bind _ _
    · exact hput _
  · exact hput _

/-- Popping finds out what is wrong before it changes the list. -/
theorem atomic_pop (target index : Value) : (pop target index).Atomic := by
  unfold pop
  split
  · next id =>
    refine (allocates_items id).bind_atomic fun old => ?_
    refine (allocates_positions old.length index).bind_atomic fun positions => ?_
    dsimp only
    split
    · exact (allocates_throw _).atomic
    · exact (Infallible.put (infallible_popped _) id _).atomic
  · exact (infallible_pure _).atomic

/-- A write, a push or a pop that fails has changed no list. Target, index and value are arbitrary,
so they may be the same list, or lists that contain one another. -/
theorem changes_atomic (heap : Heap) (target index value : Value) (operation : HeapM Value)
    (hoperation : operation ∈
      [writeIndex target index value, push target index value, pop target index])
    {fault : Fault} {heap' : Heap} (hrun : operation heap = .error fault heap') :
    ∀ id < heap.size, heap'.items id = heap.items id := by
  have hatomic : operation.Atomic := by
    simp only [List.mem_cons, List.not_mem_nil, or_false] at hoperation
    rcases hoperation with rfl | rfl | rfl
    · exact atomic_writeIndex target index value
    · exact atomic_push target index value
    · exact atomic_pop target index
  exact (hatomic heap fault heap' hrun).items

/-- A list whose last element is no position keeps its elements when it is written, pushed or popped
at its own elements. -/
theorem changes_atomic_itself :
    let items : List Value := [.number (.infinite true), .number (.infinite false), .null]
    ∀ operation ∈ [writeIndex (.list 0) (.list 0) (.list 0), push (.list 0) (.list 0) (.list 0),
        pop (.list 0) (.list 0)],
      ∃ heap', operation ⟨#[items]⟩ = .error (.nonNumericIndex .list .null) heap' ∧
        heap'.items 0 = items := by
  intro items operation hoperation
  obtain ⟨heap', hrun⟩ : ∃ heap',
      operation ⟨#[items]⟩ = .error (.nonNumericIndex .list .null) heap' := by
    have hcases := hoperation
    simp only [List.mem_cons, List.not_mem_nil, or_false] at hcases
    rcases hcases with rfl | rfl | rfl
    · exact ⟨_, rfl⟩
    · exact ⟨_, rfl⟩
    · exact ⟨_, rfl⟩
  exact ⟨heap', hrun, changes_atomic _ _ _ _ operation hoperation hrun 0 (by decide)⟩

end HeapM

end ListScript
