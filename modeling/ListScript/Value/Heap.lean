import ListScript.Value.Fault

/-!
# The heap of lists

A list is shared by everyone who knows its identity. The heap maps identities to elements and only
ever grows; an identity that it does not know stands for the empty list.
-/

namespace ListScript

/-- The lists, by identity. -/
structure Heap where
  /-- The elements of each list. -/
  lists : Array (List Value)

namespace Heap

/-- The heap without lists. -/
def empty : Heap := ⟨#[]⟩

/-- The number of lists. -/
def size (heap : Heap) : Nat := heap.lists.size

/-- The elements of a list. -/
def items (heap : Heap) (id : ListId) : List Value := heap.lists.getD id []

/-- The heap with other elements in a list. -/
def put (heap : Heap) (id : ListId) (items : List Value) : Heap :=
  ⟨heap.lists.setIfInBounds id items⟩

/-- A new list. -/
def alloc (heap : Heap) (items : List Value) : ListId × Heap :=
  (heap.size, ⟨heap.lists.push items⟩)

theorem items_alloc (heap : Heap) (new : List Value) (id : ListId) :
    (heap.alloc new).2.items id = if id = heap.size then new else heap.items id := by
  simp only [items, alloc, size, Array.getD_eq_getD_getElem?, Array.getElem?_push]
  split <;> rfl

theorem items_put (heap : Heap) (id : ListId) (new : List Value) (other : ListId) :
    (heap.put id new).items other =
      if other = id ∧ id < heap.size then new else heap.items other := by
  simp only [items, put, size, Array.getD_eq_getD_getElem?, Array.getElem?_setIfInBounds]
  grind

theorem items_of_size_le {heap : Heap} {id : ListId} (h : heap.size ≤ id) : heap.items id = [] := by
  simp only [items, size, Array.getD_eq_getD_getElem?] at h ⊢
  simp [Array.getElem?_eq_none h]

end Heap

/-- Computations on the heap that may fail. What they did to the heap stays done when they fail. -/
abbrev HeapM := EStateM Fault Heap

namespace HeapM

/-- The elements of a list. -/
def items (id : ListId) : HeapM (List Value) := fun heap => .ok (heap.items id) heap

/-- Give a list other elements. -/
def put (id : ListId) (items : List Value) : HeapM Unit := fun heap => .ok () (heap.put id items)

/-- A new list with the given elements. -/
def newList (items : List Value) : HeapM Value := fun heap =>
  let (id, heap) := heap.alloc items
  .ok (.list id) heap

/-- A new list of the characters of a text. -/
def newText (text : String) : HeapM Value := newList (text.toList.map .character)

/-- The result of a computation that needs no heap. -/
def ofExcept {α : Type} : Except Fault α → HeapM α
  | .ok a => pure a
  | .error fault => throw fault

/-- A list's copy with the same elements; other values stay as they are. -/
def copy : Value → HeapM Value
  | .list id => do newList (← items id)
  | value => pure value

end HeapM

namespace Value

/-- The number of elements of a list. -/
def length? (heap : Heap) : Value → Option Nat
  | .list id => some (heap.items id).length
  | _ => none

/-- The positions of a list's elements. -/
def positions? (heap : Heap) (value : Value) : Option (List Value) :=
  (value.length? heap).map fun n => (List.range n).map fun i => .number (.ofNat i)

/-- The elements of a list. -/
def elements? (heap : Heap) : Value → Option (List Value)
  | .list id => some (heap.items id)
  | _ => none

end Value

end ListScript
