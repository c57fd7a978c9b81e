/-!
# Bindings by name

The bindings of a scope, at most one for each name, in the order in which the names were first
bound.
-/

namespace ListScript

/-- The identity of a slot, which holds the value of one or more bindings. -/
abbrev SlotId := Nat

/-- What a name is bound to. -/
structure Binding where
  /-- The slot that holds the value. -/
  slot : SlotId
  /-- The binding cannot be written again. -/
  isConst : Bool
  /-- Frames share the slot and do not copy its value. -/
  isRef : Bool
  /-- How many more nested frames inherit the binding; all of them if there is no limit. -/
  limit : Option Nat
  deriving DecidableEq, Repr

/-- The bindings of a scope. -/
abbrev Bindings := List (String × Binding)

namespace Bindings

/-- The binding of a name. -/
def find? (bindings : Bindings) (name : String) : Option Binding := bindings.lookup name

/-- The bindings with the name bound anew. -/
def insert (name : String) (binding : Binding) : Bindings → Bindings
  | [] => [(name, binding)]
  | (other, old) :: rest =>
    if name = other then (name, binding) :: rest else (other, old) :: insert name binding rest

/-- The bindings without the name. -/
def erase (name : String) (bindings : Bindings) : Bindings :=
  bindings.filter fun (other, _) => other ≠ name

/-- The bound names. -/
def names (bindings : Bindings) : List String := bindings.map (·.1)

@[simp]
theorem find?_nil (name : String) : find? [] name = none := rfl

theorem find?_cons (other name : String) (binding : Binding) (rest : Bindings) :
    find? ((other, binding) :: rest) name =
      if name = other then some binding else find? rest name := by
  simp only [find?, List.lookup_cons]
  by_cases h : name = other
  · simp [h]
  · rw [beq_eq_false_iff_ne.2 h, if_neg h]

theorem find?_insert (name other : String) (binding : Binding) (bindings : Bindings) :
    (insert name binding bindings).find? other =
      if other = name then some binding else bindings.find? other := by
  induction bindings with
  | nil => simp [insert, find?_cons]
  | cons head rest ih =>
    obtain ⟨first, old⟩ := head
    unfold insert
    split <;> grind [find?_cons]

theorem find?_erase (name other : String) (bindings : Bindings) :
    (erase name bindings).find? other =
      if other = name then none else bindings.find? other := by
  induction bindings with
  | nil => simp [erase]
  | cons head rest ih =>
    obtain ⟨first, old⟩ := head
    simp only [erase, List.filter_cons] at ih ⊢
    split <;> grind [find?_cons]

end Bindings

end ListScript
