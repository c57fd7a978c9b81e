import ListScript.Eval.Machine

/-!
# Places

A place is a name in a scope, or positions of a list, with list and positions evaluated already.
-/

namespace ListScript

/-- Where a value can be stored. -/
inductive Place where
  /-- A name. -/
  | named (name : String)
  /-- Positions of a list. -/
  | element (target index : Value)

namespace Place

/-- The value that a place holds. -/
def read (scope : ScopeId) (span : Span) : Place → Eval Value
  | .named name => Eval.lookup scope name span
  | .element target index => Eval.onHeap span (HeapM.readIndex target index)

/-- Store a value in a place. -/
def write (scope : ScopeId) (span : Span) (value : Value) (mode : BindingMode)
    (limit : Option Nat) : Place → Eval Value
  | .named name => Eval.assign scope name value mode limit span
  | .element target index => Eval.onHeap span (HeapM.writeIndex target index value)

/-- Store a value in a place without marking the binding. -/
def overwrite (scope : ScopeId) (span : Span) (value : Value) (place : Place) : Eval Value :=
  place.write scope span value ⟨false, false⟩ none

/-- Change a place by one, and yield its value before and after. -/
def update (scope : ScopeId) (span : Span) (step : Step) (place : Place) :
    Eval (Value × Value) := do
  let old ← place.read scope span
  let new ← Eval.ofExcept span (step.apply old)
  let _ ← place.overwrite scope span new
  return (old, new)

end Place

end ListScript
