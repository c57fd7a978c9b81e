import ListScript.Scope.Bindings
import ListScript.Value.Tree

/-!
# Scopes

A scope binds names to slots. Calling a function opens a frame, a scope of its own that inherits the
bindings of the function's scope: a shared binding keeps its slot, any other gets a slot of its own
with the same value. A limit counts the nested frames that still inherit a binding.
-/

namespace ListScript

/-- A scope: its bindings, and the last value that a program yielded in it. -/
structure Scope where
  /-- What names are bound to. -/
  bindings : Bindings
  /-- The last value that a program yielded. -/
  lastOutput : Option Value

/-- All the scopes and the slots that their bindings use. -/
structure Scopes where
  /-- The scopes, by identity. -/
  scopes : Array Scope
  /-- The values of the slots, by identity. -/
  slots : Array Value

namespace Scopes

/-- No scopes. -/
def none : Scopes := ⟨#[], #[]⟩

/-- The bindings of a scope. -/
def bindings (s : Scopes) (id : ScopeId) : Bindings :=
  match s.scopes[id]? with
  | some scope => scope.bindings
  | Option.none => []

/-- The last value that a program yielded in a scope. -/
def lastOutput? (s : Scopes) (id : ScopeId) : Option Value :=
  match s.scopes[id]? with
  | some scope => scope.lastOutput
  | Option.none => Option.none

/-- The value in a slot. -/
def read (s : Scopes) (slot : SlotId) : Value := s.slots.getD slot .null

/-- The binding of a name in a scope. -/
def binding? (s : Scopes) (id : ScopeId) (name : String) : Option Binding :=
  (s.bindings id).find? name

/-- The value that a name is bound to in a scope. -/
def lookup? (s : Scopes) (id : ScopeId) (name : String) : Option Value :=
  (s.binding? id name).map fun binding => s.read binding.slot

/-- The name is bound in the scope. -/
def contains (s : Scopes) (id : ScopeId) (name : String) : Bool := (s.binding? id name).isSome

/-- The scopes with other bindings in one of them. -/
def withBindings (s : Scopes) (id : ScopeId) (change : Bindings → Bindings) : Scopes :=
  { s with scopes := s.scopes.modify id fun scope =>
      { scope with bindings := change scope.bindings } }

/-- The scopes with another value in a slot. -/
def write (s : Scopes) (slot : SlotId) (value : Value) : Scopes :=
  { s with slots := s.slots.setIfInBounds slot value }

/-- A new slot. -/
def newSlot (s : Scopes) (value : Value) : SlotId × Scopes :=
  (s.slots.size, { s with slots := s.slots.push value })

/-- A new scope with the given bindings. -/
def newScope (s : Scopes) (bindings : Bindings) : ScopeId × Scopes :=
  (s.scopes.size, { s with scopes := s.scopes.push ⟨bindings, Option.none⟩ })

/-- Bind a name in a scope to a value in a new slot. -/
def bind (s : Scopes) (id : ScopeId) (name : String) (value : Value) (mode : BindingMode)
    (limit : Option Nat) : Scopes :=
  let (slot, s) := s.newSlot value
  s.withBindings id (.insert name ⟨slot, mode.isConst, mode.isRef, limit⟩)

/-- The binding that an assignment of the given mode and limit leaves. Marks are only ever added,
and only a limit replaces a limit. -/
def remark (binding : Binding) (mode : BindingMode) (limit : Option Nat) : Binding :=
  { binding with
    isConst := binding.isConst || mode.isConst
    isRef := binding.isRef || mode.isRef
    limit := limit.or binding.limit }

/-- Store a value under a name: through the binding that the scope has, unless that is constant, or
else through a new one. -/
def assign (s : Scopes) (id : ScopeId) (name : String) (value : Value) (mode : BindingMode)
    (limit : Option Nat) : Except Fault Scopes :=
  match s.binding? id name with
  | some binding =>
    if binding.isConst then .error (.constantReassignment name)
    else
      .ok ((s.withBindings id (.insert name (remark binding mode limit))).write binding.slot value)
  | Option.none => .ok (s.bind id name value mode limit)

/-- Bind a name to a value in a slot of its own, whatever the scope had bound it to. -/
def declare (s : Scopes) (id : ScopeId) (name : String) (value : Value) : Scopes :=
  s.bind id name value ⟨false, false⟩ Option.none

/-- Remove a name from a scope. -/
def release (s : Scopes) (id : ScopeId) (name : String) : Scopes :=
  s.withBindings id (.erase name)

/-- The bindings that a frame inherits: those whose limit is not used up, with one frame less to go.
A shared binding keeps its slot, any other has its value copied into a new one. -/
def inherit (s : Scopes) : Bindings → Bindings × Scopes
  | [] => ([], s)
  | (name, binding) :: rest =>
    if binding.limit = some 0 then s.inherit rest
    else
      let limit := binding.limit.map (· - 1)
      let (slot, s) := if binding.isRef then (binding.slot, s) else s.newSlot (s.read binding.slot)
      let (rest, s) := s.inherit rest
      ((name, { binding with slot, limit }) :: rest, s)

/-- A new frame of a scope. -/
def newFrame (s : Scopes) (id : ScopeId) : ScopeId × Scopes :=
  let (bindings, s) := s.inherit (s.bindings id)
  s.newScope bindings

/-- Remember a value that a program yielded in a scope. -/
def noteOutput (s : Scopes) (id : ScopeId) (value : Value) : Scopes :=
  { s with scopes := s.scopes.modify id fun scope => { scope with lastOutput := some value } }

/-- The most frames that a limit can count. -/
def mostFrames : Nat := 0xffffffff

/-- The limit that a number stands for; a negative number and not-a-number stand for none. -/
def limitOfNumber (x : Number) : Option Nat :=
  if x.lt 0 || x.isNaN then Option.none else some (x.toNatUpTo mostFrames)

/-- A new scope in which the functions of the host are bound. -/
def newGlobal (s : Scopes) : ScopeId × Scopes :=
  let (id, s) := s.newScope []
  (id, [Native.print, .len, .clock].foldl
    (fun s native => s.declare id native.name (.native native)) s)

/-- The names bound in a scope, sorted, with their values. -/
def contents (s : Scopes) (id : ScopeId) : List (String × Value) :=
  ((s.bindings id).map fun (name, binding) => (name, s.read binding.slot)).mergeSort
    fun a b => a.1 ≤ b.1

/-- The structural text of a scope: the names bound in it. -/
def inspect (s : Scopes) (id : ScopeId) : String :=
  Text.Inspect.record "Environment"
    [("bindings", Text.Inspect.names ((s.contents id).map (·.1)))]

end Scopes

end ListScript
