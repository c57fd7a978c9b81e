import ListScript.Lists.Range
import ListScript.Lists.Transfer
import ListScript.Scope.Basic
import ListScript.Value.Method
import ListScript.Value.Native
import ListScript.Value.Operator

/-!
# The machine

The state of an evaluation, and the actions out of which evaluation is built. An action that fails
leaves the machine in the state that it had reached.
-/

namespace ListScript

/-- What an evaluation is told from outside. -/
structure Config where
  /-- How many rounds a loop under a condition may run. -/
  maxIterations : Nat := 5000
  /-- How deeply calls may be nested. -/
  maxCallDepth : Nat := 10000
  /-- The clock that scripts read. -/
  now : Clock := fun _ => 1

/-- The state of an evaluation. -/
structure Machine where
  /-- The lists. -/
  heap : Heap
  /-- The scopes. -/
  scopes : Scopes
  /-- The lines written so far. -/
  output : Array String
  /-- How many calls are open. -/
  depth : Nat
  /-- How often the clock has been read. -/
  readings : Nat

/-- Computations on the machine that may fail at a place of the source. -/
abbrev Eval := EStateM RuntimeError Machine

namespace Eval

/-- Fail at a place of the source. -/
def fail {α : Type} (fault : Fault) (span : Span) : Eval α := throw ⟨fault, span⟩

/-- The result of a computation that needs no machine. -/
def ofExcept {α : Type} (span : Span) : Except Fault α → Eval α
  | .ok a => pure a
  | .error fault => fail fault span

/-- A computation on the heap alone. -/
def onHeap {α : Type} (span : Span) (action : HeapM α) : Eval α := fun machine =>
  let ⟨heap, scopes, output, depth, readings⟩ := machine
  match action heap with
  | .ok a heap => .ok a ⟨heap, scopes, output, depth, readings⟩
  | .error fault heap => .error ⟨fault, span⟩ ⟨heap, scopes, output, depth, readings⟩

/-- A change of the scopes alone. -/
def changeScopes (change : Scopes → Scopes) : Eval Unit :=
  modify fun machine => { machine with scopes := change machine.scopes }

/-- A change of the scopes that opens one. -/
def openScope (change : Scopes → ScopeId × Scopes) : Eval ScopeId := fun machine =>
  let ⟨heap, scopes, output, depth, readings⟩ := machine
  let (id, scopes) := change scopes
  .ok id ⟨heap, scopes, output, depth, readings⟩

/-- The value of a name in a scope. -/
def lookup (scope : ScopeId) (name : String) (span : Span) : Eval Value := fun machine =>
  match machine.scopes.lookup? scope name with
  | some value => .ok value machine
  | none => .error ⟨.undefinedIdentifier name, span⟩ machine

/-- Store a value under a name. -/
def assign (scope : ScopeId) (name : String) (value : Value) (mode : BindingMode)
    (limit : Option Nat) (span : Span) : Eval Value := fun machine =>
  let ⟨heap, scopes, output, depth, readings⟩ := machine
  match scopes.assign scope name value mode limit with
  | .ok scopes => .ok value ⟨heap, scopes, output, depth, readings⟩
  | .error fault => .error ⟨fault, span⟩ ⟨heap, scopes, output, depth, readings⟩

/-- A value made ready to be stored. -/
def settle (span : Span) (value : Value) : Eval Value := ofExcept span value.settle

/-- Call a function of the host, checking the number of arguments first. -/
def callNative (now : Clock) (native : Native) (arguments : List Value) (span : Span) :
    Eval Value := fun machine =>
  match native.arity? with
  | some expected =>
    if expected = arguments.length then perform machine
    else .error ⟨.invalidArgumentCount arguments.length expected, span⟩ machine
  | none => perform machine
where
  /-- Call the function with the readings of the clock that are left, and write its line. -/
  perform : Eval Value := fun machine =>
    match native.call (fun i => now (machine.readings + i)) machine.heap arguments with
    | .error fault => .error ⟨fault, span⟩ machine
    | .ok (value, line) =>
      let ⟨heap, scopes, output, depth, readings⟩ := machine
      .ok value ⟨heap, scopes, line.elim output output.push, depth, native.readings + readings⟩

/-- Do something to the machine after an action, also when that fails. -/
def afterwards {α : Type} (action : Eval α) (cleanup : Machine → Machine) : Eval α := fun machine =>
  match action machine with
  | .ok a machine => .ok a (cleanup machine)
  | .error error machine => .error error (cleanup machine)

/-- Do something to the machine after an action that fails. -/
def onFailure {α : Type} (action : Eval α) (cleanup : Machine → Machine) : Eval α := fun machine =>
  match action machine with
  | .ok a machine => .ok a machine
  | .error error machine => .error error (cleanup machine)

/-- The value of an action, or another one if the action fails. -/
def orElse (action : Eval Value) (default : Value) : Eval Value := fun machine =>
  match action machine with
  | .ok value machine => .ok value machine
  | .error _ machine => .ok default machine

end Eval

end ListScript
