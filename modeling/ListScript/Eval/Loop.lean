import ListScript.Eval.Machine

/-!
# Loops

Loops are built from arbitrary actions for condition, body and step. A body that yields null ends
its loop, and so does a signal to leave it; a signal that has blocks to cross ends the loop too and
goes on outward. A loop yields how many rounds it completed, or for a loop over a list how many
elements that list had.
-/

namespace ListScript

/-- What a loop does after its body yielded a value. -/
inductive Flow where
  /-- Go on with the next round. -/
  | next
  /-- End here. -/
  | stop
  /-- End here and pass a signal on. -/
  | escape (signal : Control)

/-- What a loop does after its body yielded the given value. -/
def Flow.ofValue : Value → Flow
  | .null => .stop
  | .control signal =>
    if 0 < signal.carry then .escape signal
    else
      match signal.kind with
      | .stop => .stop
      | .next => .next
  | _ => .next

/-- What a block that met a signal yields: the signal with one block less to cross, or, at the block
where it arrives, null for leaving and true for going on. -/
def Control.leaveBlock (signal : Control) : Value :=
  if 0 < signal.carry then .control { signal with carry := signal.carry - 1 }
  else
    match signal.kind with
    | .stop => .null
    | .next => .boolean true

namespace Eval

/-- The truth value of a condition. -/
def condition (construct : Construct) (span : Span) (action : Eval Value) : Eval Bool := do
  match ← action with
  | .boolean b => return b
  | other => fail (.nonBooleanCondition construct other.kind) span

/-- Repeat a body and a step as long as a condition holds. `rounds` have been completed, and `left`
more may begin; one too many fails at the body's place. -/
def loop (limit : Nat) (span : Span) (holds : Eval Bool) (body : Eval Value) (step : Eval Unit) :
    (left rounds : Nat) → Eval Value
  | left, rounds => do
    if ← holds then
      match left with
      | 0 => fail (.tooManyIterations limit) span
      | left + 1 =>
        match Flow.ofValue (← body) with
        | .stop => return .number (.ofNat rounds)
        | .escape signal => return .control signal
        | .next =>
          step
          loop limit span holds body step left (rounds + 1)
    else return .number (.ofNat rounds)

/-- Repeat a body with a name bound to each item in turn, yielding `total` at the end. The name is
released however the body ends the loop. -/
def forEach (scope : ScopeId) (name : String) (span : Span) (body : Eval Value) (total : Value) :
    List Value → Eval Value
  | [] => do
    changeScopes (·.release scope name)
    return total
  | item :: rest => do
    let _ ← assign scope name item ⟨false, false⟩ none span
    let release (machine : Machine) : Machine :=
      { machine with scopes := machine.scopes.release scope name }
    match Flow.ofValue (← onFailure body release) with
    | .stop =>
      changeScopes (·.release scope name)
      return total
    | .escape signal =>
      changeScopes (·.release scope name)
      return .control signal
    | .next => forEach scope name span body total rest

/-- Walk a list of items, which may be empty. -/
def walk (scope : ScopeId) (name : String) (span : Span) (body : Eval Value) (items : List Value) :
    Eval Value :=
  if items.isEmpty then return .number 0
  else forEach scope name span body (.number (.ofNat items.length)) items

end Eval

end ListScript
