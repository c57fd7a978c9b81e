import ListScript.Text.Inspect

/-!
# Control signals

A signal leaves or resumes enclosing loops. Its carry counts the blocks that it still has to cross.
-/

namespace ListScript

/-- What a control signal does to the loop that it reaches. -/
inductive Control.Kind where
  /-- End the loop. -/
  | stop
  /-- Go on with the loop's next round. -/
  | next
  deriving DecidableEq, Repr

namespace Control.Kind

/-- How the signal is written. -/
def word : Control.Kind → String
  | .stop => "break"
  | .next => "continue"

/-- The signal's name in structural text. -/
def inspect : Control.Kind → String
  | .stop => "Break"
  | .next => "Continue"

end Control.Kind

/-- A control signal on its way. -/
structure Control where
  /-- What it does where it arrives. -/
  kind : Control.Kind
  /-- How many blocks it still crosses. -/
  carry : Nat
  deriving DecidableEq, Repr

end ListScript
