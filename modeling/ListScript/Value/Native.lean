import ListScript.Value.Tree

/-!
# Functions of the host

The functions that a script finds bound: writing to the output, the length of a list, the time.
-/

namespace ListScript

/-- What the clock of the host shows, in seconds, at one reading after the other. -/
abbrev Clock := Nat → Number

namespace Native

/-- The number of arguments that the function takes; any number if there is none. -/
def arity? : Native → Option Nat
  | .print => none
  | .len => some 1
  | .clock => some 0

/-- The line that printing some values writes. -/
def line (heap : Heap) (arguments : List Value) : String :=
  String.intercalate " " (arguments.map (·.print heap))

/-- How often the function reads the clock. -/
def readings : Native → Nat
  | .clock => 1
  | .print | .len => 0

/-- What a function of the host yields, and the line that it writes. The time is the clock's next
reading. -/
def call (now : Clock) (heap : Heap) (arguments : List Value) :
    Native → Except Fault (Value × Option String)
  | .print => .ok (.null, some (line heap arguments))
  | .clock => .ok (.number (now 0), none)
  | .len =>
    match arguments with
    | [] => .error (.invalidArgumentCount 0 1)
    | value :: _ =>
      match value.length? heap with
      | some n => .ok (.number (.ofNat n), none)
      | none => .error (.invalidArgumentType "list" .list value.kind)

end Native

end ListScript
