import ListScript.Value.Heap

/-!
# Positions in lists

A script gives positions as numbers, one or a list of them. A number means the nearest whole one,
and a negative one counts from the end. What stands out of bounds is an error for those who read and
is moved to the nearer end for those who write.
-/

namespace ListScript

/-- The positions that a value gives. -/
inductive Positions where
  /-- One position. -/
  | single (raw : Number)
  /-- None, or several. -/
  | several (raws : List Number)

namespace Positions

/-- The number that a value gives as a position of a list of the given length. -/
def number (length : Nat) : Value → Except Fault Number
  | .number x => if x.isNaN then .error (.indexOutOfRange x length) else .ok x
  | other => .error (.nonNumericIndex .list other.kind)

/-- The positions that a value gives in a list of the given length. A list of one position counts as
that position. -/
def of (heap : Heap) (length : Nat) : Value → Except Fault Positions
  | .list id => do
    match ← (heap.items id).mapM (number length) with
    | [raw] => return .single raw
    | raws => return .several raws
  | value => return .single (← number length value)

/-- The positions as a list. -/
def raws : Positions → List Number
  | .single raw => [raw]
  | .several raws => raws

end Positions

namespace Number

/-- One half. -/
def half : Number := .ofQuotient false one 2

/-- The whole number nearest to a position, a half going up. -/
def nearestWhole (raw : Number) : Number := (raw.add half).floor

/-- The whole number nearest to a position, as an integer. -/
def nearestPosition (raw : Number) : Int := raw.nearestWhole.toInt

end Number

/-- The position counted from the front, where a negative one is counted back from `stop`. -/
def fromFront (position : Int) (stop : Nat) : Int :=
  if position < 0 then position + stop else position

/-- The nearest position from zero to `most`. -/
def clampPosition (position : Int) (most : Nat) : Nat := min position.toNat most

/-- Where a write to a list of the given length goes: an existing position, or the one past the
last. -/
def writePosition (length : Nat) (raw : Number) : Nat :=
  clampPosition (fromFront raw.nearestPosition length) length

/-- Where a push into a list of the given length goes: before an existing position, or past the
last, which is also what minus one means. -/
def pushPosition (length : Nat) (raw : Number) : Nat :=
  clampPosition (fromFront raw.nearestPosition (length + 1)) length

/-- Where a pop from a list of the given length takes: the position is cut, not rounded. -/
def popPosition (length : Nat) (raw : Number) : Nat :=
  (fromFront raw.toInt length).toNat

end ListScript
