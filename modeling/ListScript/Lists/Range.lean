import ListScript.Value.Heap

/-!
# Ranges

A range is the list of the numbers from the lesser bound upward by the magnitude of the step, read
backward if the bounds or the step point downward. Bounds and step must be finite, and the step must
not vanish, neither by itself nor in the rounding of a sum.
-/

namespace ListScript

/-- The numbers of a range from the one at hand on; nothing if the step vanishes in rounding. -/
def climb (inclusive : Bool) (stop step current : Number) : Option (List Number) :=
  if _hstop : current.le stop && (inclusive || current.lt stop) then
    let next := current.add step
    if _hnext : current.lt next then (climb inclusive stop step next).map (current :: ·)
    else none
  else some []
termination_by ((stop.place?.getD 0 - current.place?.getD 0) + 1).toNat
decreasing_by
  simp only [Bool.and_eq_true, Number.le, Number.lt, Number.related] at _hstop _hnext
  grind

/-- The numbers of the range between two bounds; nothing if there is no such range. -/
def rangeNumbers (first last step : Number) (inclusive : Bool) : Option (List Number) :=
  if first.isFinite && last.isFinite && step.isFinite && !step.eq 0 then
    let downward := last.lt first
    let (low, high) := if downward then (last, first) else (first, last)
    let backward := step.lt 0
    let numbers := climb inclusive high (if backward then step.neg else step) low
    if downward || backward then numbers.map List.reverse else numbers
  else none

/-- The list of a range whose bounds and step are given as values. -/
def HeapM.range (first last step : Value) (inclusive : Bool) : HeapM Value :=
  match first, last, step with
  | .number a, .number b, .number s =>
    match rangeNumbers a b s inclusive with
    | some numbers => newList (numbers.map .number)
    | none => throw .invalidRange
  | _, _, _ => throw (.nonNumericRange first.kind last.kind step.kind)

end ListScript
