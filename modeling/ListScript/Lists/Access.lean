import ListScript.Lists.Position

/-!
# Reading and writing elements

Reading at several positions makes a new list. Writing at several positions takes the elements of a
list, one for each position, where a later position wins over an earlier one.
-/

namespace ListScript

/-- The element at a position. -/
def elementAt (items : List Value) (raw : Number) : Except Fault Value :=
  let position := fromFront raw.nearestPosition items.length
  if position < 0 then .error (.indexOutOfRange raw items.length)
  else
    match items[position.toNat]? with
    | some item => .ok item
    | none => .error (.indexOutOfRange raw items.length)

/-- The elements with another one at a position, or one more at the end. -/
def setOrAppend (items : List Value) (position : Nat) (value : Value) : List Value :=
  if position < items.length then items.set position value else items ++ [value]

/-- Write elements at positions, one after the other. -/
def writeAll (items : List Value) (writes : List (Nat × Value)) : List Value :=
  writes.foldl (fun items (position, value) => setOrAppend items position value) items

namespace HeapM

/-- The list that a value is. -/
def expectList : Value → HeapM ListId
  | .list id => pure id
  | other => throw (.nonIndexable other.kind)

/-- The positions that a value gives in a list of the given length. -/
def positions (length : Nat) (index : Value) : HeapM Positions := fun heap =>
  ofExcept (Positions.of heap length index) heap

/-- The element or elements of a list at the given positions. -/
def readIndex (target index : Value) : HeapM Value := do
  let id ← expectList target
  let items ← items id
  match ← positions items.length index with
  | .single raw => ofExcept (elementAt items raw)
  | .several raws => newList (← ofExcept (raws.mapM (elementAt items)))

/-- Store a value, or the elements of a list, at the given positions of a list. -/
def writeIndex (target index value : Value) : HeapM Value := do
  let id ← expectList target
  let old ← items id
  match ← positions old.length index with
  | .single raw => put id (setOrAppend old (writePosition old.length raw) value)
  | .several [] => pure ()
  | .several raws =>
    match value with
    | .list source =>
      let new ← items source
      if new.length ≠ raws.length then throw (.lengthMismatch raws.length new.length)
      put id (writeAll old ((raws.map (writePosition old.length)).zip new))
    | other => throw (.nonListAssignment other.kind)
  return value

end HeapM

end ListScript
