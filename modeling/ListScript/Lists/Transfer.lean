import ListScript.Lists.Access

/-!
# Pushing and popping

A push puts values before positions, a pop takes elements out. Positions are resolved for a push
against the list as it was, for a pop against what the pops before it left. Pushing a list into
itself turns it around instead: each element moves on by the given number of places.
-/

namespace ListScript

/-- The elements with a value put before a position, or at the end. -/
def insertAt (items : List Value) (position : Nat) (value : Value) : List Value :=
  items.insertIdx (min position items.length) value

/-- Put values before positions, one after the other. -/
def insertAll (items : List Value) (inserts : List (Nat × Value)) : List Value :=
  inserts.foldl (fun items (position, value) => insertAt items position value) items

/-- The greatest count of elements. -/
def mostElements : Nat := Nat.pow 2 64 - 1

/-- How many elements pass from the front to the end when a list of the given length is pushed into
itself at a position. A remainder has the sign of the position, so it is brought to the other side
of zero, moved up by the length and reduced once more. -/
def rotation (length : Nat) (raw : Number) : Nat :=
  if length = 0 then 0
  else
    let length := Number.ofNat length
    ((-(raw.nearestWhole % length) + length) % length).toNatUpTo mostElements

/-- The elements turned around by passing one after the other from the front to the end. -/
def rotate (items : List Value) (count : Nat) : List Value :=
  let count := count % items.length
  items.drop count ++ items.take count

/-- Take elements out at positions, one after the other: what is left, and what was taken. -/
def removeAll (items : List Value) : List Number → List Value × List Value
  | [] => (items, [])
  | raw :: raws =>
    let position := popPosition items.length raw
    match items[position]? with
    | none => removeAll items raws
    | some item =>
      let (rest, removed) := removeAll (items.eraseIdx position) raws
      (rest, item :: removed)

namespace HeapM

/-- The list to push into: the value itself, or a new list of that one value. -/
def asList : Value → HeapM ListId
  | .list id => pure id
  | other => fun heap =>
    let (id, heap) := heap.alloc [other]
    .ok id heap

/-- Put a value, or the elements of a list, before the given positions of a list, and yield the
list. -/
def push (target index value : Value) : HeapM Value := do
  let id ← asList target
  let old ← items id
  match ← positions old.length index, value with
  | .single raw, .list source =>
    if source = id then put id (rotate old (rotation old.length raw))
    else put id (insertAt old (pushPosition old.length raw) value)
  | .single raw, value => put id (insertAt old (pushPosition old.length raw) value)
  | .several raws, .list source =>
    let new ← items source
    if new.length ≠ raws.length then throw (.lengthMismatch raws.length new.length)
    put id (insertAll old ((raws.map (pushPosition old.length)).zip new))
  | .several raws, value =>
    put id (insertAll old (raws.map fun raw => (pushPosition old.length raw, value)))
  return .list id

/-- What a pop yields: null for no element, the element for one, a new list for several. -/
def popped : List Value → HeapM Value
  | [] => pure .null
  | [item] => pure item
  | removed => newList removed

/-- Take the elements at the given positions out of a list. A value that is no list yields
itself. -/
def pop (target index : Value) : HeapM Value := do
  match target with
  | .list id =>
    let old ← items id
    let raws := (← positions old.length index).raws
    match raws.find? fun raw => (Number.ofNat old.length).lt raw with
    | some raw => throw (.indexOutOfRange raw old.length)
    | none =>
      let (rest, removed) := removeAll old raws
      put id rest
      popped removed
  | value => return value

end HeapM

end ListScript
