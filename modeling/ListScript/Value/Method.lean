import ListScript.Value.Equality
import ListScript.Value.Tree

/-!
# Methods

Numbers can be rounded and lists searched; both can be turned into text.
-/

namespace ListScript

/-- The methods of numbers and lists. -/
inductive Method where
  /-- A number rounded to some decimal places. -/
  | toFixed
  /-- The text of the receiver. -/
  | toText
  /-- The least whole number that is not below. -/
  | ceil
  /-- The greatest whole number that is not above. -/
  | floor
  /-- A list with the first occurrence of a part replaced. -/
  | replace
  deriving DecidableEq, Repr

namespace Method

/-- The method of a name among those of numbers. -/
def ofNumber? : String → Option Method
  | "toFixed" => some .toFixed
  | "toString" => some .toText
  | "ceil" => some .ceil
  | "floor" => some .floor
  | _ => none

/-- The method of a name among those of lists. -/
def ofList? : String → Option Method
  | "replace" => some .replace
  | "toString" => some .toText
  | _ => none

/-- The method of a name that a receiver has. -/
def find (receiver : Value) (name : String) : Except Fault Method :=
  let found? :=
    match receiver with
    | .number _ => some (ofNumber? name)
    | .list _ => some (ofList? name)
    | _ => none
  match found? with
  | none => .error (.noMethods receiver.kind)
  | some none => .error (.unknownMethod receiver.kind name)
  | some (some method) => .ok method

/-- The greatest number of decimal places that rounding reaches; with more a number stays as it
is. -/
def mostPlaces : Number := 15

/-- A number rounded to a number of decimal places from 0 to 100, a half going away from zero. -/
def fixed (value digits : Number) : Except Fault Number :=
  if !(Number.le 0 digits && digits.le 100 && digits.isWhole) then .error (.invalidDigits digits)
  else if !value.isFinite || mostPlaces.lt digits then .ok value
  else
    let factor := Number.ofNat (Nat.pow 10 digits.toInt.toNat)
    .ok ((value * factor).roundHalfAway / factor)

/-- The elements of a list; any other value counts as a list of one. -/
def asItems (heap : Heap) : Value → List Value
  | .list id => heap.items id
  | value => [value]

/-- Each searched value equals the element at its place from the front on. -/
def matchesFront (heap : Heap) (search items : List Value) : Bool :=
  (search.zip items).all fun (s, v) => heap.equal? s v == some true

/-- The first position at which the searched values occur in a row. -/
def occurrence? (heap : Heap) (search items : List Value) : Option Nat :=
  if search.length ≤ items.length then
    (List.range (items.length - search.length + 1)).find? fun start =>
      matchesFront heap search (items.drop start)
  else none

/-- The elements with the first occurrence of the searched values replaced. -/
def replaceFirst (heap : Heap) (items search replacement : List Value) : List Value :=
  match occurrence? heap search items with
  | none => items
  | some start => items.take start ++ replacement ++ items.drop (start + search.length)

/-- A method whose number of arguments is wrong. -/
def wrongCount (arguments : List Value) (expected : Nat) : HeapM Value :=
  throw (.invalidArgumentCount arguments.length expected)

/-- The value of a method on its receiver and arguments. -/
def call (method : Method) (receiver : Value) (arguments : List Value) : HeapM Value :=
  match method, receiver, arguments with
  | .toText, receiver, [] => fun heap =>
    match receiver.text heap with
    | .ok text => HeapM.newText text heap
    | .error fault => .error fault heap
  | .toText, _, arguments => wrongCount arguments 0
  | .toFixed, .number x, [] => .number <$> HeapM.ofExcept (fixed x 1)
  | .toFixed, .number x, [.number digits] => .number <$> HeapM.ofExcept (fixed x digits)
  | .toFixed, _, [other] => throw (.invalidArgumentType "digits" .number other.kind)
  | .toFixed, _, arguments => wrongCount arguments 1
  | .ceil, .number x, [] => pure (.number x.ceil)
  | .ceil, _, arguments => wrongCount arguments 0
  | .floor, .number x, [] => pure (.number x.floor)
  | .floor, _, arguments => wrongCount arguments 0
  | .replace, .list id, [search, replacement] => fun heap =>
    HeapM.newList
      (replaceFirst heap (heap.items id) (asItems heap search) (asItems heap replacement)) heap
  | .replace, _, arguments => wrongCount arguments 2

end Method

end ListScript
