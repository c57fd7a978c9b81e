import ListScript.Value.Path

/-!
# Equality of values

Numbers, truth values, characters and null are compared by what they are. Lists are equal when they
are the same list, or have equal elements at the same positions; a pair of lists that is met again
while it is being compared counts as equal so far. Values of different kinds, and functions, cannot
be compared.
-/

namespace ListScript.Heap

/-- Whether two values are equal, given the pairs of lists whose comparison is under way; nothing if
they cannot be compared. Elements that cannot be compared make their lists unequal. -/
def equalWithin (heap : Heap) (path : List (ListId × ListId)) : Value → Value → Option Bool
  | .number x, .number y => some (x.eq y)
  | .boolean x, .boolean y => some (x == y)
  | .character x, .character y => some (x == y)
  | .null, .null => some true
  | .list i, .list j =>
    if i = j then some true
    else if _hpath : (i, j) ∈ path then some true
    else
      let xs := heap.items i
      let ys := heap.items j
      if xs.length ≠ ys.length then some false
      else if _hsize : i < heap.size ∧ j < heap.size then
        some ((xs.zip ys).all fun pair =>
          (heap.equalWithin ((i, j) :: path) pair.1 pair.2).getD false)
      else some true
  | _, _ => none
termination_by heap.pairsOutside path
decreasing_by exact pairsOutside_cons_lt _hsize.1 _hsize.2 _hpath

/-- Whether two values are equal; nothing if they cannot be compared. -/
def equal? (heap : Heap) (x y : Value) : Option Bool := heap.equalWithin [] x y

end ListScript.Heap
