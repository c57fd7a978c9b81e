/-!
# Classes of characters as sorted boundaries

A class of code points is given by the sorted list of the code points at which membership flips: a
character belongs to the class when an odd number of boundaries lies at or below it.
-/

namespace ListScript.Text

/-- A class of code points, given by where membership begins and ends. -/
structure CharClass where
  /-- The first code point inside, the first one outside again, and so on, in increasing order. -/
  boundaries : Array Nat

/-- The character belongs to the class. -/
def CharClass.contains (cls : CharClass) (c : Char) : Bool :=
  cls.boundaries.countP (· ≤ c.toNat) % 2 = 1

end ListScript.Text
