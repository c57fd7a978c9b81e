import ListScript.Number.Basic

/-!
# Whole parts of numbers

The three ways to turn a number into a whole one, all of which keep its sign, and the conversions to
integers. An infinite number converts to an integer beyond every finite number.
-/

namespace ListScript.Number

/-- How many ones the magnitude holds. -/
def whole (units : Nat) : Nat := units / one

/-- What the magnitude has beyond a whole number. -/
def fraction (units : Nat) : Nat := units % one

/-- The number whose whole magnitude the rule chooses from sign and magnitude. -/
def toWhole (rule : Bool → Nat → Nat) : Number → Number
  | .finite negative units _ => .ofQuotient negative (rule negative units * one) 1
  | x => x

/-- Whole magnitude away from zero. -/
def outward (units : Nat) : Nat := if fraction units = 0 then whole units else whole units + 1

/-- Whole magnitude of the floor of a number of the given sign. -/
def floorMagnitude (negative : Bool) (units : Nat) : Nat :=
  if negative then outward units else whole units

/-- The greatest whole number that is not above. -/
def floor : Number → Number := toWhole floorMagnitude

/-- The least whole number that is not below. -/
def ceil : Number → Number := toWhole fun negative units => floorMagnitude (!negative) units

/-- The nearest whole number, a half going away from zero. -/
def roundHalfAway : Number → Number :=
  toWhole fun _ units => if one ≤ 2 * fraction units then whole units + 1 else whole units

/-- The number is finite and whole. -/
def isWhole : Number → Bool
  | .finite _ units _ => fraction units = 0
  | _ => false

/-- The integer that a whole number stands for; other numbers are cut toward zero, an infinite one
stands beyond every finite one, and not-a-number counts as zero. -/
def toInt : Number → Int
  | .nan => 0
  | .infinite negative => signed negative (whole overflow)
  | .finite negative units _ => signed negative (whole units)

/-- The natural number toward zero, at most `most`; negative numbers and not-a-number give zero. -/
def toNatUpTo (most : Nat) (x : Number) : Nat := min most x.toInt.toNat

end ListScript.Number
