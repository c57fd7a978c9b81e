import ListScript.Number.Decimal
import ListScript.Number.Integral

/-!
# Texts of numbers

Three forms, all built on the shortest decimal that reads back: the form in which scripts print
numbers, the plain form of error messages, and the structural form, which always shows that the
number is not a natural number of the host.
-/

namespace ListScript.Number

/-- A text under a sign. -/
def withSign (negative : Bool) (text : String) : String := if negative then "-" ++ text else text

/-- The plain form: never an exponent, no point in whole numbers. -/
def plain : Number → String
  | .nan => "NaN"
  | .infinite negative => withSign negative "inf"
  | .finite negative units _ =>
    withSign negative (if units = 0 then "0" else (Decimal.shortest units).positional)

/-- The print form: whole numbers with all their digits, zero without sign. -/
def print : Number → String
  | .nan => "NaN"
  | .infinite negative => withSign negative "Infinity"
  | .finite negative units h =>
    if units = 0 then "0"
    else if fraction units = 0 then withSign negative (Decimal.digitText (whole units))
    else plain (.finite negative units h)

/-- The magnitudes that the structural form writes without exponent: from one ten-thousandth on and
below ten to the sixteenth. -/
def isPositional (units : Nat) : Bool := one ≤ units * Nat.pow 10 4 && units < Nat.pow 10 16 * one

/-- The structural form of a magnitude. -/
def unsigned (units : Nat) : String :=
  if units = 0 then "0.0"
  else
    let d := Decimal.shortest units
    if !isPositional units then d.scientific
    else if 0 ≤ d.exponent then d.positional ++ ".0"
    else d.positional

/-- The structural form: a point in every number written without exponent. -/
def inspect : Number → String
  | .nan => "NaN"
  | .infinite negative => withSign negative "inf"
  | .finite negative units _ => withSign negative (unsigned units)

/-- The value of a run of decimal digits. -/
def digitsValue (digits : List Char) : Nat :=
  digits.foldl (fun value c => 10 * value + (c.toNat - '0'.toNat)) 0

/-- The number written as digits, or digits, a point and digits. -/
def ofLiteral (lexeme : String) : Number :=
  let before := lexeme.toList.takeWhile (· != '.')
  let after := (lexeme.toList.dropWhile (· != '.')).drop 1
  .ofDecimal false ⟨digitsValue (before ++ after), -(after.length : Int)⟩

end ListScript.Number
