import ListScript.Number.Basic

/-!
# Decimals

A decimal is a natural number scaled by a power of ten. `Decimal.shortest` finds the decimal of
fewest digits that reads back as a given double, and of those the one nearest to it;
`Number.ofDecimal` reads a decimal as the nearest double.
-/

namespace ListScript

/-- The decimal `digits * 10 ^ exponent`. -/
structure Decimal where
  /-- The significant digits, read as one number. -/
  digits : Nat
  /-- The power of ten by which they are scaled. -/
  exponent : Int
  deriving DecidableEq, Repr

/-- The number nearest to a decimal under the given sign. -/
def Number.ofDecimal (negative : Bool) (d : Decimal) : Number :=
  .ofQuotient negative (d.digits * Nat.pow 10 d.exponent.toNat * one)
    (Nat.pow 10 (-d.exponent).toNat)

namespace Decimal

/-- How many decimal digits a natural number has; zero has none. -/
def digitCount (n : Nat) : Nat := if n = 0 then 0 else (Nat.toDigits 10 n).length

/-- The least power of ten that is above the magnitude, which is not zero. -/
def magnitude (units : Nat) : Int :=
  if Number.one ≤ units then digitCount (units / Number.one)
  else 1 - (digitCount ((Number.one - 1) / units) : Int)

/-- The magnitudes that round to a given one, in quarters of a unit. -/
structure Basin where
  /-- The magnitude itself. -/
  centre : Nat
  /-- The least magnitude that may round to it. -/
  low : Nat
  /-- The greatest magnitude that may round to it. -/
  high : Nat
  /-- The two ends round to it as well. -/
  closed : Bool

/-- The basin of a double's magnitude: half a grid step above, and half a step of the grid below,
which is finer under a power of two. -/
def Basin.of (units : Nat) : Basin :=
  let grid := Nat.pow 2 (Number.spare units)
  let finer := Number.spare units ≠ 0 && units = Nat.pow 2 52 * grid
  { centre := 4 * units
    low := 4 * units - (if finer then grid else 2 * grid)
    high := 4 * units + 2 * grid
    closed := units / grid % 2 = 0 }

/-- The decimal lies in the basin. -/
def Basin.contains (basin : Basin) (d : Decimal) : Bool :=
  let point := d.digits * Nat.pow 10 d.exponent.toNat * (4 * Number.one)
  let scale := Nat.pow 10 (-d.exponent).toNat
  if basin.closed then basin.low * scale ≤ point && point ≤ basin.high * scale
  else basin.low * scale < point && point < basin.high * scale

/-- The decimals of the given exponent next to the basin's centre, below it and above, and whether
the one below is the nearer. -/
def Basin.neighbours (basin : Basin) (exponent : Int) : Decimal × Decimal × Bool :=
  let num := basin.centre * Nat.pow 10 (-exponent).toNat
  let den := 4 * Number.one * Nat.pow 10 exponent.toNat
  (⟨num / den, exponent⟩, ⟨num / den + 1, exponent⟩, 2 * (num % den) < den)

/-- The decimal in the basin among the two of the given exponent next to its centre; of two the
nearer, and the upper one if they are equally near. -/
def Basin.pick? (basin : Basin) (exponent : Int) : Option Decimal :=
  let (below, above, belowNearer) := basin.neighbours exponent
  match basin.contains below, basin.contains above with
  | true, true => some (if belowNearer then below else above)
  | true, false => some below
  | false, true => some above
  | false, false => none

/-- Search ever finer grids, `left` of them, from the given exponent downward. -/
def Basin.search (basin : Basin) : (left : Nat) → (exponent : Int) → Decimal
  | 0, exponent => (basin.neighbours exponent).1
  | left + 1, exponent =>
    match basin.pick? exponent with
    | some d => d
    | none => basin.search left (exponent - 1)

/-- The decimal without zeros at the end of its digits, of which it has at most `left`. -/
def trim (d : Decimal) : (left : Nat) → Decimal
  | 0 => d
  | left + 1 => if d.digits % 10 = 0 then trim ⟨d.digits / 10, d.exponent + 1⟩ left else d

/-- The decimal of fewest digits that reads back as the double of a magnitude that is not zero.
Seventeen digits always suffice. -/
def shortest (units : Nat) : Decimal :=
  ((Basin.of units).search 17 (magnitude units - 1)).trim 17

/-! ## Layout -/

/-- The digits of a natural number. -/
def digitText (n : Nat) : String := String.ofList (Nat.toDigits 10 n)

/-- The decimal without exponent mark: the digits with as many zeros or as deep a point as the
exponent asks for. -/
def positional (d : Decimal) : String :=
  let chars := Nat.toDigits 10 d.digits
  let places := (-d.exponent).toNat
  if places = 0 then String.ofList (chars ++ List.replicate d.exponent.toNat '0')
  else
    let padded := List.replicate (places + 1 - chars.length) '0' ++ chars
    let cut := padded.length - places
    String.ofList (padded.take cut ++ '.' :: padded.drop cut)

/-- The decimal as one leading digit, the rest after a point, and a power of ten. -/
def scientific (d : Decimal) : String :=
  let chars := Nat.toDigits 10 d.digits
  let power := d.exponent + chars.length - 1
  let mantissa := if chars.length ≤ 1 then chars else chars.take 1 ++ '.' :: chars.drop 1
  String.ofList mantissa ++ "e" ++ toString power

end Decimal

end ListScript
