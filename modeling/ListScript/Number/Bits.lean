import ListScript.Number.Basic

/-!
# The 64-bit layout

One sign bit, eleven exponent bits, 52 fraction bits. A zero exponent field counts units directly;
field `e` otherwise adds the hidden bit and scales by `2 ^ (e - 1)` units; the field of all ones
holds the infinities and not-a-number.
-/

namespace ListScript.Number

/-- The number that a 64-bit word stands for. -/
def ofBits (word : Nat) : Number :=
  let negative := word / Nat.pow 2 63 % 2 = 1
  let field := word / Nat.pow 2 52 % Nat.pow 2 11
  let mantissa := word % Nat.pow 2 52
  if field = Nat.pow 2 11 - 1 then if mantissa = 0 then .infinite negative else .nan
  else if field = 0 then .ofQuotient negative mantissa 1
  else .ofQuotient negative ((Nat.pow 2 52 + mantissa) * Nat.pow 2 (field - 1)) 1

end ListScript.Number
