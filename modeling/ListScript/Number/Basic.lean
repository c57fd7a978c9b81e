/-!
# Binary64 numbers

A finite double is a whole number of *units*, where the unit is the least positive double,
`2 ^ -1074`. Arithmetic is exact on units and is followed by one rounding to 53 significant bits,
ties to even; a magnitude that reaches `2 ^ 1024` becomes infinite. Since the unit is the least
positive double, gradual underflow needs no case of its own: below `2 ^ 53` units every whole
number is a double.
-/

namespace ListScript

namespace Number

/-- How many units make the number one. -/
def one : Nat := Nat.pow 2 1074

/-- The magnitude in units from which on a double is infinite. -/
def overflow : Nat := Nat.pow 2 2098

/-- How many low bits of a magnitude lie below its 53 significant ones. -/
def spare (units : Nat) : Nat := units.log2 - 52

/-- The magnitude belongs to a finite double: it has at most 53 significant bits and does not
overflow. -/
def Representable (units : Nat) : Prop := Nat.pow 2 (spare units) ∣ units ∧ units < overflow

/-- The whole number nearest to a quotient, the even one of two that are equally near. -/
def nearest (num den : Nat) : Nat :=
  let quotient := num / den
  let rest := num % den
  if 2 * rest < den ∨ (2 * rest = den ∧ quotient % 2 = 0) then quotient else quotient + 1

/-- The quotient `num / den`, a magnitude in units, rounded to 53 significant bits. -/
def round (num den : Nat) : Nat :=
  let grid := Nat.pow 2 (spare (num / den))
  nearest num (den * grid) * grid

/-- Rounding a quotient goes to its floor or one above. -/
theorem nearest_le (num den : Nat) : nearest num den ≤ num / den + 1 := by
  unfold nearest
  dsimp only
  split <;> omega

/-- Every magnitude is below a 53-bit number of its spare power of two. -/
theorem lt_two_pow_spare (units : Nat) : units < Nat.pow 2 (spare units + 53) := by
  by_cases h : units = 0
  · subst h
    exact Nat.two_pow_pos _
  · exact Nat.lt_of_lt_of_le Nat.lt_log2_self
      (Nat.pow_le_pow_right (by decide) (by unfold spare; omega))

/-- A number of at most `2 ^ 53` grid steps has no bit below the grid's spare ones. -/
theorem spare_dvd_mul {steps : Nat} (bits : Nat) (h : steps ≤ Nat.pow 2 53) :
    Nat.pow 2 (spare (steps * Nat.pow 2 bits)) ∣ steps * Nat.pow 2 bits := by
  rw [Nat.pow_eq] at h
  rw [Nat.pow_eq, Nat.pow_eq]
  rcases Nat.lt_or_eq_of_le h with hlt | rfl
  · by_cases hzero : steps * 2 ^ bits = 0
    · rw [hzero]
      exact Nat.dvd_zero _
    · refine Nat.dvd_trans (Nat.pow_dvd_pow 2 ?_) (Nat.dvd_mul_left _ _)
      have hbound : steps * 2 ^ bits < 2 ^ (53 + bits) := by
        rw [Nat.pow_add]
        exact Nat.mul_lt_mul_of_pos_right hlt (Nat.two_pow_pos _)
      have := (Nat.log2_lt hzero).2 hbound
      unfold spare
      omega
  · rw [← Nat.pow_add]
    refine Nat.pow_dvd_pow 2 ?_
    unfold spare
    rw [Nat.log2_two_pow]
    omega

/-- A rounded magnitude has at most 53 significant bits. -/
theorem spare_dvd_round (num den : Nat) :
    Nat.pow 2 (spare (round num den)) ∣ round num den := by
  refine spare_dvd_mul _ (Nat.le_trans (nearest_le _ _) ?_)
  rw [← Nat.div_div_eq_div_mul]
  refine Nat.div_lt_of_lt_mul ?_
  rw [Nat.pow_eq, Nat.pow_eq, ← Nat.pow_add]
  exact lt_two_pow_spare _

end Number

/-- A binary64 number. Not-a-number has one form, and zero has two signs. -/
inductive Number where
  /-- Not a number: the result of an operation without a value. -/
  | nan
  /-- Beyond every finite number, on the side that the sign gives. -/
  | infinite (negative : Bool)
  /-- The magnitude in units under a sign. -/
  | finite (negative : Bool) (units : Nat) (representable : Number.Representable units)
  deriving DecidableEq

namespace Number

/-- The number of the given sign nearest to `num / den` units, infinite on overflow. -/
def ofQuotient (negative : Bool) (num den : Nat) : Number :=
  let units := round num den
  if h : units < overflow then .finite negative units ⟨spare_dvd_round num den, h⟩
  else .infinite negative

/-- The number nearest to a signed count of units; a count of zero takes the given sign. -/
def ofUnits (zeroNegative : Bool) (units : Int) : Number :=
  if units = 0 then .ofQuotient zeroNegative 0 1
  else .ofQuotient (units < 0) units.natAbs 1

/-- Zero under the given sign. -/
def zero (negative : Bool) : Number := .ofQuotient negative 0 1

/-- The number nearest to a natural number. -/
def ofNat (n : Nat) : Number := .ofQuotient false (n * one) 1

/-- The number nearest to an integer. -/
def ofInt (i : Int) : Number := .ofQuotient (i < 0) (i.natAbs * one) 1

instance (n : Nat) : OfNat Number n := ⟨.ofNat n⟩

instance : Inhabited Number := ⟨0⟩

/-- A magnitude under its sign. -/
def signed (negative : Bool) (units : Nat) : Int := if negative then -units else units

/-- The number is neither infinite nor not-a-number. -/
def isFinite : Number → Bool
  | .finite .. => true
  | _ => false

/-- The number is not-a-number. -/
def isNaN : Number → Bool
  | .nan => true
  | _ => false

/-! ## Arithmetic -/

/-- The number under the opposite sign. -/
def neg : Number → Number
  | .nan => .nan
  | .infinite negative => .infinite !negative
  | .finite negative units h => .finite (!negative) units h

/-- The rounded sum. A sum of zero is negative only if both terms are. -/
def add : Number → Number → Number
  | .finite a x _, .finite b y _ => .ofUnits (a && b) (signed a x + signed b y)
  | .infinite a, .infinite b => if a = b then .infinite a else .nan
  | .infinite a, .finite .. => .infinite a
  | .finite .., .infinite b => .infinite b
  | .nan, _ => .nan
  | _, .nan => .nan

/-- The rounded difference. -/
def sub (x y : Number) : Number := add x y.neg

/-- The rounded product; zero times infinity has no value. -/
def mul : Number → Number → Number
  | .finite a x _, .finite b y _ => .ofQuotient (a != b) (x * y) one
  | .infinite a, .infinite b => .infinite (a != b)
  | .infinite a, .finite b y _ => if y = 0 then .nan else .infinite (a != b)
  | .finite a x _, .infinite b => if x = 0 then .nan else .infinite (a != b)
  | .nan, _ => .nan
  | _, .nan => .nan

/-- The rounded quotient. Zero by zero and infinity by infinity have no value. -/
def div : Number → Number → Number
  | .finite a x _, .finite b y _ =>
    if y = 0 then if x = 0 then .nan else .infinite (a != b)
    else .ofQuotient (a != b) (x * one) y
  | .infinite _, .infinite _ => .nan
  | .infinite a, .finite b .. => .infinite (a != b)
  | .finite a .., .infinite b => .zero (a != b)
  | .nan, _ => .nan
  | _, .nan => .nan

/-- The remainder of the quotient cut toward zero, under the sign of the dividend. -/
def rem : Number → Number → Number
  | .finite a x _, .finite _ y _ => if y = 0 then .nan else .ofQuotient a (x % y) 1
  | .finite a x h, .infinite _ => .finite a x h
  | .infinite _, _ => .nan
  | .nan, _ => .nan
  | _, .nan => .nan

instance : Neg Number := ⟨neg⟩
instance : Add Number := ⟨add⟩
instance : Sub Number := ⟨sub⟩
instance : Mul Number := ⟨mul⟩
instance : Div Number := ⟨div⟩
instance : Mod Number := ⟨rem⟩

/-! ## Order -/

/-- The number's place on the line in units, an infinite one standing where overflow begins.
Not-a-number has no place. -/
def place? : Number → Option Int
  | .nan => none
  | .infinite negative => some (signed negative overflow)
  | .finite negative units _ => some (signed negative units)

/-- Both numbers have a place, and the places stand in the given relation. -/
def related (rel : Int → Int → Bool) (x y : Number) : Bool :=
  match x.place?, y.place? with
  | some a, some b => rel a b
  | _, _ => false

/-- The numbers are equal; the two zeros are, not-a-number is not. -/
def eq (x y : Number) : Bool := related (fun a b => a = b) x y

/-- The first number is less than the second. -/
def lt (x y : Number) : Bool := related (fun a b => a < b) x y

/-- The first number is at most the second. -/
def le (x y : Number) : Bool := related (fun a b => a ≤ b) x y

end Number

end ListScript
