import ListScript.Lists.Position
import ListScript.Proofs.Number.Literal
import ListScript.Proofs.Number.Shortest

/-!
# Whole numbers as positions

A position is the floor of a number plus one half, and that sum is rounded. A whole number is its
own position as long as the sum is exact, or is rounded back to the number
(`Number.nearestPosition_of_isWhole`). Only between `2 ^ 52` and `2 ^ 53`, where the sum is halfway
between two doubles, an odd number becomes the next even one.
-/

namespace ListScript.Number

/-! ## Rounding -/

/-- The double of the magnitude that a quotient is rounded to. -/
theorem ofQuotient_eq (negative : Bool) {num den units : Nat} (h : Representable units)
    (hround : round num den = units) : ofQuotient negative num den = .finite negative units h := by
  unfold ofQuotient
  dsimp only
  simp only [hround, dif_pos h.2]

/-- A magnitude of more than 52 bits spares the others. -/
theorem le_spare {units bits : Nat} (h : 2 ^ 52 * 2 ^ bits ≤ units) : bits ≤ spare units := by
  have hne : units ≠ 0 := by
    rintro rfl
    exact absurd h (Nat.not_le.2 (Nat.mul_pos (by decide) (Nat.two_pow_pos bits)))
  rw [← Nat.pow_add] at h
  have := (Nat.le_log2 hne).2 h
  unfold spare
  omega

/-- A magnitude that spares bits has the highest bit that it can have. -/
theorem le_of_spare {units : Nat} (h : spare units ≠ 0) : 2 ^ 52 * 2 ^ spare units ≤ units := by
  have hne : units ≠ 0 := by
    rintro rfl
    exact h rfl
  rw [← Nat.pow_add]
  refine (Nat.le_log2 hne).1 ?_
  unfold spare at h ⊢
  omega

/-- A double that is at most a number is at most what the number is rounded to. -/
theorem le_round {units num : Nat} (h : Nat.pow 2 (spare units) ∣ units) (hle : units ≤ num) :
    units ≤ round num 1 := by
  have hfloor : num / 2 ^ spare num * 2 ^ spare num ≤ round num 1 := by
    unfold Number.round nearest
    dsimp only
    rw [Nat.div_one, Nat.one_mul, Nat.pow_eq]
    refine Nat.mul_le_mul_right _ ?_
    split <;> omega
  refine Nat.le_trans ?_ hfloor
  obtain ⟨steps, hsteps, hlt, -⟩ := exists_steps h
  by_cases hspare : spare num ≤ spare units
  · -- the number's grid is no coarser, so the double lies on it
    obtain ⟨k, hk⟩ := Nat.pow_dvd_pow 2 hspare
    have hgrid : units = steps * k * 2 ^ spare num := by
      rw [Nat.mul_assoc, Nat.mul_comm k, ← hk]
      exact hsteps
    rw [hgrid] at hle ⊢
    exact Nat.mul_le_mul_right _ ((Nat.le_div_iff_mul_le (Nat.two_pow_pos _)).2 hle)
  · -- the double is below the highest bit of the number
    have hbit : 2 ^ 52 * 2 ^ spare num ≤ num / 2 ^ spare num * 2 ^ spare num := by
      refine Nat.mul_le_mul_right _ ((Nat.le_div_iff_mul_le (Nat.two_pow_pos _)).2 ?_)
      exact le_of_spare (by omega)
    have hbelow : units < 2 ^ (spare units + 53) := lt_two_pow_spare units
    have hpow : 2 ^ (spare units + 53) ≤ 2 ^ (52 + spare num) :=
      Nat.pow_le_pow_right (by decide) (by omega)
    rw [Nat.pow_add 2 52] at hpow
    omega

/-- A magnitude that is not zero, as a count of units. -/
theorem ofUnits_natCast (zeroNegative : Bool) {units : Nat} (h : 0 < units) :
    ofUnits zeroNegative units = .ofQuotient false units 1 := by
  unfold ofUnits
  rw [if_neg (by omega), Int.natAbs_natCast, decide_eq_false (by omega)]

/-- A magnitude that is not zero, as a count of units below zero. -/
theorem ofUnits_neg_natCast (zeroNegative : Bool) {units : Nat} (h : 0 < units) :
    ofUnits zeroNegative (-units) = .ofQuotient true units 1 := by
  unfold ofUnits
  rw [if_neg (by omega), Int.natAbs_neg, Int.natAbs_natCast, decide_eq_true (by omega)]

/-! ## One half more -/

/-- One half is a power of two of units, and one is the next power. -/
theorem exists_half : ∃ bits h, one = 2 ^ (bits + 1) ∧ half = .finite false (2 ^ bits) h ∧
    2 ^ 53 * 2 ^ bits < overflow := by
  have hround : round one 2 = 2 ^ 1073 := by decide +kernel
  have hrepresentable : Representable (2 ^ 1073) := ⟨by decide +kernel, by decide +kernel⟩
  exact ⟨1073, hrepresentable, by decide +kernel, ofQuotient_eq false hrepresentable hround,
    by decide +kernel⟩

/-- From `2 ^ 52` on, the sum of a whole number and one half is rounded back to the number, unless
it is a tie and the number is odd. -/
theorem round_add_half {n bits : Nat}
    (hn : Nat.pow 2 (spare (n * 2 ^ (bits + 1))) ∣ n * 2 ^ (bits + 1))
    (hle : 2 ^ 52 ≤ n) (heven : n < 2 ^ 53 → n % 2 = 0) :
    round ((2 * n + 1) * 2 ^ bits) 1 = n * 2 ^ (bits + 1) := by
  have hspare : bits + 1 ≤ spare (n * 2 ^ (bits + 1)) := le_spare (Nat.mul_le_mul_right _ hle)
  have hgrid : 2 ^ (bits + 1) ≤ 2 ^ spare (n * 2 ^ (bits + 1)) :=
    Nat.pow_le_pow_right (by decide) hspare
  have hsum : 4 * ((2 * n + 1) * 2 ^ bits) = 4 * (n * 2 ^ (bits + 1)) + 2 * 2 ^ (bits + 1) := by
    rw [Nat.pow_succ]
    ring
  refine Decimal.round_of_holds (by decide) hn ⟨?_, ?_, ?_⟩
  · rw [Nat.mul_one, hsum]
    exact Nat.le_trans (Nat.sub_le _ _) (Nat.le_add_right _ _)
  · rw [Nat.mul_one, hsum]
    exact Nat.add_le_add_left (Nat.mul_le_mul_left 2 hgrid) _
  · intro hends
    have hhigh : (Decimal.Basin.of (n * 2 ^ (bits + 1))).high =
        4 * (n * 2 ^ (bits + 1)) + 2 * 2 ^ spare (n * 2 ^ (bits + 1)) := rfl
    have hlow : (Decimal.Basin.of (n * 2 ^ (bits + 1))).low ≤ 4 * (n * 2 ^ (bits + 1)) :=
      Nat.sub_le _ _
    have hpos : 0 < 2 ^ (bits + 1) := Nat.two_pow_pos _
    have hpow : 2 ^ spare (n * 2 ^ (bits + 1)) = 2 ^ (bits + 1) := by omega
    have hbelow : n < 2 ^ 53 := by
      have := lt_two_pow_spare (n * 2 ^ (bits + 1))
      rw [Nat.pow_eq, Nat.pow_add 2 (spare _), hpow, Nat.mul_comm] at this
      exact Nat.lt_of_mul_lt_mul_left this
    refine decide_eq_true ?_
    rw [Nat.pow_eq, hpow, Nat.mul_div_cancel _ hpos]
    exact heven hbelow

/-- Halves are not rounded up to `2 ^ 53` of them. -/
theorem representable_halves {steps bits : Nat} (hoverflow : 2 ^ 53 * 2 ^ bits < overflow)
    (h : steps ≤ 2 ^ 53) : Representable (steps * 2 ^ bits) :=
  ⟨spare_dvd_mul bits h, Nat.lt_of_le_of_lt (Nat.mul_le_mul_right _ h) hoverflow⟩

/-- The whole part of a whole number and one half. -/
theorem halves_div (n bits : Nat) : (2 * n + 1) * 2 ^ bits / 2 ^ (bits + 1) = n := by
  rw [Nat.pow_succ, ← Nat.div_div_eq_div_mul, Nat.mul_div_cancel _ (Nat.two_pow_pos bits)]
  omega

/-- The sum of a whole number and one half is rounded to something from the number on and below the
next one. -/
theorem exists_round_add_half {n bits : Nat} (hone : one = 2 ^ (bits + 1))
    (hoverflow : 2 ^ 53 * 2 ^ bits < overflow) (hn : Representable (n * one))
    (heven : 2 ^ 52 < n → n < 2 ^ 53 → n % 2 = 0) :
    ∃ units, Representable units ∧ round ((2 * n + 1) * 2 ^ bits) 1 = units ∧
      whole units = n := by
  unfold whole
  rw [hone] at hn ⊢
  by_cases hlt : n < 2 ^ 52
  · have hunits : Representable ((2 * n + 1) * 2 ^ bits) :=
      representable_halves hoverflow (by omega)
    exact ⟨_, hunits, round_of_dvd hunits.1, halves_div n bits⟩
  · refine ⟨_, hn, round_add_half hn.1 (Nat.le_of_not_lt hlt) fun hlt' => ?_,
      Nat.mul_div_cancel _ (Nat.two_pow_pos _)⟩
    by_cases heq : n = 2 ^ 52
    · omega
    · exact heven (by omega) hlt'

/-! ## Positions -/

theorem signed_false (n : Nat) : signed false n = n := rfl

theorem signed_true (n : Nat) : signed true n = -n := rfl

theorem toInt_finite (negative : Bool) {n : Nat} (h : Representable (n * one)) :
    toInt (.finite negative (n * one) h) = signed negative n := by
  have hone : 0 < one := by decide +kernel
  unfold toInt whole
  dsimp only
  rw [Nat.mul_div_cancel _ hone]

/-- The floor of a number, if it is a number. -/
theorem floor_finite {negative : Bool} {units n : Nat} {h : Representable units}
    (hn : Representable (n * one)) (hfloor : floorMagnitude negative units = n) :
    floor (.finite negative units h) = .finite negative (n * one) hn := by
  unfold floor toWhole
  dsimp only
  rw [hfloor, ofQuotient_eq negative hn (round_of_dvd hn.1)]

/-- A whole number that is not below zero is the floor of its rounded sum with one half. -/
theorem floor_add_half {n bits : Nat} (hone : one = 2 ^ (bits + 1))
    (hoverflow : 2 ^ 53 * 2 ^ bits < overflow) (hn : Representable (n * one))
    (heven : 2 ^ 52 < n → n < 2 ^ 53 → n % 2 = 0) :
    (ofQuotient false ((2 * n + 1) * 2 ^ bits) 1).floor = .finite false (n * one) hn := by
  obtain ⟨units, hunits, hround, hfloor⟩ := exists_round_add_half hone hoverflow hn heven
  have hmagnitude : floorMagnitude false units = n := hfloor
  rw [ofQuotient_eq false hunits hround, floor_finite hn hmagnitude]

/-- A whole number below zero is the floor of its sum with one half. -/
theorem floor_sub_half {n bits : Nat} (hone : one = 2 ^ (bits + 1))
    (hoverflow : 2 ^ 53 * 2 ^ bits < overflow) (hn : Representable ((n + 1) * one))
    (hle : n < 2 ^ 52) :
    (ofQuotient true ((2 * n + 1) * 2 ^ bits) 1).floor = .finite true ((n + 1) * one) hn := by
  have hunits : Representable ((2 * n + 1) * 2 ^ bits) :=
    representable_halves hoverflow (by omega)
  have hdiv := halves_div n bits
  have hmod : (2 * n + 1) * 2 ^ bits % 2 ^ (bits + 1) ≠ 0 := by
    rw [Nat.pow_succ', Nat.mul_mod_mul_right, Nat.mul_add_mod, Nat.one_mul]
    exact Nat.ne_of_gt (Nat.two_pow_pos bits)
  have hfloor : floorMagnitude true ((2 * n + 1) * 2 ^ bits) = n + 1 := by
    unfold floorMagnitude outward fraction whole
    rw [hone, hdiv, if_pos rfl, if_neg hmod]
  rw [ofQuotient_eq true hunits (round_of_dvd hunits.1), floor_finite hn hfloor]

/-- A whole number has a whole number of ones as its magnitude. -/
theorem exists_of_isWhole {x : Number} (h : x.isWhole = true) :
    ∃ negative n hn, x = .finite negative (n * one) hn := by
  cases x with
  | nan => cases h
  | infinite negative => cases h
  | finite negative units hunits =>
      have hfraction : fraction units = 0 := of_decide_eq_true h
      unfold fraction at hfraction
      obtain ⟨n, heq⟩ := exists_eq_mul_left_of_dvd (Nat.dvd_of_mod_eq_zero hfraction)
      clear hfraction h
      generalize one = ones at heq ⊢
      subst heq
      exact ⟨negative, n, hunits, rfl⟩

theorem isNaN_of_isWhole {x : Number} (h : x.isWhole = true) : x.isNaN = false := by
  obtain ⟨negative, n, hn, rfl⟩ := exists_of_isWhole h
  rfl

/-- The whole number nearest to a whole number is that number, from `-2 ^ 52` on, but zero has no sign
any more. Between `2 ^ 52` and `2 ^ 53` that is so for the even ones. -/
theorem exists_nearestWhole {x : Number} (hwhole : x.isWhole = true)
    (hlow : -2 ^ 52 ≤ x.toInt) (heven : 2 ^ 52 < x.toInt → x.toInt < 2 ^ 53 → x.toInt % 2 = 0) :
    ∃ negative n hn, x.nearestWhole = .finite negative (n * one) hn ∧
      signed negative n = x.toInt := by
  obtain ⟨bits, hbits, hone, hhalf, hoverflow⟩ := exists_half
  obtain ⟨negative, n, hn, rfl⟩ := exists_of_isWhole hwhole
  rw [toInt_finite] at hlow heven ⊢
  unfold nearestWhole
  rw [hhalf]
  unfold add
  dsimp only
  have hunits : ((n * one : Nat) : Int) = 2 * n * (2 ^ bits : Nat) := by
    rw [hone, Nat.pow_succ]
    push_cast
    ring
  cases negative with
  | false =>
      have hsum : signed false (n * one) + signed false (2 ^ bits) =
          ((2 * n + 1) * 2 ^ bits : Nat) := by
        rw [signed_false, signed_false, hunits]
        push_cast
        ring
      rw [hsum, ofUnits_natCast _ (Nat.mul_pos (by omega) (Nat.two_pow_pos bits))]
      rw [signed_false] at heven
      exact ⟨false, n, hn, floor_add_half hone hoverflow hn (by omega), rfl⟩
  | true =>
      cases n with
      | zero =>
          -- the sum of zero and one half does not depend on the sign of zero
          have hsum : signed true (0 * one) + signed false (2 ^ bits) =
              ((2 * 0 + 1) * 2 ^ bits : Nat) := by
            rw [signed_true, signed_false, Nat.zero_mul, Nat.mul_zero, Nat.zero_add, Nat.one_mul,
              Int.natCast_zero, Int.neg_zero, Int.zero_add]
          rw [hsum, ofUnits_natCast _ (Nat.mul_pos (by omega) (Nat.two_pow_pos bits))]
          exact ⟨false, 0, hn, floor_add_half hone hoverflow hn (by omega), rfl⟩
      | succ n =>
          have hsum : signed true ((n + 1) * one) + signed false (2 ^ bits) =
              -((2 * n + 1) * 2 ^ bits : Nat) := by
            rw [signed_true, signed_false, hunits]
            push_cast
            ring
          rw [hsum, ofUnits_neg_natCast _ (Nat.mul_pos (by omega) (Nat.two_pow_pos bits))]
          rw [signed_true] at hlow
          exact ⟨true, n + 1, hn, floor_sub_half hone hoverflow hn (by omega), rfl⟩

/-- A whole number is its own position, from `-2 ^ 52` on. Between `2 ^ 52` and `2 ^ 53` that is so for
the even ones. -/
theorem nearestPosition_of_isWhole {x : Number} (hwhole : x.isWhole = true)
    (hlow : -2 ^ 52 ≤ x.toInt) (heven : 2 ^ 52 < x.toInt → x.toInt < 2 ^ 53 → x.toInt % 2 = 0) :
    x.nearestPosition = x.toInt := by
  obtain ⟨negative, n, hn, hnearest, hsigned⟩ := exists_nearestWhole hwhole hlow heven
  rw [nearestPosition, hnearest, toInt_finite, hsigned]

/-! ## Lengths -/

/-- A count is rounded to a number that stands on the line beyond all doubles up to the count. -/
theorem exists_place?_ofNat (n : Nat) : ∃ place : Nat, (ofNat n).place? = some (place : Int) ∧
    ∀ units ≤ n * one, Representable units → units ≤ place := by
  unfold ofNat ofQuotient
  dsimp only
  split
  · exact ⟨_, rfl, fun units hle h => le_round h.1 hle⟩
  · exact ⟨_, rfl, fun units _ h => Nat.le_of_lt h.2⟩

/-- Numbers compare as their places do. -/
theorem lt_eq_decide {x y : Number} {a b : Int} (hx : x.place? = some a) (hy : y.place? = some b) :
    x.lt y = decide (a < b) := by
  unfold lt related
  rw [hx, hy]

/-- A whole number up to a count is not greater than the number nearest to the count. -/
theorem ofNat_lt_eq_false {x : Number} {n : Nat} (hwhole : x.isWhole = true) (hle : x.toInt ≤ n) :
    (ofNat n).lt x = false := by
  obtain ⟨negative, m, hm, rfl⟩ := exists_of_isWhole hwhole
  rw [toInt_finite] at hle
  obtain ⟨place, hplace, habove⟩ := exists_place?_ofNat n
  rw [lt_eq_decide hplace rfl, decide_eq_false_iff_not, Int.not_lt]
  cases negative with
  | false =>
      rw [signed_false] at hle ⊢
      exact Int.ofNat_le.2 (habove _ (Nat.mul_le_mul_right one (Int.ofNat_le.1 hle)) hm)
  | true =>
      rw [signed_true]
      exact Int.le_trans (Int.neg_nonpos_of_nonneg (Int.natCast_nonneg _)) (Int.natCast_nonneg _)

end ListScript.Number
