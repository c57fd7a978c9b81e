import ListScript.Proofs.Number.Whole

/-!
# Integers among the numbers

A number is an integer if it stands where the integer does: `Number.IsInt`. Both zeros are the
integer zero. As long as 53 bits hold the integers concerned, every integer is a number
(`Number.isInt_ofInt`), sums and remainders are exact (`Number.IsInt.add`, `Number.IsInt.rem`), and
numbers compare as the integers do.
-/

namespace ListScript.Number

/-- The number is finite and stands where the integer does. -/
def IsInt (x : Number) (i : Int) : Prop := x.isFinite = true ∧ x.place? = some (i * one)

theorem one_pos : 0 < one := by decide +kernel

/-- Integers of at most 53 bits are not rounded. -/
theorem representable_mul_one {n : Nat} (h : n ≤ 2 ^ 53) : Representable (n * one) := by
  obtain ⟨bits, hbits⟩ : ∃ bits, one = Nat.pow 2 bits := ⟨1074, by decide +kernel⟩
  refine ⟨?_, Nat.lt_of_le_of_lt (Nat.mul_le_mul_right one h) (by decide +kernel)⟩
  rw [hbits]
  exact spare_dvd_mul bits h

/-- The sign of a product is that of its signed factor. -/
theorem signed_mul (negative : Bool) (n m : Nat) :
    signed negative (n * m) = signed negative n * m := by
  cases negative with
  | false => exact Int.natCast_mul n m
  | true => rw [signed_true, signed_true, Int.natCast_mul, Int.neg_mul]

/-- A sign does not change the magnitude. -/
theorem natAbs_signed (negative : Bool) (n : Nat) : (signed negative n).natAbs = n := by
  cases negative with
  | false => exact Int.natAbs_natCast n
  | true => exact (Int.natAbs_neg _).trans (Int.natAbs_natCast n)

/-- Every integer is its magnitude under its sign. -/
theorem signed_natAbs (i : Int) : signed (i < 0) i.natAbs = i := by
  by_cases h : i < 0
  · rw [decide_eq_true h, signed_true]
    omega
  · rw [decide_eq_false h, signed_false]
    omega

/-- A magnitude of whole ones under a sign is an integer. -/
theorem isInt_finite (negative : Bool) {n : Nat} (h : Representable (n * one)) :
    (finite negative (n * one) h).IsInt (signed negative n) :=
  ⟨rfl, congrArg some (signed_mul negative n one)⟩

/-- The whole number nearest to a whole number is the same integer, from `-2 ^ 52` on. Between `2 ^ 52`
and `2 ^ 53` that is so for the even ones. -/
theorem isInt_nearestWhole {x : Number} (hwhole : x.isWhole = true) (hlow : -2 ^ 52 ≤ x.toInt)
    (heven : 2 ^ 52 < x.toInt → x.toInt < 2 ^ 53 → x.toInt % 2 = 0) :
    x.nearestWhole.IsInt x.toInt := by
  obtain ⟨negative, n, hn, hnearest, hsigned⟩ := exists_nearestWhole hwhole hlow heven
  rw [hnearest, ← hsigned]
  exact isInt_finite negative hn

/-- A number that is an integer is whole. -/
theorem IsInt.isWhole {x : Number} {i : Int} (h : x.IsInt i) : x.isWhole = true := by
  obtain ⟨hfinite, hplace⟩ := h
  cases x with
  | nan => cases hfinite
  | infinite negative => cases hfinite
  | finite negative units hunits =>
      have hsigned : signed negative units = i * one := Option.some.inj hplace
      have habs := congrArg Int.natAbs hsigned
      rw [natAbs_signed, Int.natAbs_mul, Int.natAbs_natCast] at habs
      refine decide_eq_true ?_
      rw [fraction, habs]
      exact Nat.mul_mod_left _ _

/-- A number that is an integer has a magnitude of whole ones. -/
theorem IsInt.exists_finite {x : Number} {i : Int} (h : x.IsInt i) :
    ∃ negative n hn, x = .finite negative (n * one) hn ∧ i = signed negative n := by
  obtain ⟨negative, n, hn, rfl⟩ := exists_of_isWhole h.isWhole
  have hsigned : signed negative (n * one) = i * one := Option.some.inj h.2
  rw [signed_mul] at hsigned
  have hone : (one : Int) ≠ 0 := Int.natCast_ne_zero.2 (Nat.ne_of_gt one_pos)
  exact ⟨negative, n, hn, rfl, ((Int.mul_eq_mul_right_iff hone).1 hsigned).symm⟩

/-- A magnitude of at most 53 bits under a sign is an integer. -/
theorem isInt_ofQuotient (negative : Bool) {n : Nat} (h : n ≤ 2 ^ 53) :
    (ofQuotient negative (n * one) 1).IsInt (signed negative n) := by
  have hunits := representable_mul_one h
  rw [ofQuotient_eq negative hunits (round_of_dvd hunits.1)]
  exact isInt_finite negative hunits

/-- Integers of at most 53 bits are numbers. -/
theorem isInt_ofInt {i : Int} (h : i.natAbs ≤ 2 ^ 53) : (ofInt i).IsInt i := by
  have hofInt := isInt_ofQuotient (i < 0) h
  rw [signed_natAbs] at hofInt
  exact hofInt

/-- Naturals of at most 53 bits are numbers. -/
theorem isInt_ofNat {n : Nat} (h : n ≤ 2 ^ 53) : (ofNat n).IsInt n := by
  unfold ofNat
  exact isInt_ofQuotient false h

theorem isInt_zero : (0 : Number).IsInt 0 := isInt_ofNat (Nat.zero_le (2 ^ 53))

/-- The number nearest to a whole number of ones is that integer, whatever sign a zero takes. -/
theorem isInt_ofUnits (zeroNegative : Bool) {i : Int} (h : i.natAbs ≤ 2 ^ 53) :
    (ofUnits zeroNegative (i * one)).IsInt i := by
  have hpos := one_pos
  unfold ofUnits
  by_cases hi : i = 0
  · subst hi
    rw [Int.zero_mul, if_pos rfl]
    have hzero := isInt_ofQuotient zeroNegative (Nat.zero_le (2 ^ 53))
    rw [Nat.zero_mul] at hzero
    cases zeroNegative with
    | false => exact hzero
    | true => exact hzero
  · have hne : i * one ≠ 0 := Int.mul_ne_zero hi (by omega)
    have hsign : (i * one < 0) = (i < 0) := by
      rw [eq_iff_iff]
      exact ⟨fun hneg => neg_of_mul_neg_left hneg (by omega),
        fun hneg => Int.mul_neg_of_neg_of_pos hneg (by omega)⟩
    rw [if_neg hne, Int.natAbs_mul, Int.natAbs_natCast, decide_eq_decide.2 (iff_of_eq hsign)]
    exact isInt_ofInt h

section

variable {x y : Number} {i j : Int}

/-- The sum of two integers is exact if 53 bits hold it. -/
theorem IsInt.add (hx : x.IsInt i) (hy : y.IsInt j) (h : (i + j).natAbs ≤ 2 ^ 53) :
    (x.add y).IsInt (i + j) := by
  obtain ⟨negative, n, hn, rfl, rfl⟩ := hx.exists_finite
  obtain ⟨negative', m, hm, rfl, rfl⟩ := hy.exists_finite
  unfold Number.add
  dsimp only
  rw [signed_mul, signed_mul, ← Int.add_mul]
  exact isInt_ofUnits _ h

/-- The opposite of an integer is its opposite. -/
theorem IsInt.neg (hx : x.IsInt i) : x.neg.IsInt (-i) := by
  obtain ⟨negative, n, hn, rfl, rfl⟩ := hx.exists_finite
  have hopposite : -signed negative n = signed (!negative) n := by
    cases negative with
    | false => rfl
    | true => exact Int.neg_neg _
  rw [hopposite]
  exact isInt_finite _ hn

/-- The remainder of two integers is exact, and has the sign of the dividend. -/
theorem IsInt.rem (hx : x.IsInt i) (hy : y.IsInt j) (hj : j ≠ 0) (h : j.natAbs ≤ 2 ^ 53) :
    (x.rem y).IsInt (i.tmod j) := by
  obtain ⟨negative, n, hn, rfl, rfl⟩ := hx.exists_finite
  obtain ⟨negative', m, hm, rfl, rfl⟩ := hy.exists_finite
  have hpos : 0 < m := by
    rw [← natAbs_signed negative' m]
    exact Int.natAbs_pos.2 hj
  have hrem : (signed negative n).tmod (signed negative' m) = signed negative (n % m) := by
    have htmod : (n : Int).tmod (signed negative' m) = (n % m : Nat) := by
      cases negative' with
      | false => exact (Int.ofNat_tmod n m).symm
      | true => exact (Int.tmod_neg _ _).trans (Int.ofNat_tmod n m).symm
    cases negative with
    | false => exact htmod
    | true => exact (Int.neg_tmod _ _).trans (congrArg _ htmod)
  unfold Number.rem
  dsimp only
  rw [if_neg (Nat.ne_of_gt (Nat.mul_pos hpos one_pos)), Nat.mul_mod_mul_right, hrem]
  refine isInt_ofQuotient negative ?_
  rw [natAbs_signed] at h
  exact Nat.le_trans (Nat.le_of_lt (Nat.mod_lt n hpos)) h

/-- An integer is converted to itself. -/
theorem IsInt.toInt_eq (hx : x.IsInt i) : x.toInt = i := by
  obtain ⟨negative, n, hn, rfl, rfl⟩ := hx.exists_finite
  exact toInt_finite negative hn

/-- The opposite of the opposite is the number itself. -/
theorem neg_neg (x : Number) : x.neg.neg = x := by
  cases x with
  | nan => rfl
  | infinite negative => rw [Number.neg, Number.neg, Bool.not_not]
  | finite negative units hunits => simp only [Number.neg, Bool.not_not]

/-- Integers relate as their places do, if relations keep to multiplying by what is positive. -/
theorem IsInt.related {rel : Int → Int → Bool}
    (hrel : ∀ a b c : Int, 0 < c → rel (a * c) (b * c) = rel a b) (hx : x.IsInt i)
    (hy : y.IsInt j) : related rel x y = rel i j := by
  unfold Number.related
  rw [hx.2, hy.2]
  exact hrel i j one (Int.natCast_pos.2 one_pos)

/-- Integers are ordered as numbers the way they are as integers. -/
theorem IsInt.lt (hx : x.IsInt i) (hy : y.IsInt j) : x.lt y = decide (i < j) :=
  hx.related (fun _ _ _ hc => decide_eq_decide.2 (Int.mul_lt_mul_right hc)) hy

/-- Integers are ordered as numbers the way they are as integers, equal ones included. -/
theorem IsInt.le (hx : x.IsInt i) (hy : y.IsInt j) : x.le y = decide (i ≤ j) :=
  hx.related (fun _ _ _ hc => decide_eq_decide.2 (Int.mul_le_mul_right hc)) hy

/-- Integers are equal as numbers exactly if they are as integers. -/
theorem IsInt.eq (hx : x.IsInt i) (hy : y.IsInt j) : x.eq y = decide (i = j) :=
  hx.related (fun _ _ _ hc => decide_eq_decide.2 (Int.mul_eq_mul_right_iff (by omega))) hy

end

/-- Numbers are equal exactly if they have the same place. -/
theorem eq_eq_true_iff (x y : Number) :
    x.eq y = true ↔ ∃ place, x.place? = some place ∧ y.place? = some place := by
  unfold Number.eq related
  cases x.place? with
  | none => simp
  | some a =>
      cases y.place? with
      | none => simp
      | some b =>
          rw [decide_eq_true_eq]
          constructor
          · rintro rfl
            exact ⟨a, rfl, rfl⟩
          · rintro ⟨place, ha, hb⟩
            exact (Option.some.inj ha).trans (Option.some.inj hb).symm

/-- What is equal to an integer of at most 53 bits is that integer. -/
theorem eq_ofInt_iff {x : Number} {i : Int} (h : i.natAbs ≤ 2 ^ 53) :
    x.eq (.ofInt i) = true ↔ x.IsInt i := by
  constructor
  · intro heq
    obtain ⟨place, hx, hi⟩ := (eq_eq_true_iff _ _).1 heq
    cases hi.symm.trans (isInt_ofInt h).2
    refine ⟨?_, hx⟩
    cases x with
    | nan => cases hx
    | finite negative units hunits => rfl
    | infinite negative =>
        -- an infinite number stands farther out than any integer of 53 bits
        have hplace : signed negative overflow = i * one := Option.some.inj hx
        have hbound := (representable_mul_one h).2
        have habs := congrArg Int.natAbs hplace
        rw [Int.natAbs_mul, Int.natAbs_natCast] at habs
        rw [← habs, natAbs_signed] at hbound
        exact absurd hbound (Nat.lt_irrefl overflow)
  · intro hx
    rw [hx.eq (isInt_ofInt h)]
    exact decide_eq_true rfl

end ListScript.Number
