import ListScript.Number.Text

/-!
# Literals, minus one and counts

Reading fills in minus one where a text leaves a number out. No literal denotes it
(`Number.eq_ofLiteral_neg_one`), and nothing else is equal to it (`Number.eq_neg_one`). Counts are
exact as long as 53 bits hold them (`Number.toInt_ofNat`).
-/

namespace ListScript.Number

/-- Minus one stands below zero. -/
theorem exists_place?_ofInt_neg_one :
    ∃ i : Int, i < 0 ∧ (ofInt (-1)).place? = some i :=
  ⟨-(one : Int), by decide +kernel, by decide +kernel⟩

/-- A number under a positive sign does not stand below zero. -/
theorem exists_place?_ofQuotient (num den : Nat) :
    ∃ n : Nat, (ofQuotient false num den).place? = some (n : Int) := by
  unfold ofQuotient
  dsimp only
  split
  · exact ⟨_, rfl⟩
  · exact ⟨_, rfl⟩

/-- No number under a positive sign is minus one. -/
theorem eq_ofQuotient_neg_one (num den : Nat) :
    (ofQuotient false num den).eq (.ofInt (-1)) = false := by
  obtain ⟨i, hi, hplace⟩ := exists_place?_ofInt_neg_one
  obtain ⟨n, hn⟩ := exists_place?_ofQuotient num den
  unfold eq related
  rw [hn, hplace]
  show decide ((n : Int) = i) = false
  rw [decide_eq_false_iff_not]
  omega

/-- No literal denotes minus one. -/
theorem eq_ofLiteral_neg_one (lexeme : String) :
    (ofLiteral lexeme).eq (.ofInt (-1)) = false := by
  unfold ofLiteral ofDecimal
  exact eq_ofQuotient_neg_one _ _

/-- Minus one is a finite number under a negative sign, and its magnitude is not zero. -/
theorem exists_ofInt_neg_one :
    ∃ units h, ofInt (-1) = .finite true units h ∧ units ≠ 0 := by
  have hlt : round ((-1 : Int).natAbs * one) 1 < overflow := by decide +kernel
  have hne : round ((-1 : Int).natAbs * one) 1 ≠ 0 := by decide +kernel
  refine ⟨_, ⟨spare_dvd_round _ _, hlt⟩, ?_, hne⟩
  unfold ofInt ofQuotient
  exact dif_pos hlt

/-- Only minus one is equal to minus one. -/
theorem eq_neg_one {x : Number} (h : x.eq (.ofInt (-1)) = true) : x = .ofInt (-1) := by
  obtain ⟨units, hunits, hneg, hzero⟩ := exists_ofInt_neg_one
  rw [hneg] at h ⊢
  have hbound := hunits.2
  cases x with
  | nan => cases h
  | infinite negative =>
      have hplace : signed negative overflow = signed true units := of_decide_eq_true h
      generalize overflow = limit at hplace hbound
      cases negative <;> simp only [signed, reduceIte, Bool.false_eq_true] at hplace <;> omega
  | finite negative magnitude hmagnitude =>
      have hplace : signed negative magnitude = signed true units := of_decide_eq_true h
      cases negative <;> simp only [signed, reduceIte, Bool.false_eq_true] at hplace
      · omega
      · obtain rfl : magnitude = units := by omega
        rfl

/-- A magnitude of at most 53 significant bits is not rounded. -/
theorem round_of_dvd {units : Nat} (h : Nat.pow 2 (spare units) ∣ units) : round units 1 = units := by
  unfold Number.round nearest
  dsimp only
  rw [Nat.div_one, Nat.one_mul, Nat.mod_eq_zero_of_dvd h, if_pos (.inl (Nat.two_pow_pos _)),
    Nat.div_mul_cancel h]

/-- The number nearest to a count of at most 53 bits is that count. -/
theorem toInt_ofNat {n : Nat} (h : n ≤ Nat.pow 2 53) : (ofNat n).toInt = n := by
  have hlt : n * one < overflow :=
    Nat.lt_of_le_of_lt (Nat.mul_le_mul_right one h) (by decide +kernel)
  have hone : 0 < one := by decide +kernel
  have hround : round (n * one) 1 = n * one := by
    obtain ⟨bits, hbits⟩ : ∃ bits, one = Nat.pow 2 bits := ⟨1074, by decide +kernel⟩
    rw [hbits]
    exact round_of_dvd (spare_dvd_mul bits h)
  unfold ofNat ofQuotient
  dsimp only
  rw [dif_pos (by rw [hround]; exact hlt)]
  show signed false (whole (round (n * one) 1)) = n
  rw [hround, whole, Nat.mul_div_cancel _ hone]
  rfl

end ListScript.Number
