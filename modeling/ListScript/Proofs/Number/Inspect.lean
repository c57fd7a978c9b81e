import ListScript.Number.Text
import ListScript.Proofs.Number.Shortest
import ListScript.Proofs.Text.Spelling
import Mathlib

/-!
# Structural texts of numbers

A number written without exponent reads back as a literal (`Number.ofLiteral_of_pointed`), and one
written with an exponent tells its decimal (`Decimal.scientific_inj`). So no two finite numbers have
the same structural text (`Number.inspect_inj`).
-/

namespace ListScript

namespace Decimal

open Number

/-! ## Digits -/

/-- Digits are read as the library reads them. -/
theorem digitsValue_eq (digits : List Char) :
    digitsValue digits = Nat.ofDigitChars 10 digits 0 := rfl

/-- The digits of a natural are read back as it. -/
theorem digitsValue_toDigits (n : Nat) : digitsValue (Nat.toDigits 10 n) = n :=
  Nat.ofDigitChars_ten_toDigits

/-- Zeros before the digits change nothing. -/
theorem digitsValue_zeros_append (k : Nat) (digits : List Char) :
    digitsValue (List.replicate k '0' ++ digits) = digitsValue digits := by
  rw [digitsValue_eq, Nat.ofDigitChars_append, Nat.ofDigitChars_replicate_zero, Nat.mul_zero]
  rfl

/-- Zeros after the digits are powers of ten. -/
theorem digitsValue_append_zeros (digits : List Char) (k : Nat) :
    digitsValue (digits ++ List.replicate k '0') = digitsValue digits * 10 ^ k := by
  rw [digitsValue_eq, Nat.ofDigitChars_append, Nat.ofDigitChars_replicate_zero, Nat.mul_comm]
  rfl

/-- The digits of a natural are digits. -/
theorem isDigit_of_mem_toDigits {n : Nat} {c : Char} (h : c ∈ Nat.toDigits 10 n) :
    c.isDigit = true :=
  Nat.isDigit_of_mem_toDigits (by decide) (by decide) h

/-- Zeros are digits. -/
theorem isDigit_of_mem_zeros {k : Nat} {c : Char} (h : c ∈ List.replicate k '0') :
    c.isDigit = true := by
  rw [List.eq_of_mem_replicate h]
  decide

/-- A digit differs from every character that is none. -/
theorem ne_of_isDigit {c other : Char} (h : c.isDigit = true) (hother : other.isDigit = false) :
    c ≠ other := by
  rintro rfl
  rw [h] at hother
  cases hother

/-! ## Numbers with a point -/

/-- Zeros at the end of the digits may go into the exponent. -/
theorem ofDecimal_shift_pow (negative : Bool) (digits k : Nat) (exponent : Int) :
    ofDecimal negative ⟨digits * 10 ^ k, exponent⟩ = ofDecimal negative ⟨digits, exponent + k⟩ := by
  induction k generalizing exponent with
  | zero => rw [Nat.pow_zero, Nat.mul_one, Int.natCast_zero, Int.add_zero]
  | succ k ih =>
      rw [Nat.pow_succ, ← Nat.mul_assoc, ofDecimal_shift, ih,
        show exponent + 1 + (k : Int) = exponent + ((k + 1 : Nat) : Int) by omega]

/-- The text is digits around a point, and they stand for the decimal. -/
structure Pointed (text : String) (d : Decimal) (before after : List Char) : Prop where
  toList_eq : text.toList = before ++ '.' :: after
  before_ne_nil : before ≠ []
  isDigit : ∀ c ∈ before ++ after, c.isDigit = true
  reads : ofDecimal false ⟨digitsValue (before ++ after), -(after.length : Int)⟩ = ofDecimal false d

/-- A whole decimal is written with a zero after the point. -/
theorem exists_pointed_of_whole {d : Decimal} (h : 0 ≤ d.exponent) :
    ∃ before after, Pointed (d.positional ++ ".0") d before after := by
  refine ⟨Nat.toDigits 10 d.digits ++ List.replicate d.exponent.toNat '0', ['0'], ?_, ?_, ?_, ?_⟩
  · unfold positional
    dsimp only
    rw [if_pos (by omega), String.toList_append, String.toList_ofList]
    rfl
  · exact List.append_ne_nil_of_left_ne_nil Nat.toDigits_ne_nil _
  · intro c hc
    rw [List.append_assoc, show ['0'] = List.replicate 1 '0' from rfl,
      List.replicate_append_replicate, List.mem_append] at hc
    exact hc.elim isDigit_of_mem_toDigits isDigit_of_mem_zeros
  · rw [List.append_assoc, show ['0'] = List.replicate 1 '0' from rfl,
      List.replicate_append_replicate, digitsValue_append_zeros, digitsValue_toDigits, ofDecimal_shift_pow]
    congr 2
    rw [List.length_replicate]
    omega

/-- A decimal with places has them after the point, and zeros before its digits where there are too
few. -/
theorem exists_pointed_of_places {d : Decimal} (h : d.exponent < 0) :
    ∃ before after, Pointed d.positional d before after := by
  obtain ⟨padded, hpadded⟩ : ∃ padded, padded =
      List.replicate ((-d.exponent).toNat + 1 - (Nat.toDigits 10 d.digits).length) '0' ++
        Nat.toDigits 10 d.digits := ⟨_, rfl⟩
  have hlength : (-d.exponent).toNat < padded.length := by
    rw [hpadded, List.length_append, List.length_replicate]
    omega
  refine ⟨padded.take (padded.length - (-d.exponent).toNat),
    padded.drop (padded.length - (-d.exponent).toNat), ?_, ?_, ?_, ?_⟩
  · unfold positional
    dsimp only
    rw [if_neg (by omega), String.toList_ofList, ← hpadded]
  · intro hnil
    have := congrArg List.length hnil
    rw [List.length_take, List.length_nil] at this
    omega
  · intro c hc
    rw [List.take_append_drop, hpadded, List.mem_append] at hc
    exact hc.elim isDigit_of_mem_zeros isDigit_of_mem_toDigits
  · rw [List.take_append_drop, List.length_drop,
      show padded.length - (padded.length - (-d.exponent).toNat) = (-d.exponent).toNat by omega,
      hpadded, digitsValue_zeros_append, digitsValue_toDigits]
    congr 2
    omega

/-! ## Numbers with an exponent -/

/-- The first digit of a decimal, and the others after a point if there are any. -/
def mantissa (digits : List Char) : List Char :=
  if digits.length ≤ 1 then digits else digits.take 1 ++ '.' :: digits.drop 1

/-- Scientific notation is a mantissa, the letter and a power. -/
theorem toList_scientific (d : Decimal) :
    d.scientific.toList = mantissa (Nat.toDigits 10 d.digits) ++
      'e' :: (d.exponent + (Nat.toDigits 10 d.digits).length - 1).repr.toList := by
  unfold scientific
  dsimp only
  rw [String.toList_append, String.toList_append, String.toList_ofList, Int.toString_eq_repr,
    List.append_assoc]
  rfl

/-- A mantissa has the digits, and a point at most. -/
theorem mem_mantissa {digits : List Char} {c : Char} (h : c ∈ mantissa digits) :
    c ∈ digits ∨ c = '.' := by
  unfold mantissa at h
  split at h
  · exact .inl h
  · rw [List.mem_append, List.mem_cons] at h
    obtain h | rfl | h := h
    · exact .inl (List.mem_of_mem_take h)
    · exact .inr rfl
    · exact .inl (List.mem_of_mem_drop h)

/-- Without the point, the mantissa is the digits. -/
theorem filter_mantissa {digits : List Char} (h : ∀ c ∈ digits, c.isDigit = true) :
    (mantissa digits).filter (· != '.') = digits := by
  have hall : digits.filter (· != '.') = digits := by
    refine List.filter_eq_self.2 fun c hc => ?_
    rw [bne_iff_ne]
    exact ne_of_isDigit (h c hc) (by decide)
  unfold mantissa
  split
  · exact hall
  · rw [List.filter_append, List.filter_cons_of_neg (by decide), ← List.filter_append,
      List.take_append_drop, hall]

/-- A mantissa starts with the first digit. -/
theorem exists_mantissa (first : Char) (digits : List Char) :
    ∃ tail, mantissa (first :: digits) = first :: tail := by
  unfold mantissa
  split
  · exact ⟨digits, rfl⟩
  · exact ⟨'.' :: digits, rfl⟩

/-- Naturals with the same digits are equal. -/
theorem toDigits_inj {m n : Nat} (h : Nat.toDigits 10 m = Nat.toDigits 10 n) : m = n := by
  have := congrArg digitsValue h
  rwa [digitsValue_toDigits, digitsValue_toDigits] at this

/-- A natural is written with its digits. -/
theorem toList_repr (n : Nat) : n.repr.toList = Nat.toDigits 10 n := by
  rw [Nat.repr_eq_ofList_toDigits, String.toList_ofList]

/-- A power has digits, and a sign at most. -/
theorem mem_power {i : Int} {c : Char} (h : c ∈ i.repr.toList) : c.isDigit = true ∨ c = '-' := by
  rw [Int.repr_eq_if] at h
  split at h
  · rw [toList_repr] at h
    exact .inl (isDigit_of_mem_toDigits h)
  · rw [String.toList_append, toList_repr, List.mem_append] at h
    exact h.elim (fun h => .inr (List.mem_singleton.1 h)) fun h => .inl (isDigit_of_mem_toDigits h)

/-- The letter before the power does not occur in a mantissa. -/
theorem ne_e_of_mem_mantissa {n : Nat} {c : Char} (h : c ∈ mantissa (Nat.toDigits 10 n)) :
    (c != 'e') = true := by
  rw [bne_iff_ne]
  obtain h | rfl := mem_mantissa h
  · exact ne_of_isDigit (isDigit_of_mem_toDigits h) (by decide)
  · decide

/-- A text with an exponent tells its decimal. -/
theorem scientific_inj {d d' : Decimal} (h : d.scientific = d'.scientific) : d = d' := by
  have htexts := congrArg String.toList h
  rw [toList_scientific, toList_scientific] at htexts
  obtain ⟨hmantissa, hpower⟩ := Text.append_inj_of_stops (P := (· != 'e'))
    (fun _ => ne_e_of_mem_mantissa) (fun _ => ne_e_of_mem_mantissa)
    (Text.stops_cons rfl _) (Text.stops_cons rfl _) htexts
  have hchars := congrArg (List.filter (· != '.')) hmantissa
  rw [filter_mantissa fun _ => isDigit_of_mem_toDigits,
    filter_mantissa fun _ => isDigit_of_mem_toDigits] at hchars
  have hdigits := toDigits_inj hchars
  have hexponent := Int.repr_inj.1 (String.toList_inj.1 (List.cons.inj hpower).2)
  rw [hchars] at hexponent
  obtain ⟨digits, exponent⟩ := d
  obtain ⟨digits', exponent'⟩ := d'
  dsimp only at hdigits hexponent
  rw [hdigits, show exponent = exponent' by omega]

end Decimal

namespace Number

/-! ## Structural texts -/

/-- A finite number is written as a sign and its magnitude. -/
theorem inspect_finite (negative : Bool) (units : Nat) (h : Representable units) :
    (finite negative units h).inspect = withSign negative (unsigned units) := rfl

/-- Zero is not rounded. -/
theorem round_zero (den : Nat) : round 0 den = 0 := by
  unfold round nearest
  dsimp only
  rw [Nat.zero_div, Nat.zero_div, Nat.zero_mod, Nat.mul_zero]
  split
  · exact Nat.zero_mul _
  · omega

/-- Zero is read as zero, whatever its power. -/
theorem ofDecimal_zero (exponent : Int) (h : Representable 0) :
    ofDecimal false ⟨0, exponent⟩ = .finite false 0 h := by
  unfold ofDecimal ofQuotient
  dsimp only
  rw [Nat.zero_mul, Nat.zero_mul]
  simp only [round_zero, dif_pos h.2]

/-- A magnitude is written without an exponent, or with one and as its shortest decimal. -/
theorem unsigned_cases {units : Nat} (h : Representable units) :
    (∃ d before after, Decimal.Pointed (unsigned units) d before after ∧
      ofDecimal false d = .finite false units h) ∨
    units ≠ 0 ∧ unsigned units = (Decimal.shortest units).scientific := by
  unfold unsigned
  split
  · rename_i hzero
    subst hzero
    refine .inl ⟨⟨0, -1⟩, ['0'], ['0'], ?_, ofDecimal_zero _ h⟩
    exact ⟨rfl, by simp, List.all_eq_true.1 rfl, rfl⟩
  · rename_i hunits
    have hreads := Decimal.ofDecimal_shortest false hunits h
    dsimp only
    split
    · exact .inr ⟨hunits, rfl⟩
    left
    split
    · obtain ⟨before, after, hpointed⟩ := Decimal.exists_pointed_of_whole ‹_›
      exact ⟨_, before, after, hpointed, hreads⟩
    · obtain ⟨before, after, hpointed⟩ := Decimal.exists_pointed_of_places (Int.not_le.1 ‹_›)
      exact ⟨_, before, after, hpointed, hreads⟩

/-- What is written with a point reads back as a literal. -/
theorem ofLiteral_of_pointed {text : String} {d : Decimal} {before after : List Char}
    (h : Decimal.Pointed text d before after) : ofLiteral text = ofDecimal false d := by
  have hbefore : ∀ c ∈ before, (c != '.') = true := by
    intro c hc
    rw [bne_iff_ne]
    exact Decimal.ne_of_isDigit (h.isDigit c (List.mem_append_left _ hc)) (by decide)
  unfold ofLiteral
  dsimp only
  rw [h.toList_eq, List.takeWhile_append_of_pos hbefore, List.dropWhile_append_of_pos hbefore,
    List.takeWhile_cons_of_neg (by decide), List.dropWhile_cons_of_neg (by decide),
    List.append_nil, List.drop_one, List.tail_cons]
  exact h.reads

/-- No two magnitudes have the same text. -/
theorem unsigned_inj {units units' : Nat} (h : Representable units) (h' : Representable units')
    (heq : unsigned units = unsigned units') : units = units' := by
  -- an exponent mark is no digit and no point, so the two ways to write a number are told apart
  have hpart : ∀ {text : String} {d d' : Decimal} {before after : List Char},
      Decimal.Pointed text d before after → text ≠ d'.scientific := by
    intro text d d' before after hpointed htext
    have hmem : 'e' ∈ text.toList := by
      rw [htext, Decimal.toList_scientific]
      simp
    rw [hpointed.toList_eq, List.mem_append, List.mem_cons] at hmem
    obtain hmem | hmem | hmem := hmem
    · exact absurd (hpointed.isDigit _ (List.mem_append_left _ hmem)) (by decide)
    · cases hmem
    · exact absurd (hpointed.isDigit _ (List.mem_append_right _ hmem)) (by decide)
  have hreads : Number.finite false units h = .finite false units' h' := by
    obtain ⟨d, before, after, hpointed, hd⟩ | ⟨hunits, hscientific⟩ := unsigned_cases h
    · obtain ⟨d', before', after', hpointed', hd'⟩ | ⟨-, hscientific'⟩ := unsigned_cases h'
      · rw [← hd, ← hd', ← ofLiteral_of_pointed hpointed, ← ofLiteral_of_pointed hpointed', heq]
      · exact absurd (heq.trans hscientific') (hpart hpointed)
    · obtain ⟨d', before', after', hpointed', -⟩ | ⟨hunits', hscientific'⟩ := unsigned_cases h'
      · exact absurd (heq.symm.trans hscientific) (hpart hpointed')
      · rw [← Decimal.ofDecimal_shortest false hunits h,
          ← Decimal.ofDecimal_shortest false hunits' h',
          Decimal.scientific_inj (hscientific.symm.trans (heq.trans hscientific'))]
  cases hreads
  rfl

/-- The characters that texts of finite numbers are made of. -/
def isNumeral (c : Char) : Bool := c.isDigit || c == '.' || c == 'e' || c == '-'

/-- Digits belong to numerals. -/
theorem isNumeral_of_isDigit {c : Char} (h : c.isDigit = true) : isNumeral c = true := by
  unfold isNumeral
  rw [h]
  rfl

/-- The text of a magnitude starts with a digit, and a point or an exponent tells it from a row of
digits. -/
theorem exists_unsigned {units : Nat} (h : Representable units) :
    ∃ first rest, (unsigned units).toList = first :: rest ∧ first.isDigit = true ∧
      (∀ c ∈ rest, isNumeral c = true) ∧ ('.' ∈ rest ∨ 'e' ∈ rest) := by
  obtain ⟨d, before, after, hpointed, -⟩ | ⟨-, hscientific⟩ := unsigned_cases h
  · obtain ⟨first, before, rfl⟩ := List.exists_cons_of_ne_nil hpointed.before_ne_nil
    refine ⟨first, before ++ '.' :: after, hpointed.toList_eq, hpointed.isDigit _ (by simp), ?_,
      .inl (by simp)⟩
    intro c hc
    rw [List.mem_append, List.mem_cons] at hc
    obtain hc | rfl | hc := hc
    · exact isNumeral_of_isDigit (hpointed.isDigit c (by simp [hc]))
    · rfl
    · exact isNumeral_of_isDigit (hpointed.isDigit c (by simp [hc]))
  · have htext := Decimal.toList_scientific (Decimal.shortest units)
    have hdigits : ∀ c ∈ Nat.toDigits 10 (Decimal.shortest units).digits, c.isDigit = true :=
      fun _ => Decimal.isDigit_of_mem_toDigits
    obtain ⟨first, digits, hcons⟩ := List.exists_cons_of_ne_nil
      (Nat.toDigits_ne_nil (n := (Decimal.shortest units).digits) (b := 10))
    obtain ⟨tail, htail⟩ := Decimal.exists_mantissa first digits
    rw [← hscientific, hcons, htail, List.cons_append] at htext
    rw [hcons] at hdigits
    refine ⟨first, _, htext, hdigits _ (by simp), ?_, .inr (by simp)⟩
    intro c hc
    rw [List.mem_append, List.mem_cons] at hc
    obtain hc | rfl | hc := hc
    · have hmem : c ∈ Decimal.mantissa (first :: digits) := by simp [htail, hc]
      obtain hmem | rfl := Decimal.mem_mantissa hmem
      · exact isNumeral_of_isDigit (hdigits c hmem)
      · rfl
    · rfl
    · obtain hc | rfl := Decimal.mem_power hc
      · exact isNumeral_of_isDigit hc
      · rfl

/-- No two finite numbers have the same structural text. -/
theorem inspect_inj {x y : Number} (hx : x.isFinite = true) (hy : y.isFinite = true)
    (h : x.inspect = y.inspect) : x = y := by
  have hsign : ∀ {units units' : Nat}, Representable units → Representable units' →
      "-" ++ unsigned units ≠ unsigned units' := by
    intro units units' _ hunits' heq
    obtain ⟨first, rest, htext, hdigit, -⟩ := exists_unsigned hunits'
    rw [← heq, String.toList_append] at htext
    rw [← (List.cons.inj htext).1] at hdigit
    exact absurd hdigit (by decide)
  cases x with
  | nan | infinite => cases hx
  | finite negative units hunits =>
    cases y with
    | nan | infinite => cases hy
    | finite negative' units' hunits' =>
      rw [inspect_finite, inspect_finite] at h
      cases negative <;> cases negative'
      · obtain rfl := unsigned_inj hunits hunits' h
        rfl
      · exact absurd h.symm (hsign hunits' hunits)
      · exact absurd h (hsign hunits hunits')
      · obtain rfl := unsigned_inj hunits hunits' ((String.append_right_inj _).1 h)
        rfl

/-- The text starts as numbers do: with a digit, or with a minus sign and a digit. -/
def startsNumber : List Char → Bool
  | '-' :: c :: _ => c.isDigit
  | c :: _ => c.isDigit
  | [] => false

/-- What starts with a digit starts a number. -/
theorem startsNumber_of_isDigit {first : Char} (h : first.isDigit = true) (rest : List Char) :
    startsNumber (first :: rest) = true := by
  unfold startsNumber
  split
  · rename_i heq
    rw [(List.cons.inj heq).1] at h
    exact absurd h (by decide)
  · rename_i heq
    rwa [← (List.cons.inj heq).1]
  · rename_i heq
    cases heq

/-- How the text of a finite number looks. -/
theorem inspect_shape {x : Number} (h : x.isFinite = true) :
    startsNumber x.inspect.toList = true ∧ (∀ c ∈ x.inspect.toList, isNumeral c = true) ∧
      ∃ c ∈ x.inspect.toList, c.isDigit = false := by
  cases x with
  | nan | infinite => cases h
  | finite negative units hunits =>
    obtain ⟨first, rest, htext, hdigit, hrest, hmark⟩ := exists_unsigned hunits
    obtain ⟨c, hc, hmark⟩ : ∃ c ∈ rest, c.isDigit = false :=
      hmark.elim (fun h => ⟨_, h, by decide⟩) fun h => ⟨_, h, by decide⟩
    have hall : ∀ c ∈ first :: rest, isNumeral c = true :=
      List.forall_mem_cons.2 ⟨isNumeral_of_isDigit hdigit, hrest⟩
    rw [inspect_finite]
    cases negative with
    | false =>
        rw [show withSign false (unsigned units) = unsigned units from rfl, htext]
        exact ⟨startsNumber_of_isDigit hdigit rest, hall, c, by simp [hc], hmark⟩
    | true =>
        have hsigned : (withSign true (unsigned units)).toList = '-' :: first :: rest := by
          rw [show withSign true (unsigned units) = "-" ++ unsigned units from rfl,
            String.toList_append, htext]
          rfl
        rw [hsigned]
        exact ⟨hdigit, List.forall_mem_cons.2 ⟨rfl, hall⟩, c, by simp [hc], hmark⟩

end Number

end ListScript
