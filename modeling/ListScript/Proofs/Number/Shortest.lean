import ListScript.Number.Decimal
import Mathlib.Tactic.Linarith
import Mathlib.Tactic.Ring

/-!
# Shortest decimals read back

The decimals in the basin of a magnitude round to it (`Decimal.ofDecimal_of_contains`), and a grid of
seventeen digits is too fine to miss the basin (`Decimal.Basin.isSome_pick?`). So the shortest decimal
of a double reads back as that double (`Decimal.ofDecimal_shortest`).
-/

namespace ListScript

namespace Number

/-! ## Rounding -/

/-- A whole number is the nearest one to a quotient if it is at most a half away, and even when it
is a half away. -/
theorem nearest_eq {num den n : Nat} (hden : 0 < den) (hlow : 2 * (n * den) ≤ 2 * num + den)
    (hhigh : 2 * num ≤ 2 * (n * den) + den)
    (htie : 2 * (n * den) = 2 * num + den ∨ 2 * num = 2 * (n * den) + den → n % 2 = 0) :
    nearest num den = n := by
  have hnum := Nat.div_add_mod num den
  have hrest := Nat.mod_lt num hden
  unfold nearest
  dsimp only
  generalize num / den = q at *
  generalize num % den = r at *
  have hle : n ≤ q + 1 := by
    by_contra hlt
    have := Nat.mul_le_mul_right den (show q + 2 ≤ n by omega)
    rw [Nat.add_mul, Nat.mul_comm q] at this
    omega
  have hge : q ≤ n := by
    by_contra hlt
    have := Nat.mul_le_mul_right den (show n + 1 ≤ q by omega)
    rw [Nat.add_mul, Nat.mul_comm q] at this
    omega
  obtain rfl | rfl : n = q ∨ n = q + 1 := by omega
  · rw [Nat.mul_comm] at hnum
    split <;> omega
  · rw [Nat.mul_comm] at hnum
    rw [Nat.add_mul, Nat.one_mul] at hlow hhigh htie
    split <;> omega

/-- Rounding a quotient does not depend on how it is written. -/
theorem round_mul_right (num den : Nat) {k : Nat} (hk : 0 < k) :
    round (num * k) (den * k) = round num den := by
  unfold round
  rw [Nat.mul_div_mul_right _ _ hk]
  dsimp only
  generalize Nat.pow 2 (spare (num / den)) = grid
  unfold nearest
  rw [show den * k * grid = den * grid * k by ring, Nat.mul_div_mul_right _ _ hk,
    Nat.mul_mod_mul_right]
  have hlt :
      2 * (num % (den * grid) * k) < den * grid * k ↔ 2 * (num % (den * grid)) < den * grid := by
    rw [← Nat.mul_assoc, Nat.mul_lt_mul_right hk]
  have heq :
      2 * (num % (den * grid) * k) = den * grid * k ↔ 2 * (num % (den * grid)) = den * grid := by
    rw [← Nat.mul_assoc, Nat.mul_left_inj (by omega)]
  simp only [hlt, heq]

/-- How many bits a magnitude can spare, from the powers of two around it. -/
theorem spare_eq {n bits : Nat} (hlow : bits = 0 ∨ 2 ^ 52 * 2 ^ bits ≤ n)
    (hhigh : n < 2 ^ 53 * 2 ^ bits) : spare n = bits := by
  rw [← Nat.pow_add] at hlow hhigh
  unfold spare
  by_cases hn : n = 0
  · subst hn
    have : 0 < 2 ^ (52 + bits) := Nat.two_pow_pos _
    rw [Nat.log2_zero]
    omega
  · have hlt := (Nat.log2_lt hn).2 hhigh
    obtain rfl | hle := hlow
    · omega
    · have := (Nat.le_log2 hn).2 hle
      omega

/-- A magnitude is a number of grid steps below `2 ^ 53`, and from `2 ^ 52` on if it spares bits. -/
theorem exists_steps {units : Nat} (h : Nat.pow 2 (spare units) ∣ units) :
    ∃ steps, units = steps * 2 ^ spare units ∧ steps < 2 ^ 53 ∧
      (spare units = 0 ∨ 2 ^ 52 ≤ steps) := by
  obtain ⟨steps, hsteps⟩ := h
  rw [Nat.pow_eq, Nat.mul_comm] at hsteps
  have hpos : 0 < 2 ^ spare units := Nat.two_pow_pos _
  refine ⟨steps, hsteps, ?_, ?_⟩
  · have hlt := lt_two_pow_spare units
    rw [Nat.pow_eq, Nat.add_comm, Nat.pow_add] at hlt
    exact Nat.lt_of_mul_lt_mul_right (Nat.lt_of_le_of_lt (Nat.le_of_eq hsteps.symm) hlt)
  · by_cases hspare : spare units = 0
    · exact .inl hspare
    · right
      have hne : units ≠ 0 := by
        rintro rfl
        exact hspare rfl
      have hle : 2 ^ (52 + spare units) ≤ units :=
        (Nat.le_log2 hne).1 (by unfold spare at hspare ⊢; omega)
      rw [Nat.pow_add] at hle
      exact Nat.le_of_mul_le_mul_right (Nat.le_trans hle (Nat.le_of_eq hsteps)) hpos

end Number

namespace Decimal

open Number

/-! ## Basins -/

/-- The magnitude is a power of two, with a finer grid below it than above. -/
def isFiner (units : Nat) : Bool :=
  spare units ≠ 0 && units = Nat.pow 2 52 * Nat.pow 2 (spare units)

/-- The quotient of quarters of a unit lies in the basin. -/
def Basin.Holds (basin : Basin) (point scale : Nat) : Prop :=
  basin.low * scale ≤ point ∧ point ≤ basin.high * scale ∧
    (basin.low * scale = point ∨ point = basin.high * scale → basin.closed = true)

theorem Basin.contains_iff {basin : Basin} {d : Decimal} :
    basin.contains d = true ↔
      basin.Holds (d.digits * Nat.pow 10 d.exponent.toNat * (4 * one))
        (Nat.pow 10 (-d.exponent).toNat) := by
  unfold Basin.contains Basin.Holds
  generalize d.digits * Nat.pow 10 d.exponent.toNat * (4 * one) = point
  generalize Nat.pow 10 (-d.exponent).toNat = scale
  dsimp only
  generalize basin.low * scale = low
  generalize basin.high * scale = high
  cases hclosed : basin.closed
  · simp
    omega
  · simp

section

variable {units : Nat}

theorem Basin.closed_of (steps : Nat) (h : units = steps * 2 ^ spare units)
    (hclosed : (Basin.of units).closed = true) : steps % 2 = 0 := by
  have hdiv : units / 2 ^ spare units = steps :=
    Nat.div_eq_of_eq_mul_left (Nat.two_pow_pos _) h
  have : units / 2 ^ spare units % 2 = 0 := of_decide_eq_true hclosed
  rwa [hdiv] at this

theorem steps_of_finer {steps : Nat} (hsteps : units = steps * 2 ^ spare units)
    (h : isFiner units = true) : steps = 2 ^ 52 ∧ spare units ≠ 0 := by
  unfold isFiner at h
  rw [Bool.and_eq_true, decide_eq_true_eq, decide_eq_true_eq, Nat.pow_eq, Nat.pow_eq] at h
  exact ⟨Nat.eq_of_mul_eq_mul_right (Nat.two_pow_pos _) (hsteps.symm.trans h.2), h.1⟩

theorem steps_ne_of_not_finer {steps : Nat} (hsteps : units = steps * 2 ^ spare units)
    (h : isFiner units = false) (hspare : spare units ≠ 0) : steps ≠ 2 ^ 52 := by
  rintro rfl
  unfold isFiner at h
  rw [Bool.and_eq_false_iff, decide_eq_false_iff_not, decide_eq_false_iff_not] at h
  exact h.elim (fun h => h hspare) (fun h => h hsteps)

/-- A magnitude on a finer scale, in steps of its grid on that scale. -/
theorem units_mul_scale {steps scale step : Nat} (hsteps : units = steps * 2 ^ spare units)
    (hstep : step = scale * 2 ^ spare units) : units * scale = steps * step := by
  rw [hstep]
  nth_rewrite 1 [hsteps]
  ring

/-- The ends of a basin in steps of its grid: half a step up, and a half or a quarter of a step
down. -/
theorem Basin.ends {steps scale step : Nat} (hsteps : units = steps * 2 ^ spare units)
    (hstep : step = scale * 2 ^ spare units) :
    (Basin.of units).high * scale = 4 * (steps * step) + 2 * step ∧
      (Basin.of units).low * scale =
        4 * (steps * step) - (if isFiner units = true then step else 2 * step) := by
  have hcentre : 4 * units * scale = 4 * (steps * step) := by
    rw [Nat.mul_assoc, units_mul_scale hsteps hstep]
  have hgrid : 2 ^ spare units * scale = step := by rw [hstep, Nat.mul_comm]
  constructor
  · show (4 * units + 2 * 2 ^ spare units) * scale = _
    rw [Nat.add_mul, hcentre, Nat.mul_assoc, hgrid]
  · show (4 * units - (if isFiner units = true then 2 ^ spare units else 2 * 2 ^ spare units)) *
      scale = _
    rw [Nat.sub_mul, hcentre]
    by_cases hfiner : isFiner units = true
    · rw [if_pos hfiner, if_pos hfiner, hgrid]
    · rw [if_neg hfiner, if_neg hfiner, Nat.mul_assoc, hgrid]

/-- What a basin holds, in steps of its grid. The ends belong to it only around an even number of
steps. -/
theorem Basin.Holds.bounds {steps num den step : Nat} (h : (Basin.of units).Holds (4 * num) den)
    (hsteps : units = steps * 2 ^ spare units) (hstep : step = den * 2 ^ spare units) :
    4 * num ≤ 4 * (steps * step) + 2 * step ∧
      4 * (steps * step) ≤ 4 * num + 2 * step ∧
      (isFiner units = true → 4 * (steps * step) ≤ 4 * num + step) ∧
      (4 * num = 4 * (steps * step) + 2 * step ∨ 4 * (steps * step) = 4 * num + 2 * step →
        steps % 2 = 0) := by
  obtain ⟨hlow, hhigh, htie⟩ := h
  obtain ⟨hhigh_eq, hlow_eq⟩ := Basin.ends hsteps hstep
  have heven := Basin.closed_of steps hsteps
  cases hfiner : isFiner units with
  | false =>
      rw [if_neg (by rw [hfiner]; decide)] at hlow_eq
      refine ⟨by omega, by omega, by simp, fun hends => heven (htie ?_)⟩
      omega
  | true =>
      rw [if_pos hfiner] at hlow_eq
      have hstep_le : step ≤ steps * step := by
        rw [(steps_of_finer hsteps hfiner).1]
        omega
      refine ⟨by omega, by omega, fun _ => by omega, fun hends => heven (htie ?_)⟩
      omega

/-- What the basin of a magnitude holds is rounded to that magnitude. -/
theorem round_of_holds {num den : Nat} (hden : 0 < den) (hdvd : Nat.pow 2 (spare units) ∣ units)
    (h : (Basin.of units).Holds (4 * num) den) : Number.round num den = units := by
  obtain ⟨steps, hsteps, hlt, hge⟩ := exists_steps hdvd
  obtain ⟨step, hstep⟩ : ∃ step, step = den * 2 ^ spare units := ⟨_, rfl⟩
  have hpos : 0 < step := hstep ▸ Nat.mul_pos hden (Nat.two_pow_pos _)
  obtain ⟨hhigh, hlow, hfine, htie⟩ := h.bounds hsteps hstep
  by_cases hbelow : isFiner units = true ∧ num < steps * step
  · -- the quotient is on the finer grid below a power of two, of which the power is `2 ^ 53` steps
    obtain ⟨rfl, hspare⟩ := steps_of_finer hsteps hbelow.1
    obtain ⟨bits, hbits⟩ : ∃ bits, spare units = bits + 1 := ⟨spare units - 1, by omega⟩
    have hhalf : step = 2 * (den * 2 ^ bits) := by rw [hstep, hbits, Nat.pow_succ]; ring
    have hlow := hfine hbelow.1
    have hnum := hbelow.2
    have hgrid : spare (num / den) = bits := by
      refine spare_eq (.inr ?_) ?_
      · rw [Nat.le_div_iff_mul_le hden, Nat.mul_assoc, Nat.mul_comm (2 ^ bits)]
        omega
      · rw [Nat.div_lt_iff_lt_mul hden, Nat.mul_assoc, Nat.mul_comm (2 ^ bits)]
        omega
    unfold Number.round
    dsimp only
    rw [hgrid, Nat.pow_eq, nearest_eq (n := 2 ^ 53) (Nat.mul_pos hden (Nat.two_pow_pos _))
      (by omega) (by omega) (fun _ => by decide), hsteps, hbits]
    omega
  · -- elsewhere the quotient is on the grid of the magnitude itself
    have hgrid : spare (num / den) = spare units := by
      have hunits : ∀ k, k * 2 ^ spare units * den = k * step := by
        intro k
        rw [hstep]
        ring
      refine spare_eq ?_ ?_
      · by_cases hspare : spare units = 0
        · exact .inl hspare
        right
        rw [Nat.le_div_iff_mul_le hden, hunits]
        cases hfiner : isFiner units with
        | true =>
            rw [← (steps_of_finer hsteps hfiner).1]
            exact Nat.le_of_not_lt fun hnum => hbelow ⟨hfiner, hnum⟩
        | false =>
            have hne := steps_ne_of_not_finer hsteps hfiner hspare
            have := Nat.mul_le_mul_right step (show 2 ^ 52 + 1 ≤ steps by omega)
            rw [Nat.add_mul] at this
            omega
      · rw [Nat.div_lt_iff_lt_mul hden, hunits]
        have := Nat.mul_le_mul_right step (show steps + 1 ≤ 2 ^ 53 from hlt)
        rw [Nat.add_mul] at this
        omega
    unfold Number.round
    dsimp only
    rw [hgrid, Nat.pow_eq, ← hstep, nearest_eq hpos (by omega) (by omega)
      (fun hends => htie (by omega)), ← hsteps]

/-- A decimal in the basin of a double reads as that double. -/
theorem ofDecimal_of_contains (negative : Bool) (h : Representable units) {d : Decimal}
    (hd : (Basin.of units).contains d = true) :
    ofDecimal negative d = .finite negative units h := by
  -- the basin measures in quarters of a unit, rounding in units
  have hround : Number.round (d.digits * Nat.pow 10 d.exponent.toNat * one)
      (Nat.pow 10 (-d.exponent).toNat) = units := by
    have hholds := Basin.contains_iff.1 hd
    rw [Nat.mul_left_comm] at hholds
    exact round_of_holds (Nat.pow_pos (by decide)) h.1 hholds
  unfold ofDecimal ofQuotient
  dsimp only
  simp only [hround, dif_pos h.2]

/-! ## Seventeen digits -/

theorem Basin.contains_of_pick? {basin : Basin} {exponent : Int} {d : Decimal}
    (h : basin.pick? exponent = some d) : basin.contains d = true := by
  unfold Basin.pick? at h
  generalize basin.neighbours exponent = sides at h
  obtain ⟨below, above, nearer⟩ := sides
  dsimp only at h
  cases hbelow : basin.contains below <;> cases habove : basin.contains above <;>
    rw [hbelow, habove] at h
  · cases h
  · cases h
    exact habove
  · cases h
    exact hbelow
  · cases nearer
    · cases h
      exact habove
    · cases h
      exact hbelow

theorem Basin.isSome_pick?_of_contains {basin : Basin} {exponent : Int}
    (h : basin.contains (basin.neighbours exponent).1 = true ∨
      basin.contains (basin.neighbours exponent).2.1 = true) :
    (basin.pick? exponent).isSome = true := by
  unfold Basin.pick?
  generalize basin.neighbours exponent = sides at *
  obtain ⟨below, above, nearer⟩ := sides
  dsimp only at h ⊢
  cases hbelow : basin.contains below <;> cases habove : basin.contains above <;>
    simp_all

/-- The search ends in the basin if some grid that it comes to has a point there. -/
theorem Basin.contains_search {basin : Basin} {left : Nat} {exponent : Int} {i : Nat}
    (hi : i < left) (h : (basin.pick? (exponent - i)).isSome = true) :
    basin.contains (basin.search left exponent) = true := by
  induction left generalizing exponent i with
  | zero => omega
  | succ left ih =>
      unfold Basin.search
      cases hpick : basin.pick? exponent with
      | some d => exact Basin.contains_of_pick? hpick
      | none =>
          cases i with
          | zero =>
              rw [Int.natCast_zero, Int.sub_zero, hpick] at h
              cases h
          | succ i =>
              refine ih (i := i) (by omega) ?_
              rw [show exponent - 1 - (i : Int) = exponent - ((i + 1 : Nat) : Int) by omega]
              exact h

theorem lt_ten_pow_digitCount (n : Nat) : n < 10 ^ digitCount n := by
  unfold digitCount
  split
  · subst_vars
    decide
  · exact (Nat.length_toDigits_le_iff (by decide) (Nat.length_toDigits_pos ..)).1 (Nat.le_refl _)

theorem ten_pow_digitCount_le {n : Nat} (hn : n ≠ 0) : 10 ^ (digitCount n - 1) ≤ n := by
  unfold digitCount
  rw [if_neg hn]
  by_contra hlt
  have hpos := Nat.length_toDigits_pos (b := 10) (n := n)
  by_cases hone : (Nat.toDigits 10 n).length = 1
  · rw [hone] at hlt
    omega
  · have := (Nat.length_toDigits_le_iff (by decide) (by omega)).2 (Nat.lt_of_not_le hlt)
    omega

/-- A magnitude is not below the power of ten that its first digit stands at. -/
theorem ten_pow_magnitude_le (hunits : units ≠ 0) :
    one * 10 ^ (magnitude units - 1).toNat ≤ units * 10 ^ (1 - magnitude units).toNat := by
  unfold magnitude
  have hone : 0 < one := by decide +kernel
  generalize one = unit at *
  split
  · rename_i hle
    have hpos : units / unit ≠ 0 := (Nat.div_pos hle hone).ne'
    have hcount := ten_pow_digitCount_le hpos
    have hcount_pos : 0 < digitCount (units / unit) := by
      unfold digitCount
      rw [if_neg hpos]
      exact Nat.length_toDigits_pos
    rw [show ((digitCount (units / unit) : Int) - 1).toNat = digitCount (units / unit) - 1 by omega,
      show (1 - (digitCount (units / unit) : Int)).toNat = 0 by omega, Nat.pow_zero, Nat.mul_one]
    calc unit * 10 ^ (digitCount (units / unit) - 1)
        ≤ unit * (units / unit) := Nat.mul_le_mul_left _ hcount
      _ ≤ units := Nat.mul_div_le _ _
  · have hlt := lt_ten_pow_digitCount ((unit - 1) / units)
    rw [Nat.div_lt_iff_lt_mul (Nat.pos_of_ne_zero hunits), Nat.mul_comm] at hlt
    generalize digitCount ((unit - 1) / units) = count at *
    rw [show (1 - (count : Int) - 1).toNat = 0 by omega,
      show (1 - (1 - (count : Int))).toNat = count by omega, Nat.pow_zero]
    omega

/-- The grid sixteen places below the first digit has steps of at most `10 ^ -16` of the
magnitude. -/
theorem ten_pow_grid_le (hunits : units ≠ 0) {exponent : Int}
    (hexponent : exponent = magnitude units - 17) :
    10 ^ 16 * (one * 10 ^ exponent.toNat) ≤ units * 10 ^ (-exponent).toNat := by
  have h := ten_pow_magnitude_le hunits
  rw [show magnitude units - 1 = exponent + 16 by omega,
    show 1 - magnitude units = -(exponent + 16) by omega] at h
  generalize one = unit at *
  by_cases hlow : exponent + 16 < 0
  · rw [show (exponent + 16).toNat = 0 by omega] at h
    rw [show exponent.toNat = 0 by omega,
      show (-exponent).toNat = (-(exponent + 16)).toNat + 16 by omega, Nat.pow_add,
      ← Nat.mul_assoc units]
    omega
  · rw [show (-(exponent + 16)).toNat = 0 by omega] at h
    have hpow : exponent.toNat + 16 = (exponent + 16).toNat + (-exponent).toNat := by omega
    calc 10 ^ 16 * (unit * 10 ^ exponent.toNat)
        = unit * 10 ^ (exponent.toNat + 16) := by rw [Nat.pow_add]; ring
      _ = unit * 10 ^ (exponent + 16).toNat * 10 ^ (-exponent).toNat := by
          rw [hpow, Nat.pow_add]; ring
      _ ≤ units * 10 ^ 0 * 10 ^ (-exponent).toNat := Nat.mul_le_mul_right _ h
      _ = units * 10 ^ (-exponent).toNat := by rw [Nat.pow_zero, Nat.mul_one]

/-- Of two points around the magnitude, less than the basin's width apart, one is in the basin. -/
theorem Basin.holds_or {steps scale step point width : Nat} (hpos : 0 < step) (hne : 0 < steps)
    (hsteps : units = steps * 2 ^ spare units) (hstep : step = scale * 2 ^ spare units)
    (hbelow : point ≤ 4 * (steps * step)) (habove : 4 * (steps * step) < point + width)
    (hwidth : width < 2 * step + (if isFiner units = true then step else 2 * step)) :
    (Basin.of units).Holds point scale ∨ (Basin.of units).Holds (point + width) scale := by
  obtain ⟨hhigh, hlow⟩ := Basin.ends hsteps hstep
  have hstep_le : step ≤ steps * step := Nat.le_mul_of_pos_left step hne
  have hdown : (if isFiner units = true then step else 2 * step) ≤ 2 * step := by
    split <;> omega
  unfold Basin.Holds
  -- if the lower point is below the basin, the upper one cannot be above it as well
  by_cases hin : (Basin.of units).low * scale < point
  · left
    exact ⟨by omega, by omega, by omega⟩
  · right
    exact ⟨by omega, by omega, by omega⟩

/-- The grid sixteen places below the first digit is finer than the basin is wide: the magnitude has
less than `2 ^ 53` steps, and at a power of two only `2 ^ 52`. -/
theorem width_lt {steps scale step width : Nat} (hpos : 0 < step)
    (hsteps : units = steps * 2 ^ spare units) (hlt : steps < 2 ^ 53)
    (hstep : step = scale * 2 ^ spare units) (hwidth : 10 ^ 16 * width ≤ 4 * (units * scale)) :
    width < 2 * step + (if isFiner units = true then step else 2 * step) := by
  have hunits := units_mul_scale hsteps hstep
  have hle := Nat.mul_le_mul_right step (show steps + 1 ≤ 2 ^ 53 from hlt)
  rw [Nat.add_mul] at hle
  split
  · rename_i hfiner
    rw [(steps_of_finer hsteps hfiner).1] at hunits
    omega
  · omega

/-- A grid that fine has a point in the basin next to the magnitude. -/
theorem Basin.isSome_pick? (hunits : units ≠ 0) (hdvd : Nat.pow 2 (spare units) ∣ units) :
    ((Basin.of units).pick? (magnitude units - 17)).isSome = true := by
  obtain ⟨exponent, hexponent⟩ : ∃ exponent, exponent = magnitude units - 17 := ⟨_, rfl⟩
  have hfine := ten_pow_grid_le hunits hexponent
  rw [← hexponent]
  have hone : 0 < one := by decide +kernel
  obtain ⟨steps, hsteps, hlt, -⟩ := exists_steps hdvd
  obtain ⟨scale, hscale⟩ : ∃ scale, scale = Nat.pow 10 (-exponent).toNat := ⟨_, rfl⟩
  obtain ⟨width, hwidth⟩ : ∃ width, width = 4 * one * Nat.pow 10 exponent.toNat := ⟨_, rfl⟩
  obtain ⟨step, hstep⟩ : ∃ step, step = scale * 2 ^ spare units := ⟨_, rfl⟩
  have hpos : 0 < step := by
    rw [hstep, hscale]
    exact Nat.mul_pos (Nat.pow_pos (by decide)) (Nat.two_pow_pos _)
  have hcentre : 4 * units * scale = 4 * (steps * step) := by
    rw [Nat.mul_assoc, units_mul_scale hsteps hstep]
  have hwidth_pos : 0 < width := by
    rw [hwidth]
    exact Nat.mul_pos (Nat.mul_pos (by decide) hone) (Nat.pow_pos (by decide))
  have hbound : 10 ^ 16 * width ≤ 4 * (units * scale) := by
    rw [hwidth, hscale, Nat.pow_eq, Nat.pow_eq, Nat.mul_assoc 4]
    generalize one * 10 ^ exponent.toNat = grid at *
    omega
  have hsteps_pos : 0 < steps := by
    refine Nat.pos_of_ne_zero fun hzero => hunits ?_
    rw [hsteps, hzero, Nat.zero_mul]
  have hnarrow := width_lt hpos hsteps hlt hstep hbound
  have hbelow := Nat.div_mul_le_self (4 * (steps * step)) width
  have habove := Nat.lt_div_mul_add hwidth_pos (a := 4 * (steps * step))
  have hneighbours :
      ((Basin.of units).neighbours exponent).1 = ⟨4 * (steps * step) / width, exponent⟩ ∧
      ((Basin.of units).neighbours exponent).2.1 = ⟨4 * (steps * step) / width + 1, exponent⟩ := by
    rw [← hcentre, hscale, hwidth]
    exact ⟨rfl, rfl⟩
  have hpoint : ∀ q, q * Nat.pow 10 exponent.toNat * (4 * one) = q * width := by
    intro q
    rw [hwidth, Nat.mul_assoc, Nat.mul_comm (Nat.pow 10 _)]
  have hholds := Basin.holds_or hpos hsteps_pos hsteps hstep hbelow habove hnarrow
  refine Basin.isSome_pick?_of_contains (hholds.imp (fun h => ?_) (fun h => ?_))
  · rw [hneighbours.1, Basin.contains_iff]
    dsimp only
    rw [hpoint, ← hscale]
    exact h
  · rw [hneighbours.2, Basin.contains_iff]
    dsimp only
    rw [hpoint, ← hscale, Nat.add_mul, Nat.one_mul]
    exact h

end

/-! ## Reading back -/

/-- A zero at the end of the digits may go into the exponent. -/
theorem ofDecimal_shift (negative : Bool) (digits : Nat) (exponent : Int) :
    ofDecimal negative ⟨digits * 10, exponent⟩ = ofDecimal negative ⟨digits, exponent + 1⟩ := by
  unfold ofDecimal
  dsimp only
  rw [Nat.pow_eq, Nat.pow_eq, Nat.pow_eq, Nat.pow_eq]
  by_cases hexponent : 0 ≤ exponent
  · rw [show (exponent + 1).toNat = exponent.toNat + 1 by omega,
      show (-(exponent + 1)).toNat = (-exponent).toNat by omega, Nat.pow_succ',
      ← Nat.mul_assoc digits]
  · rw [show (exponent + 1).toNat = exponent.toNat by omega,
      show (-exponent).toNat = (-(exponent + 1)).toNat + 1 by omega, Nat.pow_succ]
    have hnum :
        digits * 10 * 10 ^ exponent.toNat * one = digits * 10 ^ exponent.toNat * one * 10 := by
      generalize one = unit
      ring
    unfold ofQuotient
    simp only [hnum, round_mul_right _ _ (show 0 < 10 by decide)]

theorem ofDecimal_trim (negative : Bool) (d : Decimal) (left : Nat) :
    ofDecimal negative (d.trim left) = ofDecimal negative d := by
  induction left generalizing d with
  | zero => rfl
  | succ left ih =>
      unfold trim
      split
      · rename_i hzero
        rw [ih, ← ofDecimal_shift, Nat.div_mul_cancel (Nat.dvd_of_mod_eq_zero hzero)]
      · rfl

/-- The shortest decimal of a double reads back as that double. -/
theorem ofDecimal_shortest (negative : Bool) {units : Nat} (hunits : units ≠ 0)
    (h : Representable units) :
    ofDecimal negative (shortest units) = .finite negative units h := by
  unfold shortest
  rw [ofDecimal_trim]
  refine ofDecimal_of_contains negative h (Basin.contains_search (i := 16) (by decide) ?_)
  rw [show magnitude units - 1 - ((16 : Nat) : Int) = magnitude units - 17 by omega]
  exact Basin.isSome_pick? hunits h.1

end Decimal

end ListScript
