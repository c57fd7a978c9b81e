import ListScript.Lists.Range
import ListScript.Proofs.Number.Integers
import Mathlib.Data.List.Forall2

/-!
# Ranges of integers

Between integers of at most 52 bits the sums that make up a range are exact, since no sum needs more
than 53 bits. The upward walk therefore goes through the integers from the lower bound by the
magnitude of the step, and ends with the last one that the upper bound admits
(`exists_climb_integers`). Which of the two bounds was given first and which sign the step has only
decide whether the walk is read backward (`rangeNumbers_integers`), and it is never turned twice:
`HeapM.range_integers`.
-/

namespace ListScript

/-- The upper bound of a range admits an integer. -/
def Admits (inclusive : Bool) (stop i : Int) : Prop := if inclusive then i ≤ stop else i < stop

instance (inclusive : Bool) (stop i : Int) : Decidable (Admits inclusive stop i) :=
  inferInstanceAs (Decidable (if inclusive then i ≤ stop else i < stop))

/-- What the upper bound admits is at most the upper bound. -/
theorem Admits.le {inclusive : Bool} {stop i : Int} (h : Admits inclusive stop i) : i ≤ stop := by
  cases inclusive with
  | false =>
      have hlt : i < stop := h
      omega
  | true => exact h

/-- The upper bound admits what is below an integer that it admits. -/
theorem Admits.of_le {inclusive : Bool} {stop i j : Int} (h : Admits inclusive stop j)
    (hle : i ≤ j) : Admits inclusive stop i := by
  cases inclusive with
  | false =>
      have hlt : j < stop := h
      show i < stop
      omega
  | true =>
      have hj : j ≤ stop := h
      show i ≤ stop
      omega

/-- Whether a walk goes on is whether the upper bound admits the integer at hand. -/
theorem goesOn_iff {stop current : Number} {high i : Int} (hstop : stop.IsInt high)
    (hcurrent : current.IsInt i) (inclusive : Bool) :
    (current.le stop && (inclusive || current.lt stop)) = true ↔ Admits inclusive high i := by
  rw [hcurrent.le hstop, hcurrent.lt hstop]
  cases inclusive with
  | false =>
      show _ ↔ i < high
      simp only [Bool.false_or, Bool.and_eq_true, decide_eq_true_eq]
      omega
  | true =>
      show _ ↔ i ≤ high
      simp

/-- The integers from the lower bound upward by the step, as far as the upper bound admits them,
each once and in order. -/
structure Ascent (inclusive : Bool) (low high step : Int) (ints : List Int) : Prop where
  mem_iff : ∀ i, i ∈ ints ↔ ∃ k : Nat, i = low + k * step ∧ Admits inclusive high i
  increasing : ints.Pairwise (· < ·)

/-- Steps upward do not lead below. -/
theorem le_add_mul {step : Int} (hstep : 0 < step) (low : Int) (k : Nat) : low ≤ low + k * step :=
  Int.le_add_of_nonneg_right (Int.mul_nonneg (Int.natCast_nonneg k) (Int.le_of_lt hstep))

/-- There are no integers if the upper bound does not admit the lower one. -/
theorem Ascent.nil {inclusive : Bool} {low high step : Int} (hstep : 0 < step)
    (h : ¬ Admits inclusive high low) : Ascent inclusive low high step [] where
  mem_iff i := by
    refine ⟨fun hmem => absurd hmem List.not_mem_nil, ?_⟩
    rintro ⟨k, rfl, hadmits⟩
    exact absurd (hadmits.of_le (le_add_mul hstep low k)) h
  increasing := .nil

/-- The lower bound comes before the integers from the next one on. -/
theorem Ascent.cons {inclusive : Bool} {low high step : Int} {ints : List Int} (hstep : 0 < step)
    (h : Admits inclusive high low) (hnext : Ascent inclusive (low + step) high step ints) :
    Ascent inclusive low high step (low :: ints) where
  mem_iff i := by
    rw [List.mem_cons, hnext.mem_iff]
    constructor
    · rintro (rfl | ⟨k, rfl, hadmits⟩)
      · exact ⟨0, by simp, h⟩
      · refine ⟨k + 1, ?_, hadmits⟩
        push_cast
        ring
    · rintro ⟨k, rfl, hadmits⟩
      cases k with
      | zero => exact .inl (by simp)
      | succ k =>
          refine .inr ⟨k, ?_, hadmits⟩
          push_cast
          ring
  increasing := by
    refine List.pairwise_cons.2 ⟨fun i hmem => ?_, hnext.increasing⟩
    obtain ⟨k, rfl, -⟩ := (hnext.mem_iff i).1 hmem
    exact Int.lt_of_lt_of_le (Int.lt_add_of_pos_right low hstep) (le_add_mul hstep _ k)

/-- Walking upward between integers ends, and goes through the integers of the ascent. The induction
is on the walk; the sum of the upper bound and the step bounds all sums on the way. -/
theorem exists_climb_integers (inclusive : Bool) {stop step current : Number} {low high width : Int}
    (hstop : stop.IsInt high) (hstep : step.IsInt width) (hcurrent : current.IsInt low)
    (hwidth : 0 < width) (hlow : -2 ^ 53 ≤ low) (hhigh : high + width ≤ 2 ^ 53) :
    ∃ numbers ints, climb inclusive stop step current = some numbers ∧
      List.Forall₂ Number.IsInt numbers ints ∧ Ascent inclusive low high width ints := by
  fun_induction climb inclusive stop step current generalizing low with
  | case1 current hgoes next hnext =>
      rename_i ih
      have hadmits := (goesOn_iff hstop hcurrent inclusive).1 hgoes
      have hle := hadmits.le
      obtain ⟨numbers, ints, hclimb, hnumbers, hascent⟩ :=
        ih (hcurrent.add hstep (by omega)) (by omega)
      refine ⟨current :: numbers, low :: ints, ?_, .cons hcurrent hnumbers,
        hascent.cons hwidth hadmits⟩
      rw [hclimb]
      rfl
  | case2 current hgoes next =>
      rename_i hvanishes
      -- the step does not vanish, because the sum is exact
      have hle := ((goesOn_iff hstop hcurrent inclusive).1 hgoes).le
      rw [hcurrent.lt (hcurrent.add hstep (by omega)), decide_eq_true_eq] at hvanishes
      omega
  | case3 current hends =>
      exact ⟨[], [], rfl, .nil, .nil hwidth fun h => hends ((goesOn_iff hstop hcurrent _).2 h)⟩

/-- The range between two integers is the upward walk from the lower to the upper one by the
magnitude of the step, read backward if the bounds or the step point downward. -/
theorem rangeNumbers_integers {x y z : Number} {a b s : Int} (hx : x.IsInt a) (hy : y.IsInt b)
    (hz : z.IsInt s) (hs : s ≠ 0) (inclusive : Bool) :
    rangeNumbers x y z inclusive =
      (climb inclusive (if b < a then x else y) (if s < 0 then z.neg else z)
        (if b < a then y else x)).map fun numbers =>
          if b < a ∨ s < 0 then numbers.reverse else numbers := by
  unfold rangeNumbers
  rw [hx.1, hy.1, hz.1, hz.eq Number.isInt_zero, hz.lt Number.isInt_zero, hy.lt hx,
    decide_eq_false hs]
  by_cases hba : b < a
  · simp [hba]
  · by_cases hneg : s < 0
    · simp [hba, hneg]
    · simp [hba, hneg]

/-- The list of a range that is a walk upward, or such a walk read backward. -/
theorem HeapM.range_of_climb {x y z low high width : Number} {a b s : Int} {inclusive : Bool}
    {numbers : List Number} (hx : x.IsInt a) (hy : y.IsInt b) (hz : z.IsInt s) (hs : s ≠ 0)
    (hlow : (if b < a then y else x) = low) (hhigh : (if b < a then x else y) = high)
    (hwidth : (if s < 0 then z.neg else z) = width)
    (hclimb : climb inclusive high width low = some numbers) :
    HeapM.range (.number x) (.number y) (.number z) inclusive =
      newList ((if b < a ∨ s < 0 then numbers.reverse else numbers).map .number) := by
  have hnumbers := rangeNumbers_integers hx hy hz hs inclusive
  rw [hlow, hhigh, hwidth, hclimb] at hnumbers
  unfold HeapM.range
  dsimp only
  rw [hnumbers]
  rfl

/-- A walk between integers of at most 53 bits consists of numbers that are equal to them. -/
theorem Ascent.forall₂_eq {inclusive : Bool} {low high step : Int} {numbers : List Number}
    {ints : List Int} (h : Ascent inclusive low high step ints) (hstep : 0 < step)
    (hlow : low.natAbs ≤ 2 ^ 53) (hhigh : high.natAbs ≤ 2 ^ 53)
    (hnumbers : List.Forall₂ Number.IsInt numbers ints) :
    List.Forall₂ (fun n i => n.eq (.ofInt i) = true) numbers ints := by
  obtain ⟨hlength, hints⟩ := List.forall₂_iff_zip.1 hnumbers
  refine List.forall₂_iff_zip.2 ⟨hlength, fun {n i} hmem => ?_⟩
  obtain ⟨k, hk, hadmits⟩ := (h.mem_iff i).1 (List.of_mem_zip hmem).2
  have hge : low ≤ i := hk ▸ le_add_mul hstep low k
  have hle := hadmits.le
  exact (Number.eq_ofInt_iff (by omega)).2 (hints hmem)

/-- The range between two integers of at most 52 bits, by a step that is such an integer and not
zero, consists of the integers from the lower bound by the magnitude of the step, as far as the
upper bound admits them. They ascend if the first bound is not the greater one and the step is
positive, and descend otherwise. Exchanging the bounds under a positive step turns the range around,
and so does the opposite step between bounds that are in order. -/
theorem HeapM.range_integers {x y z : Number} {a b s : Int} (hx : x.eq (.ofInt a) = true)
    (hy : y.eq (.ofInt b) = true) (hz : z.eq (.ofInt s) = true) (ha : a.natAbs ≤ 2 ^ 52)
    (hb : b.natAbs ≤ 2 ^ 52) (hs : s.natAbs ≤ 2 ^ 52) (hzero : s ≠ 0) (inclusive : Bool) :
    ∃ (numbers : List Number) (ints : List Int),
      HeapM.range (.number x) (.number y) (.number z) inclusive =
        newList (numbers.map .number) ∧
      List.Forall₂ (fun n i => n.eq (.ofInt i) = true) numbers ints ∧
      (∀ i, i ∈ ints ↔
        ∃ k : Nat, i = min a b + k * s.natAbs ∧ Admits inclusive (max a b) i) ∧
      (if a ≤ b ∧ 0 < s then ints.Pairwise (· < ·) else ints.Pairwise (· > ·)) ∧
      (0 < s → a ≠ b → HeapM.range (.number y) (.number x) (.number z) inclusive =
        newList (numbers.reverse.map .number)) ∧
      (a ≤ b → HeapM.range (.number x) (.number y) (.number z.neg) inclusive =
        newList (numbers.reverse.map .number)) := by
  rw [Number.eq_ofInt_iff (by omega)] at hx hy hz
  have hlow : (if b < a then y else x).IsInt (min a b) := by
    split
    · next h => rwa [Int.min_eq_right (by omega)]
    · next h => rwa [Int.min_eq_left (by omega)]
  have hhigh : (if b < a then x else y).IsInt (max a b) := by
    split
    · next h => rwa [Int.max_eq_left (by omega)]
    · next h => rwa [Int.max_eq_right (by omega)]
  have hwidth : (if s < 0 then z.neg else z).IsInt s.natAbs := by
    split
    · next h =>
      rw [show (s.natAbs : Int) = -s by omega]
      exact hz.neg
    · next h => rwa [show (s.natAbs : Int) = s by omega]
  have hpos : 0 < (s.natAbs : Int) := by omega
  obtain ⟨walk, ints, hclimb, hwalk, hascent⟩ :=
    exists_climb_integers inclusive hhigh hwidth hlow hpos (by omega) (by omega)
  have heq := hascent.forall₂_eq hpos (by omega) (by omega) hwalk
  have hrange := HeapM.range_of_climb hx hy hz hzero rfl rfl rfl hclimb
  have hswapped (hab : a ≠ b) :
      HeapM.range (.number y) (.number x) (.number z) inclusive =
        newList ((if a < b ∨ s < 0 then walk.reverse else walk).map .number) := by
    have hlow' : (if a < b then x else y) = if b < a then y else x := by grind
    have hhigh' : (if a < b then y else x) = if b < a then x else y := by grind
    exact HeapM.range_of_climb hy hx hz hzero hlow' hhigh' rfl hclimb
  have hopposite : HeapM.range (.number x) (.number y) (.number z.neg) inclusive =
      newList ((if b < a ∨ -s < 0 then walk.reverse else walk).map .number) := by
    have hwidth' : (if -s < 0 then z.neg.neg else z.neg) = if s < 0 then z.neg else z := by
      grind [Number.neg_neg]
    exact HeapM.range_of_climb hx hy hz.neg (by omega) rfl rfl hwidth' hclimb
  by_cases hdown : b < a ∨ s < 0
  · refine ⟨walk.reverse, ints.reverse, ?_, List.forall₂_reverse_iff.2 heq, ?_, ?_, ?_, ?_⟩
    · rw [hrange, if_pos hdown]
    · intro i
      rw [List.mem_reverse]
      exact hascent.mem_iff i
    · rw [if_neg (by omega)]
      exact List.pairwise_reverse.2 hascent.increasing
    · intro hs hab
      rw [hswapped hab, if_neg (by omega), List.reverse_reverse]
    · intro hab
      rw [hopposite, if_neg (by omega), List.reverse_reverse]
  · refine ⟨walk, ints, ?_, heq, hascent.mem_iff, ?_, ?_, ?_⟩
    · rw [hrange, if_neg hdown]
    · rw [if_pos (by omega)]
      exact hascent.increasing
    · intro hs hab
      rw [hswapped hab, if_pos (by omega)]
    · intro hab
      rw [hopposite, if_pos (by omega)]

/-- The range from five down to minus zero by minus two, both bounds included, is turned around
once: it descends from four. -/
theorem HeapM.range_integers_downward :
    (Number.ofInt 5).eq (.ofInt 5) = true ∧ (Number.zero true).eq (.ofInt 0) = true ∧
      (Number.ofInt (-2)).eq (.ofInt (-2)) = true ∧
      ∃ (numbers : List Number) (ints : List Int),
        HeapM.range (.number (.ofInt 5)) (.number (.zero true)) (.number (.ofInt (-2))) true =
          newList (numbers.map .number) ∧
        List.Forall₂ (fun n i => n.eq (.ofInt i) = true) numbers ints ∧
        (∀ i, i ∈ ints ↔ i = 4 ∨ i = 2 ∨ i = 0) ∧ ints.Pairwise (· > ·) := by
  have hfirst : (Number.ofInt 5).eq (.ofInt 5) = true := by decide +kernel
  have hlast : (Number.zero true).eq (.ofInt 0) = true := by decide +kernel
  have hstep : (Number.ofInt (-2)).eq (.ofInt (-2)) = true := by decide +kernel
  obtain ⟨numbers, ints, hrange, hnumbers, hmem, hdescends, -⟩ := HeapM.range_integers hfirst hlast
    hstep (by decide) (by decide) (by decide) (by decide) true
  refine ⟨hfirst, hlast, hstep, numbers, ints, hrange, hnumbers, fun i => ?_, hdescends⟩
  rw [hmem]
  constructor
  · rintro ⟨k, hk, hadmits⟩
    have hle : i ≤ 5 := hadmits.le
    have hwidth : ((-2 : Int).natAbs : Int) = 2 := rfl
    rw [hwidth] at hk
    omega
  · rintro (rfl | rfl | rfl)
    · exact ⟨2, by decide, by decide⟩
    · exact ⟨1, by decide, by decide⟩
    · exact ⟨0, by decide, by decide⟩

end ListScript
