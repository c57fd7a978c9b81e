import ListScript.Proofs.Lists.RoundTrip
import ListScript.Proofs.Number.Integers
import Mathlib.Data.List.Rotate

/-!
# A list pushed into itself turns around

Pushing a list into itself at the position `i` moves every element on by `i` places, and those that
pass the end come in at the front: `turned`. The integers act on the list in this way
(`turned_turned`, `turned_of_dvd`), which carries over to the pushes: `HeapM.push_itself_acts`. How
far the list is turned is computed with doubles, by two remainders that keep the sign and one sum.
For lists of at most `2 ^ 52` elements no step of that is rounded (`rotation_eq`).
-/

namespace ListScript

/-! ## Turning a list around -/

/-- The elements, each of them moved on by the given number of places. -/
def turned (items : List Value) (i : Int) : List Value :=
  items.rotate ((-i) % items.length).toNat

/-- Passing elements from the front to the end is a rotation. -/
theorem rotate_eq (items : List Value) (count : Nat) : rotate items count = items.rotate count :=
  List.rotate_eq_drop_append_take_mod.symm

section

variable (items : List Value)

theorem length_turned (i : Int) : (turned items i).length = items.length :=
  List.length_rotate items _

/-- Each element is found its number of places further on. -/
theorem getElem?_turned (i : Int) {j : Nat} (hj : j < items.length) :
    (turned items i)[((j + i) % items.length).toNat]? = items[j]? := by
  have hpos : 0 < (items.length : Int) := by omega
  have hnonneg (m : Int) : 0 ≤ m % items.length := Int.emod_nonneg m (by omega)
  have hlt : ((j + i) % items.length).toNat < items.length := by
    have := Int.emod_lt_of_pos (j + i) hpos
    omega
  have hback : (((j + i) % items.length).toNat + ((-i) % items.length).toNat) % items.length = j := by
    zify
    rw [Int.toNat_of_nonneg (hnonneg _), Int.toNat_of_nonneg (hnonneg _), ← Int.add_emod,
      Int.add_neg_cancel_right, Int.emod_eq_of_lt (by omega) (by omega)]
  rw [turned, List.getElem?_rotate hlt, hback]

/-- Turning around by one number of places and then by another is turning around by the sum. -/
theorem turned_turned (i k : Int) : turned (turned items i) k = turned items (i + k) := by
  by_cases hempty : items.length = 0
  · rw [List.eq_nil_of_length_eq_zero hempty]
    rfl
  · have hnonneg (m : Int) : 0 ≤ m % items.length := Int.emod_nonneg m (by omega)
    have hsum : (((-i) % items.length).toNat + ((-k) % items.length).toNat) % items.length =
        ((-(i + k)) % items.length).toNat := by
      zify
      rw [Int.toNat_of_nonneg (hnonneg _), Int.toNat_of_nonneg (hnonneg _),
        Int.toNat_of_nonneg (hnonneg _), ← Int.add_emod, Int.neg_add]
    rw [turned, length_turned, turned, List.rotate_rotate, ← List.rotate_mod, hsum]
    rfl

/-- Whole rounds change nothing. -/
theorem turned_of_dvd {i : Int} (h : (items.length : Int) ∣ i) : turned items i = items := by
  rw [turned, Int.emod_eq_zero_of_dvd (Int.dvd_neg.2 h)]
  exact List.rotate_zero items

end

/-! ## How far a list is turned -/

/-- Two remainders with the sign of the dividend make one that is not negative, if the first is
brought to the other side of zero and moved up in between. -/
theorem tmod_neg_tmod_add {n : Int} (hn : 0 < n) (i : Int) : (-(i.tmod n) + n).tmod n = -i % n := by
  have hlt : i.tmod n < n := Int.tmod_lt_of_pos i hn
  have hmultiple : -(i.tmod n) + n = -i + n * (i.tdiv n + 1) := by
    have hsplit := Int.tmod_add_mul_tdiv i n
    rw [Int.mul_add, Int.mul_one]
    omega
  calc (-(i.tmod n) + n).tmod n
      = (-(i.tmod n) + n) % n := Int.tmod_eq_emod_of_nonneg (by omega)
    _ = (-i + n * (i.tdiv n + 1)) % n := by rw [hmultiple]
    _ = -i % n := Int.add_mul_emod_self_left _ _ _

/-- The doubles give the count that the integers give. -/
theorem rotation_eq {length : Nat} {raw : Number} {i : Int} (hpos : 0 < length)
    (hlength : length ≤ 2 ^ 52) (hraw : raw.nearestWhole.IsInt i) :
    rotation length raw = (-i % length).toNat := by
  have hn : (0 : Int) < length := by omega
  have hne : (length : Int) ≠ 0 := by omega
  have hwhole : (Number.ofNat length).IsInt length := Number.isInt_ofNat (by omega)
  have hremainder : (raw.nearestWhole % .ofNat length).IsInt (i.tmod length) :=
    hraw.rem hwhole hne (by omega)
  have habs : (i.tmod length).natAbs < length := by
    rw [Int.natAbs_tmod, Int.natAbs_natCast]
    exact Nat.mod_lt _ hpos
  have hsum : (-(raw.nearestWhole % .ofNat length) + .ofNat length).IsInt
      (-(i.tmod length) + length) :=
    hremainder.neg.add hwhole (by omega)
  have hcount : ((-(raw.nearestWhole % .ofNat length) + .ofNat length) % .ofNat length).IsInt
      (-i % length) := by
    rw [← tmod_neg_tmod_add hn]
    exact hsum.rem hwhole hne (by omega)
  have hlt : -i % length < length := Int.emod_lt_of_pos _ hn
  rw [rotation, if_neg (Nat.ne_of_gt hpos)]
  dsimp only
  rw [Number.toNatUpTo, hcount.toInt_eq, Nat.min_eq_right]
  have hmost : 2 ^ 52 ≤ mostElements := by decide
  omega

-- In a list of nearly twice as many elements, the sum is rounded.
example : rotation (2 ^ 53 - 1) (.ofInt (-2 ^ 52)) = 2 ^ 52 + 1 := by decide +kernel

/-! ## Pushing -/

section

variable {heap : Heap} {id : ListId} {index : Value} {i : Int}

/-- Turning a list around leaves the position that a value gives, also if the list itself gives
it. -/
theorem Heap.DenotesInt.put_turned (h : heap.DenotesInt index i) (id : ListId) (k : Int) :
    (heap.put id (turned (heap.items id) k)).DenotesInt index i := by
  obtain ⟨raw, hraw, hnumber⟩ := h
  refine ⟨raw, ?_, hnumber⟩
  by_cases hitself : index = .list id
  · rcases hraw with rfl | ⟨list, rfl, hitems⟩
    · cases hitself
    · cases hitself
      have hone : turned (heap.items id) k = heap.items id := by
        rw [hitems]
        exact List.rotate_singleton _ _
      refine .inr ⟨id, rfl, ?_⟩
      rw [hone, Heap.items_put_items, hitems]
  · exact hraw.put hitself _

/-- What pushing a list into itself does. -/
theorem HeapM.push_itself (h : heap.DenotesInt index i) (hsize : (heap.items id).length ≤ 2 ^ 52) :
    push (.list id) index (.list id) heap =
      .ok (.list id) (heap.put id (turned (heap.items id) i)) := by
  obtain ⟨raw, hraw, hwhole, hi, hbits⟩ := h
  have hpositions := positions_single hraw (Number.isNaN_of_isWhole hwhole)
  have hnearest := Number.isInt_nearestWhole hwhole (by omega) (by omega)
  rw [hi] at hnearest
  have hrotation : rotate (heap.items id) (rotation (heap.items id).length raw) =
      turned (heap.items id) i := by
    rw [rotate_eq]
    by_cases hempty : heap.items id = []
    · rw [hempty]
      rfl
    · rw [rotation_eq (List.length_pos_iff.2 hempty) hsize hnearest]
      rfl
  rw [push, run_bind_ok (run_asList _ _), run_bind_ok (run_items _ _), run_bind_ok (hpositions _)]
  dsimp only
  rw [if_pos rfl, hrotation]
  rfl

end

/-- Pushing a list into itself is an action of the integers. Let the list `id` have `n` elements, at
most `2 ^ 52` of them, and let `first` and `second` give the whole numbers `i` and `k` of at most 52
bits as positions. A push at `i` moves the element at `j` to `j + i`, modulo the length. A push at
`k` after that is the same as one push at `i + k`, so it takes back the first one if `k` is `-i`. A
push at a multiple of the length changes nothing, and neither does any push of the empty list. No
other list changes. -/
theorem HeapM.push_itself_acts (heap : Heap) (id : ListId) (first second : Value) (n : Nat)
    (i k : Int) (hid : id < heap.size) (hn : (heap.items id).length = n) (hsize : n ≤ 2 ^ 52)
    (hfirst : heap.DenotesInt first i) (hsecond : heap.DenotesInt second k) :
    ∃ heap₁ heap₂, push (.list id) first (.list id) heap = .ok (.list id) heap₁ ∧
      push (.list id) second (.list id) heap₁ = .ok (.list id) heap₂ ∧
      (heap₁.items id).length = n ∧
      (∀ j : Nat, j < n → (heap₁.items id)[((j + i) % n).toNat]? = (heap.items id)[j]?) ∧
      (∀ both, heap.DenotesInt both (i + k) →
        ∃ heap₃, push (.list id) both (.list id) heap = .ok (.list id) heap₃ ∧
          ∀ list, heap₂.items list = heap₃.items list) ∧
      (k = -i → ∀ list, heap₂.items list = heap.items list) ∧
      ((n : Int) ∣ i ∨ n = 0 → ∀ list, heap₁.items list = heap.items list) ∧
      ∀ other ≠ id, heap₁.items other = heap.items other := by
  subst hn
  have hturned := Heap.items_put_self hid (turned (heap.items id) i)
  have hagain (list : ListId) :
      ((heap.put id (turned (heap.items id) i)).put id
        (turned ((heap.put id (turned (heap.items id) i)).items id) k)).items list =
      (heap.put id (turned (heap.items id) (i + k))).items list := by
    rw [hturned, turned_turned, Heap.items_put_put]
  have hsize' : ((heap.put id (turned (heap.items id) i)).items id).length ≤ 2 ^ 52 := by
    rw [hturned, length_turned]
    exact hsize
  refine ⟨_, _, push_itself hfirst hsize, push_itself (hsecond.put_turned id i) hsize',
    ?_, ?_, ?_, ?_, ?_, ?_⟩
  · rw [hturned, length_turned]
  · intro j hj
    rw [hturned, getElem?_turned _ _ hj]
  · intro both hboth
    exact ⟨_, push_itself hboth hsize, hagain⟩
  · rintro rfl list
    rw [hagain, Int.add_right_neg, turned_of_dvd _ (Int.dvd_zero _), Heap.items_put_items]
  · intro hround list
    have hsame : turned (heap.items id) i = heap.items id := by
      rcases hround with hdvd | hempty
      · exact turned_of_dvd _ hdvd
      · rw [List.eq_nil_of_length_eq_zero hempty]
        rfl
    rw [hsame, Heap.items_put_items]
  · intro other hother
    exact Heap.items_put_of_ne hother _

/-- The list of null, true and false is pushed into itself at minus four, which moves every element
back by one place, and then at four. -/
theorem HeapM.push_itself_acts_back :
    let heap : Heap := ⟨#[[.null, .boolean true, .boolean false]]⟩
    ∃ heap₁ heap₂,
      push (.list 0) (.number (.ofInt (-4))) (.list 0) heap = .ok (.list 0) heap₁ ∧
      push (.list 0) (.number 4) (.list 0) heap₁ = .ok (.list 0) heap₂ ∧
      (heap₁.items 0)[0]? = some (.boolean true) ∧ (heap₁.items 0)[2]? = some .null ∧
      heap₂.items 0 = [.null, .boolean true, .boolean false] := by
  intro heap
  have hfirst : heap.DenotesInt (.number (.ofInt (-4))) (-4) :=
    ⟨_, .inl rfl, by decide +kernel, by decide +kernel, by decide, by decide⟩
  have hsecond : heap.DenotesInt (.number 4) 4 :=
    ⟨_, .inl rfl, by decide +kernel, by decide +kernel, by decide, by decide⟩
  obtain ⟨heap₁, heap₂, hpush, hpush', -, hmoved, -, hback, -, -⟩ :=
    push_itself_acts heap 0 _ _ 3 (-4) 4 (by decide) rfl (by decide) hfirst hsecond
  exact ⟨heap₁, heap₂, hpush, hpush', hmoved 1 (by decide), hmoved 0 (by decide),
    hback (by decide) 0⟩

end ListScript
