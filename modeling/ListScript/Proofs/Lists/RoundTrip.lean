import ListScript.Lists.Transfer
import ListScript.Proofs.Lists.Agreement
import Mathlib.Data.List.InsertIdx

/-!
# Pushing and popping undo each other

A push counts a negative position back from one place past the end and rounds, a pop counts it back
from the end and cuts, and the list has one element more when it is popped. At the same whole number
the two come to the same place (`pushPosition_eq_popPosition`), so that each undoes the other:
`HeapM.push_pop_inverse`.
-/

namespace ListScript

/-! ## Positions and lists -/

section

variable {raw : Number}

/-- Pushes go to positions up to the one past the last. -/
theorem pushPosition_le (length : Nat) (raw : Number) : pushPosition length raw ≤ length :=
  Nat.min_le_right _ _

/-- A push and a pop of the list with one element more go to the same position. -/
theorem pushPosition_eq_popPosition {n : Nat} (hnearest : raw.nearestPosition = raw.toInt)
    (hle : raw.toInt ≤ n) : pushPosition n raw = popPosition (n + 1) raw := by
  rw [pushPosition, popPosition, hnearest, fromFront, clampPosition]
  split <;> omega

/-- A pop of a list that is not empty takes an element, unless the position is past the last one. -/
theorem popPosition_lt {n : Nat} (hpos : 0 < n) (hlt : raw.toInt < n) : popPosition n raw < n := by
  rw [popPosition, fromFront]
  split <;> omega

variable {items : List Value} (hnearest : raw.nearestPosition = raw.toInt)
include hnearest

/-- A pop finds what a push has put in, and takes that out. -/
theorem popPosition_insertAt {new : List Value} {value : Value}
    (hnew : insertAt items (pushPosition items.length raw) value = new)
    (hle : raw.toInt ≤ items.length) :
    new.length = items.length + 1 ∧ new[popPosition new.length raw]? = some value ∧
      new.eraseIdx (popPosition new.length raw) = items := by
  have hposition := pushPosition_eq_popPosition hnearest hle
  have hbound := pushPosition_le items.length raw
  rw [insertAt, Nat.min_eq_left hbound] at hnew
  have hlength : new.length = items.length + 1 := by
    rw [← hnew, List.length_insertIdx_of_le_length hbound]
  rw [hlength, ← hposition, ← hnew, List.getElem?_insertIdx_self, if_pos hbound,
    List.eraseIdx_insertIdx_self]
  exact ⟨rfl, rfl, rfl⟩

/-- A push puts back what a pop has taken out. -/
theorem insertAt_eraseIdx {rest : List Value} {item : Value}
    (hitem : items[popPosition items.length raw]? = some item)
    (hrest : items.eraseIdx (popPosition items.length raw) = rest)
    (hlt : raw.toInt < items.length) :
    insertAt rest (pushPosition rest.length raw) item = items := by
  obtain ⟨hposition, hget⟩ := List.getElem?_eq_some_iff.1 hitem
  have hlength : rest.length + 1 = items.length := by
    rw [← hrest, List.length_eraseIdx_of_lt hposition]
    omega
  rw [insertAt, Nat.min_eq_left (pushPosition_le _ _),
    pushPosition_eq_popPosition hnearest (by omega), hlength, ← hrest, ← hget,
    List.insertIdx_eraseIdx_getElem hposition]

end

/-! ## Pushing and popping at one position -/

namespace HeapM

variable {heap : Heap} {id : ListId} {index : Value} {raw : Number}

theorem run_asList (id : ListId) (heap : Heap) : asList (.list id) heap = .ok id heap := rfl

/-- A push at one position. -/
theorem push_single (h : heap.Denotes index raw) (hnan : raw.isNaN = false) {value : Value}
    (hvalue : value ≠ .list id) :
    push (.list id) index value heap = .ok (.list id) (heap.put id
      (insertAt (heap.items id) (pushPosition (heap.items id).length raw) value)) := by
  rw [push, run_bind_ok (run_asList _ _), run_bind_ok (run_items _ _),
    run_bind_ok (positions_single h hnan _)]
  cases value with
  | list source =>
      have hsource : source ≠ id := fun heq => hvalue (congrArg Value.list heq)
      dsimp only
      rw [if_neg hsource]
      rfl
  | _ => rfl

/-- A pop at positions that are not beyond the length. -/
theorem pop_run {positions' : Positions}
    (hpositions : positions (heap.items id).length index heap = .ok positions' heap)
    (hbound : ∀ raw ∈ positions'.raws, (Number.ofNat (heap.items id).length).lt raw = false) :
    pop (.list id) index heap = popped (removeAll (heap.items id) positions'.raws).2
      (heap.put id (removeAll (heap.items id) positions'.raws).1) := by
  have hfind : (positions'.raws.find? fun raw => (Number.ofNat (heap.items id).length).lt raw) =
      none := by
    rw [List.find?_eq_none]
    intro raw hraw
    rw [hbound raw hraw]
    exact Bool.false_ne_true
  rw [pop, run_bind_ok (run_items _ _), run_bind_ok hpositions]
  dsimp only
  rw [hfind]
  rfl

/-- A pop at one position, where there is an element. -/
theorem pop_single (h : heap.Denotes index raw) (hnan : raw.isNaN = false)
    (hbound : (Number.ofNat (heap.items id).length).lt raw = false) {item : Value}
    (hitem : (heap.items id)[popPosition (heap.items id).length raw]? = some item) :
    pop (.list id) index heap = .ok item (heap.put id
      ((heap.items id).eraseIdx (popPosition (heap.items id).length raw))) := by
  have hraws : ∀ other ∈ (Positions.single raw).raws,
      (Number.ofNat (heap.items id).length).lt other = false := by
    intro other hmem
    rw [List.mem_singleton.1 hmem]
    exact hbound
  have hremove : removeAll (heap.items id) (Positions.single raw).raws =
      ((heap.items id).eraseIdx (popPosition (heap.items id).length raw), [item]) := by
    simp only [Positions.raws, removeAll, hitem]
  rw [pop_run (positions_single h hnan _) hraws, hremove]
  rfl

/-- Pushing and popping at the same position undo each other. Let the list `id` have `n` elements,
and let `index`, which is not the list itself, give a whole number `i` from `-2 ^ 52` to `n` as the
position. Between `2 ^ 52` and `2 ^ 53` the number is even, which is no condition on the positions of
a list of up to `2 ^ 52` elements. A value other than the list is pushed there, and then popped: the
pop yields the value, and all lists are as they were. If `i` is below `n` and there are elements, a
pop yields one of them, and if that is not the list itself, all lists are as they were after it is
pushed. -/
theorem push_pop_inverse (heap : Heap) (id : ListId) (index : Value) (raw : Number) (n : Nat)
    (i : Int) (hid : id < heap.size) (hn : (heap.items id).length = n)
    (hindex : heap.Denotes index raw) (hother : index ≠ .list id) (hwhole : raw.isWhole = true)
    (hi : raw.toInt = i) (hlow : -2 ^ 52 ≤ i) (hle : i ≤ n)
    (heven : 2 ^ 52 < i → i < 2 ^ 53 → i % 2 = 0) :
    (∀ value, value ≠ .list id →
      ∃ heap₁ heap₂, push (.list id) index value heap = .ok (.list id) heap₁ ∧
        pop (.list id) index heap₁ = .ok value heap₂ ∧
        ∀ other, heap₂.items other = heap.items other) ∧
    (0 < n → i < n →
      ∃ item heap₁, pop (.list id) index heap = .ok item heap₁ ∧
        (item ≠ .list id →
          ∃ heap₂, push (.list id) index item heap₁ = .ok (.list id) heap₂ ∧
            ∀ other, heap₂.items other = heap.items other)) := by
  subst hn hi
  have hnan := Number.isNaN_of_isWhole hwhole
  have hnearest := Number.nearestPosition_of_isWhole hwhole hlow heven
  constructor
  · intro value hvalue
    have hnew := Heap.items_put_self hid
      (insertAt (heap.items id) (pushPosition (heap.items id).length raw) value)
    obtain ⟨hlength, hitem, herase⟩ := popPosition_insertAt hnearest hnew.symm hle
    have hbound := Number.ofNat_lt_eq_false hwhole (n := (heap.items id).length + 1) (by omega)
    refine ⟨_, _, push_single hindex hnan hvalue,
      pop_single (hindex.put hother _) hnan (hlength ▸ hbound) hitem, ?_⟩
    intro other
    rw [herase, Heap.items_put_put, Heap.items_put_items]
  · intro hpos hlt
    have hposition := popPosition_lt hpos hlt
    have hitem := List.getElem?_eq_getElem hposition
    have hbound := Number.ofNat_lt_eq_false hwhole hle
    refine ⟨_, _, pop_single hindex hnan hbound hitem, fun hvalue => ?_⟩
    have hrest := Heap.items_put_self hid
      ((heap.items id).eraseIdx (popPosition (heap.items id).length raw))
    refine ⟨_, push_single (hindex.put hother _) hnan hvalue, ?_⟩
    intro other
    rw [insertAt_eraseIdx hnearest hitem hrest.symm hlt, Heap.items_put_put, Heap.items_put_items]

/-- The list of null and true at the position minus five: false is pushed before null and popped
again, and null is popped and pushed again. -/
theorem push_pop_inverse_front :
    let heap : Heap := ⟨#[[.null, .boolean true]]⟩
    (∃ heap₁ heap₂, push (.list 0) (.number (.ofInt (-5))) (.boolean false) heap =
        .ok (.list 0) heap₁ ∧
      pop (.list 0) (.number (.ofInt (-5))) heap₁ = .ok (.boolean false) heap₂ ∧
      heap₂.items 0 = [.null, .boolean true]) ∧
    ∃ heap₁ heap₂, pop (.list 0) (.number (.ofInt (-5))) heap = .ok .null heap₁ ∧
      push (.list 0) (.number (.ofInt (-5))) .null heap₁ = .ok (.list 0) heap₂ ∧
      heap₂.items 0 = [.null, .boolean true] := by
  intro heap
  obtain ⟨hpush, hpop⟩ := push_pop_inverse heap 0 (.number (.ofInt (-5))) (.ofInt (-5)) 2 (-5)
    (by decide) rfl (.inl rfl) (by simp) (by decide +kernel) (by decide +kernel) (by decide)
    (by decide) (by decide)
  obtain ⟨heap₁, heap₂, hpushed, hpopped, hitems⟩ := hpush (.boolean false) (by simp)
  obtain ⟨item, heap₃, htaken, hback⟩ := hpop (by decide) (by decide)
  have hposition : popPosition (heap.items 0).length (.ofInt (-5)) = 0 := by decide +kernel
  have hitem : (heap.items 0)[popPosition (heap.items 0).length (.ofInt (-5))]? = some .null := by
    rw [hposition]
    rfl
  have hindex : heap.Denotes (.number (.ofInt (-5))) (.ofInt (-5)) := .inl rfl
  have hnull := pop_single hindex (by decide +kernel) (by decide +kernel) hitem
  rw [hnull] at htaken
  cases htaken
  obtain ⟨heap₄, hpushed', hitems'⟩ := hback (by simp)
  exact ⟨⟨heap₁, heap₂, hpushed, hpopped, hitems 0⟩, _, heap₄, hnull, hpushed', hitems' 0⟩

end HeapM

end ListScript
