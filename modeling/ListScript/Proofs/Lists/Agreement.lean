import ListScript.Proofs.Lists.Writing
import ListScript.Proofs.Number.Whole

/-!
# Reads and writes agree on positions

A value denotes one position if it is a number or a list of one number: `Heap.Denotes`. Reading and
writing there find out the position each in its own way, and differ in what is out of bounds: a read
fails, a write goes to the nearer end. Where a read succeeds, the two are about the same element
(`HeapM.readIndex_writeIndex_agree`).
-/

namespace ListScript

/-! ## One position -/

/-- The value gives one position, a number. -/
def Heap.Denotes (heap : Heap) (index : Value) (raw : Number) : Prop :=
  index = .number raw ∨ ∃ id, index = .list id ∧ heap.items id = [.number raw]

/-- The value gives a whole number of at most 52 bits as a position. -/
def Heap.DenotesInt (heap : Heap) (index : Value) (i : Int) : Prop :=
  ∃ raw, heap.Denotes index raw ∧ raw.isWhole = true ∧ raw.toInt = i ∧ -2 ^ 52 ≤ i ∧ i ≤ 2 ^ 52

section

variable {heap : Heap} {id : ListId} {index : Value} {raw : Number}

/-- A whole number of at most 52 bits is its own position. -/
theorem Heap.DenotesInt.exists_nearest {i : Int} (h : heap.DenotesInt index i) :
    ∃ raw, heap.Denotes index raw ∧ raw.isWhole = true ∧ raw.nearestPosition = i := by
  obtain ⟨raw, hraw, hwhole, hi, hsize⟩ := h
  refine ⟨raw, hraw, hwhole, ?_⟩
  exact (Number.nearestPosition_of_isWhole hwhole (by omega) (by omega)).trans hi

/-- A list has the elements that it was given. -/
theorem Heap.items_put_self (h : id < heap.size) (new : List Value) :
    (heap.put id new).items id = new :=
  (heap.items_put id new id).trans (if_pos ⟨rfl, h⟩)

/-- The other lists have the elements that they had. -/
theorem Heap.items_put_of_ne {other : ListId} (h : other ≠ id) (new : List Value) :
    (heap.put id new).items other = heap.items other :=
  (heap.items_put id new other).trans (if_neg fun hand => h hand.1)

/-- Giving a list other elements makes no list. -/
theorem Heap.size_put (heap : Heap) (id : ListId) (new : List Value) :
    (heap.put id new).size = heap.size :=
  Array.size_setIfInBounds

/-- Giving a list the elements that it has changes no list. -/
theorem Heap.items_put_items (other : ListId) :
    (heap.put id (heap.items id)).items other = heap.items other := by
  rw [Heap.items_put]
  split
  · next h => rw [h.1]
  · rfl

/-- Of the elements that a list is given, the last count. -/
theorem Heap.items_put_put (new last : List Value) (other : ListId) :
    ((heap.put id new).put id last).items other = (heap.put id last).items other := by
  rw [Heap.items_put, Heap.items_put, Heap.items_put, Heap.size_put]
  split
  · rfl
  · rfl

/-- What a list contains does not matter to a position that another value gives. -/
theorem Heap.Denotes.put (h : heap.Denotes index raw) (hother : index ≠ .list id)
    (new : List Value) : (heap.put id new).Denotes index raw := by
  rcases h with rfl | ⟨list, rfl, hitems⟩
  · exact .inl rfl
  · refine .inr ⟨list, rfl, ?_⟩
    rw [Heap.items_put_of_ne (fun heq => hother (congrArg Value.list heq)), hitems]

namespace HeapM

theorem run_items (id : ListId) (heap : Heap) : items id heap = .ok (heap.items id) heap := rfl

theorem run_expectList (id : ListId) (heap : Heap) : expectList (.list id) heap = .ok id heap := rfl

/-- A value that gives one number gives that position. -/
theorem positions_single (h : heap.Denotes index raw) (hnan : raw.isNaN = false) (length : Nat) :
    positions length index heap = .ok (.single raw) heap := by
  have hnumber : Positions.number length (.number raw) = .ok raw := by
    simp [Positions.number, hnan]
  have hof : Positions.of heap length index = .ok (.single raw) := by
    rcases h with rfl | ⟨list, rfl, hitems⟩
    · simp only [Positions.of, hnumber, bind, Except.bind, pure, Except.pure]
    · simp only [Positions.of, hitems, List.mapM_cons, List.mapM_nil, hnumber, bind, Except.bind,
        pure, Except.pure]
  rw [positions, hof]
  rfl

/-- A result that succeeds on a heap is a success, and leaves the heap as it is. -/
theorem eq_ok_of_ofExcept {α : Type} {result : Except Fault α} {heap' : Heap} {a : α}
    (h : ofExcept result heap = .ok a heap') : result = .ok a ∧ heap' = heap := by
  cases result with
  | ok b =>
      cases h
      exact ⟨rfl, rfl⟩
  | error fault => cases h

/-- A result that fails on a heap is a fault. -/
theorem eq_error_of_ofExcept {α : Type} {result : Except Fault α} {heap' : Heap} {fault : Fault}
    (h : ofExcept result heap = .error fault heap') : result = .error fault := by
  cases result with
  | ok b => cases h
  | error fault' =>
      cases h
      rfl

/-- Reading at one position yields the element there. -/
theorem readIndex_single (h : heap.Denotes index raw) (hnan : raw.isNaN = false) :
    readIndex (.list id) index heap = ofExcept (elementAt (heap.items id) raw) heap := by
  rw [readIndex, run_bind_ok (run_expectList _ _), run_bind_ok (run_items _ _),
    run_bind_ok (positions_single h hnan _)]

/-- Writing at one position sets the element there, or appends it. -/
theorem writeIndex_single (h : heap.Denotes index raw) (hnan : raw.isNaN = false)
    (value : Value) :
    writeIndex (.list id) index value heap = .ok value (heap.put id
      (setOrAppend (heap.items id) (writePosition (heap.items id).length raw) value)) := by
  rw [writeIndex, run_bind_ok (run_expectList _ _), run_bind_ok (run_items _ _),
    run_bind_ok (positions_single h hnan _)]
  rfl

end HeapM

end

/-! ## Resolved positions -/

section

variable {items : List Value} {raw : Number} {p : Int}
  (hp : fromFront raw.nearestPosition items.length = p)
include hp

/-- A read succeeds within the bounds only. -/
theorem elementAt_eq_ok_iff {item : Value} :
    elementAt items raw = .ok item ↔ 0 ≤ p ∧ items[p.toNat]? = some item := by
  unfold elementAt
  dsimp only
  rw [hp]
  by_cases hneg : p < 0
  · rw [if_pos hneg]
    exact ⟨(fun h => by cases h), fun h => absurd h.1 (Int.not_le.2 hneg)⟩
  · rw [if_neg hneg]
    cases items[p.toNat]? with
    | none => simp
    | some found => simp [Int.not_lt.1 hneg]

/-- A read fails outside of the bounds. -/
theorem elementAt_eq_error {fault : Fault} (h : elementAt items raw = .error fault) :
    p < 0 ∨ items.length ≤ p := by
  by_contra hin
  have hlt : p.toNat < items.length := by omega
  have hok := (elementAt_eq_ok_iff hp).2 ⟨by omega, List.getElem?_eq_getElem hlt⟩
  rw [hok] at h
  cases h

/-- A write within the bounds replaces an element. -/
theorem setOrAppend_writePosition_of_lt (hlow : 0 ≤ p) (hhigh : p < items.length) (value : Value) :
    setOrAppend items (writePosition items.length raw) value = items.set p.toNat value := by
  have hposition : writePosition items.length raw = p.toNat := by
    rw [writePosition, hp, clampPosition]
    omega
  rw [hposition, setOrAppend, if_pos (by omega)]

/-- A write after the last element appends one. -/
theorem setOrAppend_writePosition_of_le (h : items.length ≤ p ∨ items.length = 0)
    (value : Value) :
    setOrAppend items (writePosition items.length raw) value = items ++ [value] := by
  have hposition : writePosition items.length raw = items.length := by
    rw [writePosition, hp, clampPosition]
    omega
  rw [hposition, setOrAppend, if_neg (by omega)]

/-- A write before the first element replaces it. -/
theorem setOrAppend_writePosition_of_neg (h : p < 0) (hlength : 0 < items.length) (value : Value) :
    setOrAppend items (writePosition items.length raw) value = items.set 0 value := by
  have hposition : writePosition items.length raw = 0 := by
    rw [writePosition, hp, clampPosition]
    omega
  rw [hposition, setOrAppend, if_pos hlength]

end

/-- Reads and writes at one position. Let the list `id` have `n` elements, and let `index`, which is
not the list itself, give a whole number `i` of at most 52 bits as the position. Counted from the
front that is the position `p`. The write succeeds and changes no other list. If the read succeeds,
it yields the element at `p`; after the write it yields the value, the list has as many elements as
before, all others than the one at `p` are the same, and writing what was read changes nothing. If
the read fails, the write appends the value when `p` is not before the end, and replaces the first
element when `p` is before the first one and there is one. -/
theorem HeapM.readIndex_writeIndex_agree (heap : Heap) (id : ListId) (index value : Value) (n : Nat)
    (i p : Int) (hid : id < heap.size) (hn : (heap.items id).length = n)
    (hindex : heap.DenotesInt index i) (hother : index ≠ .list id)
    (hp : p = if 0 ≤ i then i else i + n) :
    ∃ heap', writeIndex (.list id) index value heap = .ok value heap' ∧
      (∀ other ≠ id, heap'.items other = heap.items other) ∧
      (∀ old heap₁, readIndex (.list id) index heap = .ok old heap₁ →
        0 ≤ p ∧ (heap.items id)[p.toNat]? = some old ∧
        readIndex (.list id) index heap' = .ok value heap' ∧
        (heap'.items id).length = n ∧
        (∀ q : Nat, (q : Int) ≠ p → (heap'.items id)[q]? = (heap.items id)[q]?) ∧
        ∃ heap₂, writeIndex (.list id) index old heap = .ok old heap₂ ∧
          ∀ other, heap₂.items other = heap.items other) ∧
      (∀ fault heap₁, readIndex (.list id) index heap = .error fault heap₁ →
        ((n ≤ p ∨ n = 0) ∧ heap'.items id = heap.items id ++ [value]) ∨
        ((p < 0 ∧ 0 < n) ∧ heap'.items id = (heap.items id).set 0 value)) := by
  subst hn
  obtain ⟨raw, hindex, hwhole, hnearest⟩ := hindex.exists_nearest
  have hnan := Number.isNaN_of_isWhole hwhole
  have hfront : fromFront raw.nearestPosition (heap.items id).length = p := by
    rw [hnearest, hp, fromFront]
    split <;> split <;> omega
  refine ⟨_, writeIndex_single hindex hnan value, fun other hne => Heap.items_put_of_ne hne _,
    fun old heap₁ hread => ?_, fun fault heap₁ hread => ?_⟩
  · rw [readIndex_single hindex hnan] at hread
    obtain ⟨hlow, hitem⟩ := (elementAt_eq_ok_iff hfront).1 (eq_ok_of_ofExcept hread).1
    obtain ⟨hlt, hget⟩ := List.getElem?_eq_some_iff.1 hitem
    have hset (new : Value) := setOrAppend_writePosition_of_lt hfront hlow (by omega) new
    have hnew := Heap.items_put_self hid ((heap.items id).set p.toNat value)
    have hlength : ((heap.items id).set p.toNat value).length = (heap.items id).length :=
      List.length_set
    rw [hset, hnew]
    refine ⟨hlow, hitem, ?_, hlength, fun q hq => ?_, _, writeIndex_single hindex hnan old, ?_⟩
    · have hread' := (elementAt_eq_ok_iff (hlength ▸ hfront)).2
        ⟨hlow, List.getElem?_set_self (a := value) hlt⟩
      rw [readIndex_single (hindex.put hother _) hnan, hnew, hread']
      rfl
    · exact List.getElem?_set_ne (by omega)
    · intro other
      rw [hset, ← hget, List.set_getElem_self, Heap.items_put_items]
  · rw [readIndex_single hindex hnan] at hread
    rw [Heap.items_put_self hid]
    rcases elementAt_eq_error hfront (eq_error_of_ofExcept hread) with hneg | hle
    · by_cases hempty : (heap.items id).length = 0
      · exact .inl ⟨.inr hempty, setOrAppend_writePosition_of_le hfront (.inr hempty) value⟩
      · have hpos := Nat.pos_of_ne_zero hempty
        exact .inr ⟨⟨hneg, hpos⟩, setOrAppend_writePosition_of_neg hfront hneg hpos value⟩
    · exact .inl ⟨.inl hle, setOrAppend_writePosition_of_le hfront (.inl hle) value⟩

/-- The list of null and true at the position minus two, where null is, and at the position minus
three, which is before the first element. -/
theorem HeapM.readIndex_writeIndex_agree_first :
    let heap : Heap := ⟨#[[.null, .boolean true], [.number (.ofInt (-2))]]⟩
    (∃ heap', writeIndex (.list 0) (.list 1) (.list 0) heap = .ok (.list 0) heap' ∧
      readIndex (.list 0) (.list 1) heap' = .ok (.list 0) heap' ∧
      (heap'.items 0)[1]? = some (.boolean true)) ∧
    ∃ heap', writeIndex (.list 0) (.number (.ofInt (-3))) (.list 0) heap = .ok (.list 0) heap' ∧
      heap'.items 0 = [.list 0, .boolean true] := by
  intro heap
  constructor
  · have hindex : heap.DenotesInt (.list 1) (-2) :=
      ⟨_, .inr ⟨1, rfl, rfl⟩, by decide +kernel, by decide +kernel, by decide, by decide⟩
    obtain ⟨heap', hwrite, -, hok, herror⟩ := readIndex_writeIndex_agree heap 0 (.list 1) (.list 0)
      2 (-2) 0 (by decide) rfl hindex (by simp) (by decide)
    cases hread : readIndex (.list 0) (.list 1) heap with
    | ok old heap₁ =>
        obtain ⟨-, -, hread', -, hothers, -⟩ := hok old heap₁ hread
        exact ⟨heap', hwrite, hread', hothers 1 (by decide)⟩
    | error fault heap₁ => rcases herror fault heap₁ hread with ⟨h, -⟩ | ⟨h, -⟩ <;> omega
  · have hindex : heap.DenotesInt (.number (.ofInt (-3))) (-3) :=
      ⟨_, .inl rfl, by decide +kernel, by decide +kernel, by decide, by decide⟩
    obtain ⟨heap', hwrite, -, hok, herror⟩ := readIndex_writeIndex_agree heap 0
      (.number (.ofInt (-3))) (.list 0) 2 (-3) (-1) (by decide) rfl hindex (by simp) (by decide)
    cases hread : readIndex (.list 0) (.number (.ofInt (-3))) heap with
    | ok old heap₁ => exact absurd (hok old heap₁ hread).1 (by decide)
    | error fault heap₁ =>
        obtain ⟨h, -⟩ | ⟨-, hitems⟩ := herror fault heap₁ hread
        · omega
        · exact ⟨heap', hwrite, hitems⟩

end ListScript
