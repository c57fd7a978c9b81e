import ListScript.Lists.Access

/-!
# Writing at several positions

A write at several positions finds out all positions before it changes anything, and changes the
list one element after the other. The list grows by one element at most, and of several writes to
one position the last one stays: `HeapM.writeIndex_several`.
-/

namespace ListScript

/-! ## One write -/

section

variable {items : List Value} {position : Nat}

/-- After a write, the position has the value, and all others have what they had. -/
theorem getElem?_setOrAppend (h : position ≤ items.length) (value : Value) (q : Nat) :
    (setOrAppend items position value)[q]? = if q = position then some value else items[q]? := by
  unfold setOrAppend
  split
  · next hlt =>
    rw [List.getElem?_set, if_pos hlt]
    by_cases hq : q = position
    · rw [if_pos hq.symm, if_pos hq]
    · rw [if_neg (Ne.symm hq), if_neg hq]
  · next hle =>
    obtain rfl : position = items.length := by omega
    rw [List.getElem?_append, List.getElem?_singleton]
    grind

/-- A write past the last element makes the list longer by one. -/
theorem length_setOrAppend (h : position ≤ items.length) (value : Value) :
    (setOrAppend items position value).length =
      if position = items.length then items.length + 1 else items.length := by
  unfold setOrAppend
  split
  · rw [List.length_set, if_neg (by omega)]
  · rw [List.length_append, List.length_singleton, if_pos (by omega)]

/-- No write makes the list shorter. -/
theorem length_le_setOrAppend (items : List Value) (position : Nat) (value : Value) :
    items.length ≤ (setOrAppend items position value).length := by
  unfold setOrAppend
  split <;> simp

end

/-! ## Several writes

All positions are those of the list as it was, or the one past its last element. They stay so when
the list has grown. -/

section

variable {items : List Value} {writes : List (Nat × Value)}

theorem writeAll_cons (items : List Value) (write : Nat × Value) (rest : List (Nat × Value)) :
    writeAll items (write :: rest) = writeAll (setOrAppend items write.1 write.2) rest :=
  rfl

theorem writeAll_append (items : List Value) (before after : List (Nat × Value)) :
    writeAll items (before ++ after) = writeAll (writeAll items before) after :=
  List.foldl_append

/-- No writes make the list shorter. -/
theorem length_le_writeAll (items : List Value) (writes : List (Nat × Value)) :
    items.length ≤ (writeAll items writes).length := by
  induction writes generalizing items with
  | nil => exact Nat.le_refl _
  | cons write rest ih => exact Nat.le_trans (length_le_setOrAppend items write.1 write.2) (ih _)

/-- A list that has an element at every position keeps its length. -/
theorem length_writeAll_of_lt (hwrites : ∀ write ∈ writes, write.1 < items.length) :
    (writeAll items writes).length = items.length := by
  induction writes generalizing items with
  | nil => rfl
  | cons write rest ih =>
      obtain ⟨hfirst, hrest⟩ := List.forall_mem_cons.1 hwrites
      have hlength := length_setOrAppend (Nat.le_of_lt hfirst) write.2
      rw [if_neg (Nat.ne_of_lt hfirst)] at hlength
      rw [writeAll_cons, ih (hlength ▸ hrest), hlength]

/-- The list grows by one element if one of the writes is past the last one. -/
theorem length_writeAll_of_end (hwrites : ∀ write ∈ writes, write.1 ≤ items.length)
    (hend : ∃ write ∈ writes, write.1 = items.length) :
    (writeAll items writes).length = items.length + 1 := by
  induction writes generalizing items with
  | nil => simp at hend
  | cons write rest ih =>
      obtain ⟨hfirst, hrest⟩ := List.forall_mem_cons.1 hwrites
      have hlength := length_setOrAppend hfirst write.2
      rw [writeAll_cons]
      by_cases hgrows : write.1 = items.length
      · -- from here on there is an element at every position
        rw [if_pos hgrows] at hlength
        rw [length_writeAll_of_lt, hlength]
        intro other hmem
        rw [hlength]
        exact Nat.lt_succ_of_le (hrest other hmem)
      · rw [if_neg hgrows] at hlength
        obtain ⟨other, hmem, heq⟩ := hend
        rcases List.mem_cons.1 hmem with rfl | hmem
        · exact absurd heq hgrows
        · rw [ih (hlength ▸ hrest) ⟨other, hmem, hlength ▸ heq⟩, hlength]

/-- Where nothing is written, the list stays as it is. -/
theorem getElem?_writeAll_of_ne (hwrites : ∀ write ∈ writes, write.1 ≤ items.length) {q : Nat}
    (hq : ∀ write ∈ writes, write.1 ≠ q) : (writeAll items writes)[q]? = items[q]? := by
  induction writes generalizing items with
  | nil => rfl
  | cons write rest ih =>
      obtain ⟨hfirst, hrest⟩ := List.forall_mem_cons.1 hwrites
      obtain ⟨hne, hother⟩ := List.forall_mem_cons.1 hq
      have hgrown := length_le_setOrAppend items write.1 write.2
      rw [writeAll_cons, ih (fun other hmem => Nat.le_trans (hrest other hmem) hgrown) hother,
        getElem?_setOrAppend hfirst, if_neg (Ne.symm hne)]

/-- The last write to a position is the one that stays. -/
theorem getElem?_writeAll_of_last {before after : List (Nat × Value)} {q : Nat} {value : Value}
    (hwrites : ∀ write ∈ before ++ (q, value) :: after, write.1 ≤ items.length)
    (hlast : ∀ write ∈ after, write.1 ≠ q) :
    (writeAll items (before ++ (q, value) :: after))[q]? = some value := by
  obtain ⟨-, hrest⟩ := List.forall_mem_append.1 hwrites
  obtain ⟨hq, hafter⟩ := List.forall_mem_cons.1 hrest
  have hgrown := length_le_writeAll items before
  have hgrown' := Nat.le_trans hgrown (length_le_setOrAppend _ q value)
  rw [writeAll_append, writeAll_cons,
    getElem?_writeAll_of_ne (fun write hmem => Nat.le_trans (hafter write hmem) hgrown') hlast,
    getElem?_setOrAppend (Nat.le_trans hq hgrown), if_pos rfl]

end

/-! ## Values at positions -/

/-- Writes go to positions up to the one past the last. -/
theorem writePosition_le (length : Nat) (raw : Number) : writePosition length raw ≤ length :=
  Nat.min_le_right _ _

section

variable {positions : List Nat} {values : List Value}

/-- The last value for a position splits the writes before and after it. -/
theorem exists_zip_eq (hlength : values.length = positions.length) {j q : Nat}
    (hj : positions[j]? = some q) (hlast : ∀ k > j, positions[k]? ≠ some q) :
    ∃ value before after, values[j]? = some value ∧
      positions.zip values = before ++ (q, value) :: after ∧ ∀ write ∈ after, write.1 ≠ q := by
  obtain ⟨hlt, -⟩ := List.getElem?_eq_some_iff.1 hj
  have hvalue : values[j]? = some values[j] := List.getElem?_eq_getElem (by omega)
  have hwrite : (positions.zip values)[j]? = some (q, values[j]) :=
    List.getElem?_zip_eq_some.2 ⟨hj, hvalue⟩
  obtain ⟨hlt', hget⟩ := List.getElem?_eq_some_iff.1 hwrite
  refine ⟨values[j], (positions.zip values).take j, (positions.zip values).drop (j + 1), hvalue,
    ?_, ?_⟩
  · rw [← hget, List.getElem_cons_drop, List.take_append_drop]
  · intro write hmem heq
    obtain ⟨i, hi⟩ := List.mem_iff_getElem?.1 hmem
    rw [List.getElem?_drop] at hi
    have hposition := (List.getElem?_zip_eq_some.1 hi).1
    exact hlast (j + 1 + i) (by omega) (heq ▸ hposition)

/-- A position is written to exactly if it is one of the given ones. -/
theorem exists_mem_zip_iff (hlength : values.length = positions.length) (q : Nat) :
    (∃ write ∈ positions.zip values, write.1 = q) ↔ q ∈ positions := by
  rw [← List.mem_map (f := Prod.fst), List.map_fst_zip (Nat.le_of_eq hlength.symm)]

end

/-- Numbers give themselves as positions. -/
theorem Positions.mapM_number (length : Nat) {raws : List Number}
    (h : ∀ raw ∈ raws, raw.isNaN = false) :
    (raws.map Value.number).mapM (number length) = .ok raws := by
  induction raws with
  | nil => rfl
  | cons raw rest ih =>
      obtain ⟨hraw, hrest⟩ := List.forall_mem_cons.1 h
      have hnumber : number length (.number raw) = .ok raw := by simp [number, hraw]
      rw [List.map_cons, List.mapM_cons, hnumber, ih hrest]
      rfl

/-- A list of numbers, unless it is a single one, gives all of them as positions. -/
theorem HeapM.positions_several {heap : Heap} {index : ListId} {raws : List Number}
    (hindex : heap.items index = raws.map .number) (hnumbers : ∀ raw ∈ raws, raw.isNaN = false)
    (hone : raws.length ≠ 1) (length : Nat) :
    positions length (.list index) heap = .ok (.several raws) heap := by
  have hof : Positions.of heap length (.list index) = .ok (.several raws) := by
    simp only [Positions.of, hindex, Positions.mapM_number length hnumbers, bind, Except.bind]
    rcases raws with _ | ⟨first, _ | ⟨second, rest⟩⟩
    · rfl
    · exact absurd rfl hone
    · rfl
  rw [positions, hof]
  rfl

/-- A sequence goes on from what its first part yields. -/
theorem HeapM.run_bind_ok {α β : Type} {x : HeapM α} {heap heap' : Heap} {a : α}
    (h : x heap = .ok a heap') (f : α → HeapM β) : (x >>= f) heap = f a heap' := by
  simp only [bind, EStateM.bind, h]

/-- What a write at several positions does to the heap. -/
theorem HeapM.writeIndex_run {heap : Heap} {id index source : ListId} {raws : List Number}
    (hid : id < heap.size) (hindex : heap.items index = raws.map .number)
    (hnumbers : ∀ raw ∈ raws, raw.isNaN = false) (hone : raws.length ≠ 1)
    (hlength : (heap.items source).length = raws.length) :
    ∃ heap', writeIndex (.list id) (.list index) (.list source) heap = .ok (.list source) heap' ∧
      heap'.items id = writeAll (heap.items id)
        ((raws.map (writePosition (heap.items id).length)).zip (heap.items source)) ∧
      ∀ other ≠ id, heap'.items other = heap.items other := by
  have hlist : expectList (.list id) heap = .ok id heap := rfl
  have hitems (list : ListId) : items list heap = .ok (heap.items list) heap := rfl
  have hpositions := positions_several hindex hnumbers hone (heap.items id).length
  rw [writeIndex, run_bind_ok hlist, run_bind_ok (hitems id), run_bind_ok hpositions]
  cases raws with
  | nil => exact ⟨heap, rfl, rfl, fun _ _ => rfl⟩
  | cons raw rest =>
      refine ⟨heap.put id _, ?_, (heap.items_put id _ id).trans (if_pos ⟨rfl, hid⟩), ?_⟩
      · dsimp only
        rw [run_bind_ok (hitems source), if_neg (not_not_intro hlength)]
        rfl
      · intro other hother
        rw [Heap.items_put, if_neg fun h => hother h.1]

/-- What a write at several positions does. Let the list `id` have `length` elements, let the list
`index` contain numbers, none or several of them, and let the list `source` contain as many values;
the three may be the same list. Then the write succeeds and yields `source`. The numbers stand for
positions of `id` or for the one past its last element, in which case the list is longer by one
element afterwards. At each of these positions it has the value that goes with the last number that
stands for the position, as `source` had it before the write, and its old element at all others. No
other list changes. -/
theorem HeapM.writeIndex_several (heap : Heap) (id index source : ListId) (raws : List Number)
    (length : Nat) (hid : id < heap.size) (hold : (heap.items id).length = length)
    (hindex : heap.items index = raws.map .number) (hnumbers : ∀ raw ∈ raws, raw.isNaN = false)
    (hone : raws.length ≠ 1) (hsource : (heap.items source).length = raws.length) :
    ∃ heap', writeIndex (.list id) (.list index) (.list source) heap = .ok (.list source) heap' ∧
      (∀ raw ∈ raws, writePosition length raw ≤ length) ∧
      (length ∈ raws.map (writePosition length) → (heap'.items id).length = length + 1) ∧
      (length ∉ raws.map (writePosition length) → (heap'.items id).length = length) ∧
      (∀ j q : Nat, (raws.map (writePosition length))[j]? = some q →
        (∀ k > j, (raws.map (writePosition length))[k]? ≠ some q) →
        (heap'.items id)[q]? = (heap.items source)[j]?) ∧
      (∀ q, q ∉ raws.map (writePosition length) → (heap'.items id)[q]? = (heap.items id)[q]?) ∧
      ∀ other ≠ id, heap'.items other = heap.items other := by
  subst hold
  obtain ⟨heap', hrun, hitems, hframe⟩ := writeIndex_run hid hindex hnumbers hone hsource
  generalize hpositions : raws.map (writePosition (heap.items id).length) = positions at hitems ⊢
  have hzip : (heap.items source).length = positions.length := by
    rw [hsource, ← hpositions, List.length_map]
  have hle : ∀ write ∈ positions.zip (heap.items source), write.1 ≤ (heap.items id).length := by
    intro write hmem
    rw [← hpositions] at hmem
    obtain ⟨raw, -, heq⟩ := List.mem_map.1 (List.of_mem_zip hmem).1
    rw [← heq]
    exact writePosition_le _ raw
  refine ⟨heap', hrun, fun raw _ => writePosition_le _ raw, ?_, ?_, ?_, ?_, hframe⟩
  · intro hend
    rw [hitems]
    exact length_writeAll_of_end hle ((exists_mem_zip_iff hzip _).2 hend)
  · intro hend
    rw [hitems]
    refine length_writeAll_of_lt fun write hmem => Nat.lt_of_le_of_ne (hle write hmem) fun heq => ?_
    exact hend ((exists_mem_zip_iff hzip _).1 ⟨write, hmem, heq⟩)
  · intro j q hj hlast
    obtain ⟨value, before, after, hvalue, hsplit, hafter⟩ := exists_zip_eq hzip hj hlast
    rw [hitems, hvalue, hsplit]
    exact getElem?_writeAll_of_last (hsplit ▸ hle) hafter
  · intro q hq
    rw [hitems]
    refine getElem?_writeAll_of_ne hle fun write hmem heq => hq ?_
    exact (exists_mem_zip_iff hzip q).1 ⟨write, hmem, heq⟩

/-- The list of five, nine and zero written into itself at these positions: five and nine both go
past the last element, where nine stays. -/
theorem HeapM.writeIndex_several_itself :
    let heap : Heap := ⟨#[[.number 5, .number 9, .number 0]]⟩
    ∃ heap', writeIndex (.list 0) (.list 0) (.list 0) heap = .ok (.list 0) heap' ∧
      (heap'.items 0).length = 4 ∧ (heap'.items 0)[0]? = some (.number 0) ∧
      (heap'.items 0)[1]? = some (.number 9) ∧ (heap'.items 0)[3]? = some (.number 9) := by
  intro heap
  have hpositions : [5, 9, (0 : Number)].map (writePosition 3) = [3, 3, 0] := by decide +kernel
  obtain ⟨heap', hrun, -, hgrows, -, hlast, hothers, -⟩ := writeIndex_several heap 0 0 0
    [5, 9, 0] 3 (by decide) (by decide) rfl (by decide +kernel) (by decide) (by decide)
  have hitems : heap.items 0 = [.number 5, .number 9, .number 0] := rfl
  rw [hpositions] at hgrows hlast hothers
  rw [hitems] at hlast hothers
  refine ⟨heap', hrun, hgrows (by decide), hlast 2 0 rfl ?_, hothers 1 (by decide),
    hlast 1 3 rfl ?_⟩
  · intro k hk heq
    obtain ⟨hlt, -⟩ := List.getElem?_eq_some_iff.1 heq
    exact absurd hlt (Nat.not_lt.2 hk)
  · intro k hk heq
    obtain ⟨hlt, -⟩ := List.getElem?_eq_some_iff.1 heq
    obtain rfl : k = 2 := Nat.le_antisymm (Nat.le_of_lt_succ hlt) hk
    cases heq

end ListScript
