import ListScript.Value.Method

/-!
# Replacing the first occurrence

`OccursAt` says position by position that the searched values stand in a row in a list. The search
goes through the positions from the front and finds the first one of these, or none if there is none
(`occurrence?_eq_some_iff`, `occurrence?_eq_none_iff`). No difference of lengths and no part of a
list that is taken on the way is out of range: `replaceChecked?`, which looks at each of them, gives
the same result (`replaceChecked?_eq`). `replace_first` says what follows for the method.
-/

namespace ListScript.Method

variable {heap : Heap} {search items replacement : List Value} {start : Nat}

/-! ## Occurrences -/

/-- From the position on the items hold the searched values in a row: each of them equals the item
at its place. -/
def OccursAt (heap : Heap) (search items : List Value) (start : Nat) : Prop :=
  start + search.length ≤ items.length ∧ ∀ j < search.length, ∃ s v, search[j]? = some s ∧
    items[start + j]? = some v ∧ heap.equal? s v = some true

/-- The position is the first from which on the items hold the searched values in a row. -/
def FirstAt (heap : Heap) (search items : List Value) (start : Nat) : Prop :=
  OccursAt heap search items start ∧ ∀ other < start, ¬ OccursAt heap search items other

/-- Going through both lists side by side compares what stands at the same positions. -/
theorem matchesFront_iff (h : search.length ≤ items.length) :
    matchesFront heap search items = true ↔ ∀ j < search.length, ∃ s v, search[j]? = some s ∧
      items[j]? = some v ∧ heap.equal? s v = some true := by
  induction search generalizing items with
  | nil => exact ⟨fun _ j hj => (Nat.not_lt_zero j hj).elim, fun _ => rfl⟩
  | cons s search ih =>
      cases items with
      | nil => exact (Nat.not_succ_le_zero _ h).elim
      | cons v items =>
          have hrest := ih (Nat.le_of_succ_le_succ h)
          show ((heap.equal? s v == some true) && matchesFront heap search items) = true ↔ _
          rw [Bool.and_eq_true, beq_iff_eq, hrest]
          constructor
          · rintro ⟨hfirst, hrest⟩ j hj
            cases j with
            | zero => exact ⟨s, v, rfl, rfl, hfirst⟩
            | succ j => exact hrest j (Nat.lt_of_succ_lt_succ hj)
          · intro hall
            obtain ⟨s', v', hs, hv, hfirst⟩ := hall 0 (Nat.succ_pos _)
            cases hs
            cases hv
            exact ⟨hfirst, fun j hj => hall (j + 1) (Nat.succ_lt_succ hj)⟩

theorem occursAt_iff : OccursAt heap search items start ↔
    start + search.length ≤ items.length ∧
      matchesFront heap search (items.drop start) = true := by
  refine and_congr_right fun hle => ?_
  rw [matchesFront_iff (by rw [List.length_drop]; omega)]
  simp only [List.getElem?_drop]

/-- Nothing is searched for, and so it is found at once. -/
theorem firstAt_nil (heap : Heap) (items : List Value) : FirstAt heap [] items 0 :=
  ⟨⟨Nat.zero_le _, fun j hj => (Nat.not_lt_zero j hj).elim⟩,
    fun other hother => (Nat.not_lt_zero other hother).elim⟩

/-! ## The search -/

/-- The search stops at the first occurrence. -/
theorem occurrence?_eq_some_iff :
    occurrence? heap search items = some start ↔ FirstAt heap search items start := by
  unfold occurrence?
  split
  · next hlength =>
      rw [List.find?_range_eq_some]
      simp only [FirstAt, occursAt_iff, List.mem_range, Bool.not_eq_true', ← Bool.not_eq_true]
      constructor
      · rintro ⟨hfound, hlt, hbefore⟩
        exact ⟨⟨by omega, hfound⟩, fun other hother hoccurs => hbefore other hother hoccurs.2⟩
      · rintro ⟨⟨hle, hfound⟩, hbefore⟩
        refine ⟨hfound, by omega, fun other hother hmatches => hbefore other hother ⟨?_, hmatches⟩⟩
        omega
  · next hlength =>
      constructor
      · intro hfound
        cases hfound
      · intro hfirst
        have hle := hfirst.1.1
        omega

/-- Nothing is found if there is no occurrence. -/
theorem occurrence?_eq_none_iff :
    occurrence? heap search items = none ↔ ∀ start, ¬ OccursAt heap search items start := by
  constructor
  · intro hnone start
    -- The least occurrence would have been found.
    induction start using Nat.strongRecOn with
    | ind start ih =>
        intro hoccurs
        rw [occurrence?_eq_some_iff.2 ⟨hoccurs, ih⟩] at hnone
        cases hnone
  · intro hnone
    cases hfound : occurrence? heap search items with
    | none => rfl
    | some start => exact (hnone start (occurrence?_eq_some_iff.1 hfound).1).elim

/-! ## Nothing is out of range -/

/-- The difference of two numbers, if the second is not the greater one. -/
def difference? (a b : Nat) : Option Nat := if b ≤ a then some (a - b) else none

/-- What a list holds between two positions, if these are in order and in range. -/
def slice? (items : List Value) (start stop : Nat) : Option (List Value) :=
  if start ≤ stop ∧ stop ≤ items.length then some ((items.take stop).drop start) else none

/-- The first position at which the searched values occur, if everything that the search needs is in
range. -/
def occurrenceChecked? (heap : Heap) (search items : List Value) : Option (Option Nat) :=
  if search.length ≤ items.length then do
    let last ← difference? items.length search.length
    (List.range (last + 1)).findM? fun start => do
      return matchesFront heap search (← slice? items start items.length)
  else some none

/-- The elements with the first occurrence of the searched values replaced, if everything that is
needed for this is in range. -/
def replaceChecked? (heap : Heap) (items search replacement : List Value) :
    Option (List Value) := do
  match ← occurrenceChecked? heap search items with
  | none => return items
  | some start =>
    let before ← slice? items 0 start
    let after ← slice? items (start + search.length) items.length
    return before ++ replacement ++ after

theorem slice?_toEnd (h : start ≤ items.length) :
    slice? items start items.length = some (items.drop start) := by
  rw [slice?, if_pos ⟨h, Nat.le_refl _⟩, List.take_length]

theorem slice?_fromFront (h : start ≤ items.length) :
    slice? items 0 start = some (items.take start) := by
  rw [slice?, if_pos ⟨Nat.zero_le _, h⟩, List.drop_zero]

/-- A search in which no test fails is a search by the answers. -/
theorem findM?_eq_some {test : Nat → Option Bool} {answer : Nat → Bool} {positions : List Nat}
    (h : ∀ position ∈ positions, test position = some (answer position)) :
    positions.findM? test = some (positions.find? answer) := by
  induction positions with
  | nil => rfl
  | cons position positions ih =>
      have hfirst := h position List.mem_cons_self
      have hrest := ih fun other hother => h other (List.mem_cons_of_mem _ hother)
      rw [List.findM?, hfirst, List.find?_cons]
      cases answer position with
      | true => rfl
      | false => exact hrest

theorem occurrenceChecked?_eq (heap : Heap) (search items : List Value) :
    occurrenceChecked? heap search items = some (occurrence? heap search items) := by
  unfold occurrenceChecked? occurrence?
  split
  · next hlength =>
      rw [difference?, if_pos hlength]
      show (List.range _).findM? _ = _
      refine findM?_eq_some fun start hstart => ?_
      have hlt := List.mem_range.1 hstart
      rw [slice?_toEnd (by omega)]
      rfl
  · rfl

/-- Replacing goes through with every difference and every part of a list checked. -/
theorem replaceChecked?_eq (heap : Heap) (items search replacement : List Value) :
    replaceChecked? heap items search replacement =
      some (replaceFirst heap items search replacement) := by
  unfold replaceChecked? replaceFirst
  rw [occurrenceChecked?_eq]
  show (match occurrence? heap search items with | none => _ | some start => _) = _
  cases hfound : occurrence? heap search items with
  | none => rfl
  | some start =>
      have hle := (occurrence?_eq_some_iff.1 hfound).1.1
      show (slice? items 0 start).bind _ = _
      rw [slice?_fromFront (by omega), slice?_toEnd hle]
      rfl

/-! ## The method -/

theorem replaceFirst_of_first (h : FirstAt heap search items start) :
    replaceFirst heap items search replacement =
      items.take start ++ replacement ++ items.drop (start + search.length) := by
  rw [replaceFirst, occurrence?_eq_some_iff.2 h]

theorem replaceFirst_of_not_occurs (h : ∀ start, ¬ OccursAt heap search items start) :
    replaceFirst heap items search replacement = items := by
  rw [replaceFirst, occurrence?_eq_none_iff.2 h]

/-- Replacing makes a new list and leaves all lists as they were. With the elements of the list, the
searched values and the replacement, each given by a list or a single value, and whichever of them
are the same list: if the searched values occur in a row, the new list has the replacement in the
place of the first occurrence, and otherwise it has the elements of the list. No values occur at the
front of every list. No difference and no part of a list that is taken is out of range. -/
theorem replace_first (heap : Heap) (id : ListId) (search replacement : Value) :
    find (.list id) "replace" = .ok .replace ∧
    ∃ result heap', call .replace (.list id) [search, replacement] heap =
        .ok (.list heap.size) heap' ∧
      heap'.size = heap.size + 1 ∧ heap'.items heap.size = result ∧
      (∀ other, other ≠ heap.size → heap'.items other = heap.items other) ∧
      ((∃ start, FirstAt heap (asItems heap search) (heap.items id) start ∧
          result = (heap.items id).take start ++ asItems heap replacement ++
            (heap.items id).drop (start + (asItems heap search).length)) ∨
        (∀ start, ¬ OccursAt heap (asItems heap search) (heap.items id) start) ∧
          result = heap.items id) ∧
      (asItems heap search = [] → result = asItems heap replacement ++ heap.items id) ∧
      replaceChecked? heap (heap.items id) (asItems heap search) (asItems heap replacement) =
        some result := by
  refine ⟨rfl, replaceFirst heap (heap.items id) (asItems heap search) (asItems heap replacement),
    (heap.alloc _).2, rfl, Array.size_push _, ?_, ?_, ?_, ?_, replaceChecked?_eq _ _ _ _⟩
  · rw [Heap.items_alloc, if_pos rfl]
  · intro other hother
    rw [Heap.items_alloc, if_neg hother]
  · cases hfound : occurrence? heap (asItems heap search) (heap.items id) with
    | some start =>
        have hfirst := occurrence?_eq_some_iff.1 hfound
        exact .inl ⟨start, hfirst, replaceFirst_of_first hfirst⟩
    | none =>
        have hnone := occurrence?_eq_none_iff.1 hfound
        exact .inr ⟨hnone, replaceFirst_of_not_occurs hnone⟩
  · intro hnil
    rw [hnil, replaceFirst_of_first (firstAt_nil heap _)]
    rfl

/-- The elements of an empty list are found at the front, where the list itself is put. -/
theorem replace_first_nothing :
    asItems ⟨#[[.null], []]⟩ (.list 1) = [] ∧
    ∃ heap', call .replace (.list 0) [.list 1, .list 0] ⟨#[[.null], []]⟩ = .ok (.list 2) heap' ∧
      heap'.items 2 = [.null, .null] := by
  obtain ⟨-, result, heap', hcall, -, hresult, -, -, hnothing, -⟩ :=
    replace_first ⟨#[[.null], []]⟩ 0 (.list 1) (.list 0)
  exact ⟨rfl, heap', hcall, hresult.trans (hnothing rfl)⟩

end ListScript.Method
