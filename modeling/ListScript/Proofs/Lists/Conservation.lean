import ListScript.Proofs.Lists.Allocation
import ListScript.Proofs.Lists.RoundTrip
import Mathlib.Data.List.Perm.Basic

/-!
# Pushes and pops keep the elements

A push at several positions puts in one value after the other, a pop takes out one element after the
other, while the list gets longer or shorter under positions that may repeat. `insertAll` is followed
insertion by insertion, and `Drained` follows the removals. Nothing is lost or doubled on the way:
`HeapM.push_pop_conserve`.
-/

namespace ListScript

/-! ## Putting in -/

section

variable (items : List Value)

theorem insertAll_cons (insert : Nat × Value) (rest : List (Nat × Value)) :
    insertAll items (insert :: rest) = insertAll (insertAt items insert.1 insert.2) rest :=
  rfl

theorem sublist_insertAt (position : Nat) (value : Value) :
    items.Sublist (insertAt items position value) :=
  List.sublist_insertIdx items _ value

theorem perm_insertAt (position : Nat) (value : Value) :
    (insertAt items position value).Perm (value :: items) :=
  List.perm_insertIdx value items (Nat.min_le_right _ _)

/-- The elements stay in their order. -/
theorem sublist_insertAll (inserts : List (Nat × Value)) :
    items.Sublist (insertAll items inserts) := by
  induction inserts generalizing items with
  | nil => exact List.Sublist.refl items
  | cons insert rest ih => exact (sublist_insertAt items insert.1 insert.2).trans (ih _)

/-- The others are the values that are put in. -/
theorem perm_insertAll (inserts : List (Nat × Value)) :
    (insertAll items inserts).Perm (items ++ inserts.map Prod.snd) := by
  induction inserts generalizing items with
  | nil => exact List.Perm.of_eq (List.append_nil items).symm
  | cons insert rest ih =>
      rw [insertAll_cons, List.map_cons]
      refine (ih _).trans (((perm_insertAt items insert.1 insert.2).append_right _).trans ?_)
      exact List.perm_middle.symm

end

/-! ## Taking out -/

/-- The elements of a list are taken out at positions, one after the other, and at most one for each
position. `rest` is what is left of the list, and `removed` are the elements in the order in which
they were taken. -/
inductive Drained : List Value → List Number → List Value → List Value → Prop
  /-- There are no more positions. -/
  | done (items : List Value) : Drained items [] items []
  /-- The position is past the last element. -/
  | miss {items rest removed : List Value} {raw : Number} {raws : List Number}
      (hposition : items.length ≤ popPosition items.length raw)
      (hrest : Drained items raws rest removed) : Drained items (raw :: raws) rest removed
  /-- The element at the position is taken. -/
  | take {front back rest removed : List Value} {item : Value} {raw : Number} {raws : List Number}
      (hposition : popPosition (front ++ item :: back).length raw = front.length)
      (hrest : Drained (front ++ back) raws rest removed) :
      Drained (front ++ item :: back) (raw :: raws) rest (item :: removed)

/-- The element at a position, between those in front and those behind. -/
theorem exists_front_back {items : List Value} {position : Nat} {item : Value}
    (h : items[position]? = some item) : ∃ front back, items = front ++ item :: back ∧
      front.length = position ∧ items.eraseIdx position = front ++ back := by
  obtain ⟨hlt, hget⟩ := List.getElem?_eq_some_iff.1 h
  refine ⟨items.take position, items.drop (position + 1), ?_, ?_,
    List.eraseIdx_eq_take_drop_succ items position⟩
  · rw [← hget, List.getElem_cons_drop, List.take_append_drop]
  · rw [List.length_take, Nat.min_eq_left (Nat.le_of_lt hlt)]

/-- Elements are taken out in this way. -/
theorem drained_removeAll (items : List Value) (raws : List Number) :
    Drained items raws (removeAll items raws).1 (removeAll items raws).2 := by
  induction raws generalizing items with
  | nil => exact .done items
  | cons raw raws ih =>
      unfold removeAll
      dsimp only
      split
      · next hnone => exact .miss (List.getElem?_eq_none_iff.1 hnone) (ih items)
      · next item hitem =>
        obtain ⟨front, back, hsplit, hfront, herase⟩ := exists_front_back hitem
        rw [herase]
        subst hsplit
        exact .take hfront.symm (ih (front ++ back))

namespace Drained

variable {items rest removed : List Value} {raws : List Number}

/-- What is left is in its old order. -/
theorem sublist (h : Drained items raws rest removed) : rest.Sublist items := by
  induction h with
  | done items => exact List.Sublist.refl items
  | miss _ _ ih => exact ih
  | take _ _ ih => exact ih.trans ((List.Sublist.refl _).append (List.sublist_cons_self _ _))

/-- What was taken and what is left are all the elements. -/
theorem perm (h : Drained items raws rest removed) : (removed ++ rest).Perm items := by
  induction h with
  | done items => exact List.Perm.refl items
  | miss _ _ ih => exact ih
  | take _ _ ih => exact (ih.cons _).trans List.perm_middle.symm

/-- At most one element is taken for each position. -/
theorem length_le (h : Drained items raws rest removed) : removed.length ≤ raws.length := by
  induction h with
  | done items => exact Nat.le_refl _
  | miss _ _ ih => exact Nat.le_succ_of_le ih
  | take _ _ ih => exact Nat.succ_le_succ ih

end Drained

/-! ## Positions -/

/-- The numbers that a value gives as positions: itself, or the elements of a list. -/
def Heap.Gives (heap : Heap) (index : Value) (raws : List Number) : Prop :=
  (∃ raw, index = .number raw ∧ raws = [raw]) ∨
    ∃ list, index = .list list ∧ heap.items list = raws.map .number

/-- A value gives as many positions as it has elements, or one if it is no list. -/
theorem Heap.Gives.length_eq {heap : Heap} {index : Value} {raws : List Number}
    (h : heap.Gives index raws) : raws.length = (index.length? heap).getD 1 := by
  rcases h with ⟨raw, rfl, rfl⟩ | ⟨list, rfl, hitems⟩
  · rfl
  · rw [Value.length?, hitems, List.length_map, Option.getD_some]

/-- The values that a push at the given number of positions puts into a list: the value itself at one
position, one for each at several. -/
def Value.pushed (heap : Heap) (value : Value) (count : Nat) : List Value :=
  if count = 1 then [value]
  else
    match value with
    | .list source => heap.items source
    | other => List.replicate count other

theorem Value.pushed_list (heap : Heap) (source : ListId) {count : Nat} (hcount : count ≠ 1) :
    (Value.list source).pushed heap count = heap.items source :=
  if_neg hcount

theorem Value.pushed_of_not_list (heap : Heap) {value : Value} {count : Nat} (hcount : count ≠ 1)
    (hvalue : ∀ source, value ≠ .list source) :
    value.pushed heap count = List.replicate count value := by
  rw [pushed, if_neg hcount]
  exact hvalue

theorem zip_replicate (raws : List Number) (position : Number → Nat) (value : Value) :
    (raws.map position).zip (List.replicate raws.length value) =
      raws.map fun raw => (position raw, value) := by
  induction raws with
  | nil => rfl
  | cons raw raws ih =>
      rw [List.length_cons, List.replicate_succ, List.map_cons, List.map_cons, List.zip_cons_cons, ih]

/-- Only numbers are positions. -/
theorem Positions.eq_of_number {length : Nat} {value : Value} {raw : Number}
    (h : number length value = .ok raw) : value = .number raw := by
  unfold number at h
  split at h
  · split at h
    · cases h
    · cases h
      rfl
  · cases h

theorem Positions.eq_map_of_mapM {length : Nat} {values : List Value} {raws : List Number}
    (h : values.mapM (number length) = .ok raws) : values = raws.map .number := by
  induction values generalizing raws with
  | nil =>
      cases h
      rfl
  | cons value values ih =>
      rw [List.mapM_cons] at h
      cases hfirst : number length value with
      | error fault => simp [hfirst, bind, Except.bind] at h
      | ok raw =>
          cases hrest : values.mapM (number length) with
          | error fault => simp [hfirst, hrest, bind, Except.bind] at h
          | ok rest =>
              simp only [hfirst, hrest, bind, Except.bind, pure, Except.pure] at h
              cases h
              rw [List.map_cons, ← ih hrest, eq_of_number hfirst]

namespace HeapM

variable {heap heap' : Heap} {id : ListId} {index value result : Value}

/-- A sequence that succeeds does so in both its parts. -/
theorem exists_of_run_bind {α β : Type} {x : HeapM α} {f : α → HeapM β} {b : β}
    (h : (x >>= f) heap = .ok b heap') :
    ∃ a heap₁, x heap = .ok a heap₁ ∧ f a heap₁ = .ok b heap' := by
  change EStateM.bind x f heap = _ at h
  unfold EStateM.bind at h
  cases hx : x heap with
  | ok a heap₁ =>
      rw [hx] at h
      exact ⟨a, heap₁, rfl, h⟩
  | error fault heap₁ =>
      rw [hx] at h
      cases h

/-- What a value gives as positions, if it gives any. -/
theorem positions_cases {length : Nat} {found : Positions}
    (h : positions length index heap = .ok found heap') :
    heap' = heap ∧ ∃ raws, heap.Gives index raws ∧
      ((∃ raw, raws = [raw] ∧ found = .single raw) ∨
        raws.length ≠ 1 ∧ found = .several raws) := by
  obtain ⟨hof, hheap⟩ := eq_ok_of_ofExcept h
  refine ⟨hheap, ?_⟩
  cases index with
  | list list =>
      unfold Positions.of at hof
      cases hmap : (heap.items list).mapM (Positions.number length) with
      | error fault => simp [hmap, bind, Except.bind] at hof
      | ok raws =>
          refine ⟨raws, .inr ⟨list, rfl, Positions.eq_map_of_mapM hmap⟩, ?_⟩
          simp only [hmap, bind, Except.bind] at hof
          split at hof
          · next raw =>
            cases hof
            exact .inl ⟨raw, rfl, rfl⟩
          · next hmany =>
            cases hof
            refine .inr ⟨fun hone => ?_, rfl⟩
            obtain ⟨raw, rfl⟩ := List.length_eq_one_iff.1 hone
            exact hmany raw rfl
  | number raw =>
      cases hnumber : Positions.number length (.number raw) with
      | error fault => simp [Positions.of, hnumber, bind, Except.bind] at hof
      | ok found' =>
          cases Positions.eq_of_number hnumber
          simp only [Positions.of, hnumber, bind, Except.bind, pure, Except.pure] at hof
          cases hof
          exact ⟨[raw], .inl ⟨raw, rfl, rfl⟩, .inl ⟨raw, rfl, rfl⟩⟩
  | null | boolean | character | function | native | control | nothing => cases hof

/-- A push that succeeds turns the list around if it is pushed into itself at one position, and puts
in the pushed values otherwise. -/
theorem push_cases (h : push (.list id) index value heap = .ok result heap') :
    result = .list id ∧ ∃ raws, heap.Gives index raws ∧
      ((∃ raw, raws = [raw] ∧ value = .list id ∧
          heap' = heap.put id (rotate (heap.items id) (rotation (heap.items id).length raw))) ∨
        (value.pushed heap raws.length).length = raws.length ∧
          heap' = heap.put id (insertAll (heap.items id)
            ((raws.map (pushPosition (heap.items id).length)).zip
              (value.pushed heap raws.length)))) := by
  rw [push, run_bind_ok (run_asList _ _), run_bind_ok (run_items _ _)] at h
  obtain ⟨found, heap₁, hpositions, h⟩ := exists_of_run_bind h
  obtain ⟨rfl, raws, hgives, ⟨raw, rfl, rfl⟩ | ⟨hmany, rfl⟩⟩ := positions_cases hpositions
  · cases value with
    | list source =>
        dsimp only at h
        split at h
        · next heq =>
          cases h
          exact ⟨rfl, [raw], hgives, .inl ⟨raw, rfl, congrArg _ heq, rfl⟩⟩
        · cases h
          exact ⟨rfl, [raw], hgives, .inr ⟨rfl, rfl⟩⟩
    | _ =>
        cases h
        exact ⟨rfl, [raw], hgives, .inr ⟨rfl, rfl⟩⟩
  · cases value with
    | list source =>
        dsimp only at h
        rw [run_bind_ok (run_items source _)] at h
        split at h
        · cases h
        · next hlength =>
          cases h
          refine ⟨rfl, raws, hgives, .inr ?_⟩
          rw [Value.pushed_list heap₁ source hmany]
          exact ⟨Decidable.not_not.1 hlength, rfl⟩
    | _ =>
        cases h
        refine ⟨rfl, raws, hgives, .inr ?_⟩
        rw [Value.pushed_of_not_list heap₁ hmany (by simp), zip_replicate]
        exact ⟨List.length_replicate, rfl⟩

/-- A pop that succeeds takes out elements and yields them. -/
theorem pop_cases (h : pop (.list id) index heap = .ok result heap') :
    ∃ raws, heap.Gives index raws ∧
      popped (removeAll (heap.items id) raws).2
        (heap.put id (removeAll (heap.items id) raws).1) = .ok result heap' := by
  rw [pop, run_bind_ok (run_items _ _)] at h
  obtain ⟨found, heap₁, hpositions, h⟩ := exists_of_run_bind h
  obtain ⟨rfl, raws, hgives, hfound⟩ := positions_cases hpositions
  have hraws : found.raws = raws := by
    rcases hfound with ⟨raw, rfl, rfl⟩ | ⟨-, rfl⟩ <;> rfl
  refine ⟨raws, hgives, ?_⟩
  dsimp only at h
  rw [hraws] at h
  cases hfind : raws.find? fun raw => (Number.ofNat (heap₁.items id).length).lt raw with
  | some raw =>
      rw [hfind] at h
      cases h
  | none =>
      rw [hfind] at h
      exact h

/-- What a pop yields for the elements that it has taken. -/
theorem popped_cases {removed : List Value} (h : popped removed heap = .ok result heap') :
    (∀ other < heap.size, heap'.items other = heap.items other) ∧
      (removed = [] → result = .null) ∧ (∀ item, removed = [item] → result = item) ∧
      (1 < removed.length → result = .list heap.size ∧ heap'.items heap.size = removed) := by
  rcases removed with _ | ⟨first, _ | ⟨second, rest⟩⟩
  · cases h
    exact ⟨fun _ _ => rfl, fun _ => rfl, by simp, by simp⟩
  · cases h
    exact ⟨fun _ _ => rfl, by simp, fun item heq => List.singleton_inj.1 heq, by simp⟩
  · cases h
    refine ⟨(heap.extends_alloc _).items, by simp, by simp, fun _ => ⟨rfl, ?_⟩⟩
    exact (heap.items_alloc _ _).trans (if_pos rfl)

/-- Pushes and pops keep the elements. Let `raws` be the positions that `index` gives. After a push
that succeeds, other than a push of the list into itself at one position, the old elements are in the
list in their old order, and the others are those that were pushed: the value at one position,
otherwise the elements that the value list had before, one for each position, or the value for each
position if it is no list. A pop that succeeds takes out elements one after the other, at most one
for each position. Those that are left are in their old order, together with those that were taken
they are all that there were, and the pop yields null, the one element, or a new list of the elements
in the order in which they were taken. -/
theorem push_pop_conserve (heap : Heap) (id : ListId) (index : Value) (hid : id < heap.size) :
    (∀ value result heap', push (.list id) index value heap = .ok result heap' →
      ∃ raws, heap.Gives index raws ∧
        (¬(raws.length = 1 ∧ value = .list id) →
          (heap.items id).Sublist (heap'.items id) ∧
          (heap'.items id).Perm (heap.items id ++ value.pushed heap raws.length) ∧
          (value.pushed heap raws.length).length = raws.length)) ∧
    (∀ result heap', pop (.list id) index heap = .ok result heap' →
      ∃ raws removed, heap.Gives index raws ∧
        Drained (heap.items id) raws (heap'.items id) removed ∧
        (heap'.items id).Sublist (heap.items id) ∧
        (removed ++ heap'.items id).Perm (heap.items id) ∧
        removed.length ≤ raws.length ∧
        (removed = [] → result = .null) ∧ (∀ item, removed = [item] → result = item) ∧
        (1 < removed.length →
          ∃ new ≥ heap.size, result = .list new ∧ heap'.items new = removed)) := by
  constructor
  · intro value result heap' hpush
    obtain ⟨-, raws, hgives, ⟨raw, rfl, hitself, -⟩ | ⟨hlength, rfl⟩⟩ := push_cases hpush
    · exact ⟨[raw], hgives, fun hother => absurd ⟨rfl, hitself⟩ hother⟩
    · refine ⟨raws, hgives, fun _ => ?_⟩
      have hperm := perm_insertAll (heap.items id)
        ((raws.map (pushPosition (heap.items id).length)).zip (value.pushed heap raws.length))
      rw [List.map_snd_zip (by rw [hlength, List.length_map])] at hperm
      rw [Heap.items_put_self hid]
      exact ⟨sublist_insertAll _ _, hperm, hlength⟩
  · intro result heap' hpop
    obtain ⟨raws, hgives, hpopped⟩ := pop_cases hpop
    obtain ⟨hold, hnone, hone, hmany⟩ := popped_cases hpopped
    have hsize := heap.size_put id (removeAll (heap.items id) raws).1
    have hrest : heap'.items id = (removeAll (heap.items id) raws).1 :=
      (hold id (hsize ▸ hid)).trans (Heap.items_put_self hid _)
    have hdrained := drained_removeAll (heap.items id) raws
    rw [← hrest] at hdrained
    refine ⟨raws, _, hgives, hdrained, hdrained.sublist, hdrained.perm, hdrained.length_le, hnone,
      hone, fun hlt => ?_⟩
    exact ⟨_, Nat.le_of_eq hsize.symm, hmany hlt⟩

/-- The list of both infinities is pushed into itself at its own elements, and popped at the negative
one. -/
theorem push_pop_conserve_itself :
    let items : List Value := [.number (.infinite true), .number (.infinite false)]
    let heap : Heap := ⟨#[items]⟩
    (∃ heap', push (.list 0) (.list 0) (.list 0) heap = .ok (.list 0) heap' ∧
      items.Sublist (heap'.items 0) ∧ (heap'.items 0).Perm (items ++ items)) ∧
    ∃ heap', pop (.list 0) (.number (.infinite true)) heap =
        .ok (.number (.infinite true)) heap' ∧
      (heap'.items 0).Sublist items ∧
      (.number (.infinite true) :: heap'.items 0).Perm items := by
  intro items heap
  constructor
  · obtain ⟨heap', hpush⟩ : ∃ heap',
        push (.list 0) (.list 0) (.list 0) heap = .ok (.list 0) heap' := ⟨_, rfl⟩
    obtain ⟨raws, hgives, hkept⟩ :=
      (push_pop_conserve heap 0 (.list 0) (by decide)).1 _ _ _ hpush
    have htwo : raws.length = 2 := hgives.length_eq
    obtain ⟨hsublist, hperm, -⟩ := hkept (by omega)
    rw [htwo, Value.pushed_list heap 0 (by decide)] at hperm
    exact ⟨heap', hpush, hsublist, hperm⟩
  · have hindex : heap.Denotes (.number (.infinite true)) (.infinite true) := .inl rfl
    have hposition : popPosition (heap.items 0).length (.infinite true) = 0 := by decide +kernel
    have hitem : (heap.items 0)[popPosition (heap.items 0).length (.infinite true)]? =
        some (.number (.infinite true)) := by
      rw [hposition]
      rfl
    have hpop := pop_single hindex rfl (by decide +kernel) hitem
    obtain ⟨raws, removed, hgives, -, hsublist, hperm, hle, hnone, hone, -⟩ :=
      (push_pop_conserve heap 0 (.number (.infinite true)) (by decide)).2 _ _ hpop
    have hraws : raws.length = 1 := hgives.length_eq
    rcases removed with _ | ⟨item, _ | ⟨second, rest⟩⟩
    · cases hnone rfl
    · cases hone item rfl
      exact ⟨_, hpop, hsublist, hperm⟩
    · rw [hraws] at hle
      simp at hle

/-- A list of one position counts as that position: the list of seven, pushed there, becomes an
element itself, and seven does not. -/
theorem push_at_list_of_one_not_spread :
    let heap : Heap := ⟨#[[.number 1], [.number 0], [.number 7]]⟩
    ∃ heap', push (.list 0) (.list 1) (.list 2) heap = .ok (.list 0) heap' ∧
      heap'.items 0 = [.list 2, .number 1] ∧
      ¬(heap'.items 0).Perm (heap.items 0 ++ heap.items 2) := by
  intro heap
  have hindex : heap.Denotes (.list 1) 0 := .inr ⟨1, rfl, rfl⟩
  have hposition : pushPosition (heap.items 0).length 0 = 0 := by decide +kernel
  have hother : Value.list 2 ≠ .list 0 := by simp
  have hpush := push_single hindex (by decide +kernel) hother
  have hitems : (heap.put 0 (insertAt (heap.items 0) (pushPosition (heap.items 0).length 0)
      (.list 2))).items 0 = [.list 2, .number 1] := by
    rw [Heap.items_put_self (by decide), hposition]
    rfl
  refine ⟨_, hpush, hitems, fun hperm => ?_⟩
  have hmem : Value.list 2 ∈ heap.items 0 ++ heap.items 2 := by
    rw [← hperm.mem_iff, hitems]
    exact List.mem_cons_self
  have hnot : Value.list 2 ∉ [Value.number 1, .number 7] := by simp
  exact hnot hmem

end HeapM

end ListScript
