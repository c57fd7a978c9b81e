import ListScript.Proofs.Value.Equality
import ListScript.Proofs.Value.Rendering
import ListScript.Value.Method
import ListScript.Value.Native
import ListScript.Value.Operator
import Mathlib.Logic.Embedding.Basic

/-!
# Lists under other identities

The same lists may be known under other identities, as long as different ones stay different: a
renaming is an embedding of identities. `Heap.Renamed` says that one heap is the other under a
renaming, and that lists still to be made in both will be under the same renaming, up to a given
number of lists. Nothing that a script finds out about values tells the two heaps apart: equality
(`Heap.Renamed.equal?`), trees and with them all texts (`Heap.Renamed.tree`), and the search for
parts of lists (`Heap.Renamed.replaceFirst`).
-/

namespace ListScript

namespace Value

/-- The value with another identity, if it is a list. -/
def rename (f : ListId ↪ ListId) : Value → Value
  | .list id => .list (f id)
  | value => value

variable (f : ListId ↪ ListId)

@[simp]
theorem rename_list (id : ListId) : (list id).rename f = .list (f id) := rfl

/-- A value that is no list has no identity. -/
theorem rename_flat {value : Value} (h : ∀ id, value ≠ .list id) : value.rename f = value := by
  cases value with
  | list id => exact absurd rfl (h id)
  | _ => rfl

/-- A renamed value is of the same kind. -/
@[simp]
theorem kind_rename (value : Value) : (value.rename f).kind = value.kind := by
  cases value <;> rfl

/-- A renamed value can be indexed if the value can. -/
@[simp]
theorem isIndexable_rename (value : Value) : (value.rename f).isIndexable = value.isIndexable := by
  cases value <;> rfl

/-- Numbers have no identity to rename. -/
@[simp]
theorem rename_eq_number_iff {value : Value} {x : Number} :
    value.rename f = .number x ↔ value = .number x := by
  cases value <;> simp [rename]

/-- Booleans have no identity to rename. -/
@[simp]
theorem rename_eq_boolean_iff {value : Value} {b : Bool} :
    value.rename f = .boolean b ↔ value = .boolean b := by
  cases value <;> simp [rename]

/-- Only lists are renamed to lists. -/
theorem exists_of_rename_eq_list {f : ListId ↪ ListId} {value : Value} {id : ListId}
    (h : value.rename f = .list id) : ∃ old, value = .list old ∧ f old = id := by
  cases value with
  | list old => exact ⟨old, rfl, Value.list.inj h⟩
  | _ => cases h

/-- Renaming changes only lists that it gives another identity. -/
theorem rename_eq_self_iff {value : Value} :
    value.rename f = value ↔ ∀ id, value = .list id → f id = id := by
  cases value with
  | list id => simp
  | _ => simp [rename]

end Value

/-- The second heap has the lists of the first under other identities. As long as there are fewer
than `cap` lists in the first, the next list has the identities that correspond. -/
structure Heap.Renamed (f : ListId ↪ ListId) (cap : Nat) (heap heap' : Heap) : Prop where
  items : ∀ id, heap'.items (f id) = (heap.items id).map (Value.rename f)
  known : ∀ id, f id < heap'.size ↔ id < heap.size
  next : ∀ id, heap.size ≤ id → id < cap → heap.size + f id = heap'.size + id

namespace Heap.Renamed

variable {f : ListId ↪ ListId} {cap : Nat} {heap heap' : Heap}

/-- The lists that come next correspond. -/
theorem next_size (h : Renamed f cap heap heap') (hcap : heap.size < cap) :
    f heap.size = heap'.size := by
  have hnext := h.next heap.size (Nat.le_refl _) hcap
  rw [Nat.add_comm heap'.size] at hnext
  exact Nat.add_left_cancel hnext

/-- Corresponding lists may be given corresponding elements. -/
theorem put (h : Renamed f cap heap heap') (id : ListId) (new : List Value) :
    Renamed f cap (heap.put id new) (heap'.put (f id) (new.map (Value.rename f))) where
  items other := by
    simp only [items_put, f.injective.eq_iff, h.known]
    split
    · rfl
    · exact h.items other
  known other := by simpa [Heap.put, Heap.size] using h.known other
  next other := by simpa [Heap.put, Heap.size] using h.next other

/-- Corresponding lists may be made. -/
theorem alloc (h : Renamed f cap heap heap') (hcap : heap.size < cap) (new : List Value) :
    Renamed f cap (heap.alloc new).2 (heap'.alloc (new.map (Value.rename f))).2 := by
  have hsize (heap : Heap) (new : List Value) : (heap.alloc new).2.size = heap.size + 1 := by
    simp [Heap.alloc, Heap.size]
  have hid (id : ListId) : f id = heap'.size ↔ id = heap.size := by
    rw [← h.next_size hcap, f.injective.eq_iff]
  refine ⟨fun id => ?_, fun id => ?_, fun id hle hlt => ?_⟩
  · simp only [items_alloc, hid]
    split
    · rfl
    · exact h.items id
  · rw [hsize, hsize, Nat.lt_succ_iff_lt_or_eq, Nat.lt_succ_iff_lt_or_eq, h.known, hid]
  · rw [hsize] at hle ⊢
    rw [hsize]
    have hnext := h.next id (Nat.le_of_succ_le hle) hlt
    omega

/-! ## What can be found out about values -/

/-- Comparison finds the same. -/
theorem equalWithin (h : Renamed f cap heap heap') (path : List (ListId × ListId)) (x y : Value) :
    heap'.equalWithin (path.map (Prod.map f f)) (x.rename f) (y.rename f) =
      heap.equalWithin path x y := by
  induction path, x, y using heap.path_induction with
  | flat path x y hflat =>
      cases x with
      | list i =>
          cases y with
          | list j => exact absurd rfl (hflat i j rfl)
          | _ => simp only [Value.rename, Heap.equalWithin]
      | _ => cases y <;> simp only [Value.rename, Heap.equalWithin]
  | lists path i j ih =>
      have hpath : (f i, f j) ∈ path.map (Prod.map f f) ↔ (i, j) ∈ path :=
        List.mem_map_of_injective (f.injective.prodMap f.injective) (a := (i, j))
      simp only [Value.rename_list, equalWithin_list, h.items, List.length_map,
        f.injective.eq_iff, hpath]
      by_cases hmet : (i, j) ∈ path
      · simp only [hmet, or_true, if_true]
      · have hall : (((heap.items i).map (Value.rename f)).zip
            ((heap.items j).map (Value.rename f))).all (fun pair =>
              (heap'.equalWithin ((f i, f j) :: path.map (Prod.map f f)) pair.1 pair.2).getD
                false) =
            ((heap.items i).zip (heap.items j)).all fun pair =>
              (heap.equalWithin ((i, j) :: path) pair.1 pair.2).getD false := by
          rw [List.zip_map, List.all_map, Bool.eq_iff_iff, List.all_eq_true, List.all_eq_true]
          refine forall₂_congr fun pair hpair => ?_
          rw [← ih hmet pair.1 pair.2 hpair]
          rfl
        rw [hall]

/-- Renamed values are equal if the values are. -/
theorem equal? (h : Renamed f cap heap heap') (x y : Value) :
    heap'.equal? (x.rename f) (y.rename f) = heap.equal? x y :=
  h.equalWithin [] x y

/-- A value has the same tree. -/
theorem treeWithin (h : Renamed f cap heap heap') (path : List ListId) (value : Value) :
    heap'.treeWithin (path.map f) (value.rename f) = heap.treeWithin path value := by
  fun_induction Heap.treeWithin heap path value with
  | case1 path id hmem =>
      rw [Value.rename_list, treeWithin_list,
        if_pos ((List.mem_map_of_injective f.injective).2 hmem)]
  | case2 path id hmem hsize ih =>
      rw [Value.rename_list, treeWithin_list,
        if_neg (mt (List.mem_map_of_injective f.injective).1 hmem), h.items, List.map_map]
      congr 1
      exact List.map_congr_left fun item _ => ih item
  | case3 path id hmem hsize =>
      rw [Value.rename_list, treeWithin_list,
        if_neg (mt (List.mem_map_of_injective f.injective).1 hmem), h.items,
        items_of_size_le (Nat.le_of_not_lt hsize)]
      rfl
  | case4 path value hflat =>
      rw [Value.rename_flat f hflat, treeWithin_flat _ _ hflat]

/-- Renamed values have the same contents. -/
theorem tree (h : Renamed f cap heap heap') (value : Value) :
    heap'.tree (value.rename f) = heap.tree value :=
  h.treeWithin [] value

/-- A value prints as the same text. -/
theorem print (h : Renamed f cap heap heap') (value : Value) :
    (value.rename f).print heap' = value.print heap := by
  rw [Value.print, h.tree, ← Value.print]

/-- A value spells the same text. -/
theorem text (h : Renamed f cap heap heap') (value : Value) :
    (value.rename f).text heap' = value.text heap := by
  rw [Value.text, h.tree, ← Value.text]

/-- Renamed values have the same length. -/
theorem length? (h : Renamed f cap heap heap') (value : Value) :
    (value.rename f).length? heap' = value.length? heap := by
  cases value with
  | list id => simp [Value.length?, h.items]
  | _ => rfl

/-- Renamed values have the renamed elements. -/
theorem elements? (h : Renamed f cap heap heap') (value : Value) :
    (value.rename f).elements? heap' = (value.elements? heap).map (List.map (Value.rename f)) := by
  cases value with
  | list id => simp [Value.elements?, h.items]
  | _ => rfl

/-- Renamed values stand for the renamed items. -/
theorem asItems (h : Renamed f cap heap heap') (value : Value) :
    Method.asItems heap' (value.rename f) = (Method.asItems heap value).map (Value.rename f) := by
  cases value with
  | list id => exact h.items id
  | _ => rfl

/-- Parts occur at the same positions. -/
theorem occurrence? (h : Renamed f cap heap heap') (search items : List Value) :
    Method.occurrence? heap' (search.map (Value.rename f)) (items.map (Value.rename f)) =
      Method.occurrence? heap search items := by
  have hfront (items : List Value) :
      Method.matchesFront heap' (search.map (Value.rename f)) (items.map (Value.rename f)) =
        Method.matchesFront heap search items := by
    rw [Method.matchesFront, List.zip_map, List.all_map]
    refine List.all_congr rfl fun pair => ?_
    exact congrArg (· == some true) (h.equal? pair.1 pair.2)
  simp only [Method.occurrence?, List.length_map, ← List.map_drop, hfront]

/-- Replacing the first occurrence of a part does the same. -/
theorem replaceFirst (h : Renamed f cap heap heap') (items search replacement : List Value) :
    Method.replaceFirst heap' (items.map (Value.rename f)) (search.map (Value.rename f))
        (replacement.map (Value.rename f)) =
      (Method.replaceFirst heap items search replacement).map (Value.rename f) := by
  rw [Method.replaceFirst, h.occurrence?, Method.replaceFirst]
  cases Method.occurrence? heap search items with
  | none => rfl
  | some start => simp [List.map_take, List.map_drop]

/-- An operator that makes no list has the same value. -/
theorem pureValue? (h : Renamed f cap heap heap') (operator : Binary) (lhs rhs : Value) :
    operator.pureValue? heap' (lhs.rename f) (rhs.rename f) =
      (operator.pureValue? heap lhs rhs).map (Value.rename f) := by
  fun_cases Binary.pureValue? heap operator lhs rhs with
  | case1 =>
      rw [Binary.pureValue?, h.equal?]
      cases heap.equal? lhs rhs <;> rfl
  | case2 operator hequal x y =>
      cases operator with
      | equal => exact absurd rfl hequal
      | _ => rfl
  | case3 operator hequal x y =>
      cases operator with
      | equal => exact absurd rfl hequal
      | _ => rfl
  | case4 operator lhs rhs hequal hnumbers hbooleans =>
      unfold Binary.pureValue?
      split
      · exact absurd rfl hequal
      · split
        · next hlhs hrhs =>
          rw [Value.rename_eq_number_iff] at hlhs hrhs
          exact absurd hrhs (hnumbers _ _ hlhs)
        · next hlhs hrhs =>
          rw [Value.rename_eq_boolean_iff] at hlhs hrhs
          exact absurd hrhs (hbooleans _ _ hlhs)
        · rfl

/-- A function of the host yields the same and writes the same line. -/
theorem callNative (h : Renamed f cap heap heap') (native : Native) (now : Clock)
    (arguments : List Value) :
    native.call now heap' (arguments.map (Value.rename f)) =
      (native.call now heap arguments).map (Prod.map (Value.rename f) id) := by
  cases native with
  | print =>
      have hline : Native.line heap' (arguments.map (Value.rename f)) =
          Native.line heap arguments := by
        rw [Native.line, List.map_map]
        exact congrArg _ (List.map_congr_left fun value _ => h.print value)
      rw [Native.call, hline]
      rfl
  | clock => rfl
  | len =>
      cases arguments with
      | nil => rfl
      | cons value rest =>
          simp only [Native.call, List.map_cons, h.length?, Value.kind_rename]
          cases value.length? heap <;> rfl

end Heap.Renamed

section

variable (f : ListId ↪ ListId)

/-- Settling a renamed value yields the renamed one. -/
theorem Value.settle_rename (value : Value) :
    (value.rename f).settle = value.settle.map (Value.rename f) := by
  cases value <;> rfl

/-- A step from a renamed value leads to the renamed one. -/
theorem Step.apply_rename (step : Step) (value : Value) :
    step.apply (value.rename f) = (step.apply value).map (Value.rename f) := by
  cases value with
  | number x => cases step <;> rfl
  | _ => rfl

/-- Renamed values have the same methods. -/
theorem Method.find_rename (receiver : Value) (name : String) :
    Method.find (receiver.rename f) name = Method.find receiver name := by
  cases receiver <;> rfl

end

end ListScript
