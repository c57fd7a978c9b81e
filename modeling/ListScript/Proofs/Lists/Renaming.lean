import ListScript.Lists.Range
import ListScript.Lists.Transfer
import ListScript.Proofs.Lists.Agreement
import ListScript.Proofs.Lists.Contents
import ListScript.Proofs.Value.Renaming
import Mathlib.Data.List.InsertIdx

/-!
# Operations on lists under other identities

What an operation does to lists, it does to the same lists under other identities too, and what it
yields is then the same under these identities, or the same failure. `HeapM.Mirrors` says so of two
operations, with one lemma for each operation. The new identities have to be right for the lists
that an operation makes; that is known up to a number of lists, so the lemmas are about runs that
end with no more lists than that.
-/

namespace ListScript

/-! ## Computations that do the same -/

section

variable {ε σ α β : Type}

/-- The state that a result leaves. -/
def stateOf : EStateM.Result ε σ α → σ
  | .ok _ state => state
  | .error _ state => state

/-- Both results are the same failure, or values that correspond, and the states that they leave are
related. -/
inductive Corresponds (related : σ → σ → Prop) (act : α → α) :
    EStateM.Result ε σ α → EStateM.Result ε σ α → Prop where
  | ok {a : α} {s s' : σ} (h : related s s') : Corresponds related act (.ok a s) (.ok (act a) s')
  | error {e : ε} {s s' : σ} (h : related s s') :
      Corresponds related act (.error e s) (.error e s')

/-- Go on from what a computation yields, or from how it fails. -/
def handle (x : EStateM ε σ α) (onOk : α → EStateM ε σ β) (onError : ε → EStateM ε σ β) :
    EStateM ε σ β := fun s =>
  match x s with
  | .ok a t => onOk a t
  | .error e t => onError e t

/-- The first computation never makes its state smaller. From related states both computations come
to results that correspond, if the first state stays within the cap. -/
structure Mirrors (size : σ → Nat) (cap : Nat) (related : σ → σ → Prop) (act : α → α)
    (x y : EStateM ε σ α) : Prop where
  grows : ∀ s, size s ≤ size (stateOf (x s))
  agrees : ∀ {s s'}, related s s' → size (stateOf (x s)) ≤ cap →
    Corresponds related act (x s) (y s')

namespace Mirrors

variable {size : σ → Nat} {cap : Nat} {related : σ → σ → Prop} {act : α → α} {act' : β → β}

/-- Where the first computation yields a value, the second yields the corresponding one. -/
theorem exists_ok {x y : EStateM ε σ α} (h : Mirrors size cap related act x y) {s s' t : σ} {a : α}
    (hs : related s s') (hrun : x s = .ok a t) (hcap : size t ≤ cap) :
    ∃ t', y s' = .ok (act a) t' ∧ related t t' := by
  have hagrees := h.agrees hs (by rwa [hrun])
  rw [hrun] at hagrees
  generalize y s' = result at hagrees ⊢
  cases hagrees with
  | ok ht => exact ⟨_, rfl, ht⟩

/-- Where the first computation fails, the second fails in the same way. -/
theorem exists_error {x y : EStateM ε σ α} (h : Mirrors size cap related act x y) {s s' t : σ}
    {e : ε} (hs : related s s') (hrun : x s = .error e t) (hcap : size t ≤ cap) :
    ∃ t', y s' = .error e t' ∧ related t t' := by
  have hagrees := h.agrees hs (by rwa [hrun])
  rw [hrun] at hagrees
  generalize y s' = result at hagrees ⊢
  cases hagrees with
  | error ht => exact ⟨_, rfl, ht⟩

/-- Yielding something mirrors yielding what it is renamed to. -/
theorem pure (a : α) :
    Mirrors size cap related act (Pure.pure a : EStateM ε σ α) (Pure.pure (act a)) where
  grows _ := Nat.le_refl _
  agrees h _ := .ok h

/-- Failing mirrors failing in the same way. -/
theorem throw (e : ε) :
    Mirrors size cap related act (throw e : EStateM ε σ α) (throw e) where
  grows _ := Nat.le_refl _
  agrees h _ := .error h

/-- A failure ends a sequence. -/
theorem throw_bind (e : ε) (g g' : α → EStateM ε σ β) :
    Mirrors size cap related act' (MonadExcept.throw e >>= g) (MonadExcept.throw e >>= g') where
  grows _ := Nat.le_refl _
  agrees h _ := .error h

/-- A value that comes with a change of the state. -/
theorem ok_change {change change' : σ → σ} (hsize : ∀ s, size s ≤ size (change s))
    (h : ∀ s s', related s s' → related (change s) (change' s')) (a : α) :
    Mirrors size cap related act (fun s => (.ok a (change s) : EStateM.Result ε σ α))
      (fun s => .ok (act a) (change' s)) where
  grows := hsize
  agrees hs _ := .ok (h _ _ hs)

/-- A failure that comes with a change of the state. -/
theorem error_change {change change' : σ → σ} (hsize : ∀ s, size s ≤ size (change s))
    (h : ∀ s s', related s s' → related (change s) (change' s')) (e : ε) :
    Mirrors size cap related act (fun s => (.error e (change s) : EStateM.Result ε σ α))
      (fun s => .error e (change' s)) where
  grows := hsize
  agrees hs _ := .error (h _ _ hs)

/-- Whatever comes first, what comes next does the same if it does so after the same. -/
theorem handle {x y : EStateM ε σ α} {onOk onOk' : α → EStateM ε σ β}
    {onError onError' : ε → EStateM ε σ β} (hx : Mirrors size cap related act x y)
    (hok : ∀ a, Mirrors size cap related act' (onOk a) (onOk' (act a)))
    (herror : ∀ e, Mirrors size cap related act' (onError e) (onError' e)) :
    Mirrors size cap related act' (handle x onOk onError) (handle y onOk' onError') where
  grows s := by
    have hfirst := hx.grows s
    unfold ListScript.handle
    cases hrun : x s with
    | ok a t =>
        rw [hrun] at hfirst
        exact Nat.le_trans hfirst ((hok a).grows t)
    | error e t =>
        rw [hrun] at hfirst
        exact Nat.le_trans hfirst ((herror e).grows t)
  agrees {s s'} h hcap := by
    unfold ListScript.handle at hcap ⊢
    -- what comes next makes the state no smaller, so the state is within the cap before it
    cases hrun : x s with
    | ok a t =>
        rw [hrun] at hcap
        obtain ⟨t', hrun', ht⟩ := hx.exists_ok h hrun (Nat.le_trans ((hok a).grows t) hcap)
        rw [hrun']
        exact (hok a).agrees ht hcap
    | error e t =>
        rw [hrun] at hcap
        obtain ⟨t', hrun', ht⟩ := hx.exists_error h hrun (Nat.le_trans ((herror e).grows t) hcap)
        rw [hrun']
        exact (herror e).agrees ht hcap

/-- Sequences mirror each other if their parts do. -/
theorem bind {x y : EStateM ε σ α} {g g' : α → EStateM ε σ β}
    (hx : Mirrors size cap related act x y)
    (hg : ∀ a, Mirrors size cap related act' (g a) (g' (act a))) :
    Mirrors size cap related act' (x >>= g) (y >>= g') :=
  hx.handle hg .throw

end Mirrors

end

/-! ## Elements -/

section

variable (f : ListId ↪ ListId)

/-- Whether a value is a position does not depend on the names of lists. -/
theorem Positions.number_rename (length : Nat) (value : Value) :
    Positions.number length (value.rename f) = Positions.number length value := by
  cases value <;> rfl

/-- The element of renamed elements is the renamed element. -/
theorem elementAt_rename (items : List Value) (raw : Number) :
    elementAt (items.map (Value.rename f)) raw = (elementAt items raw).map (Value.rename f) := by
  simp only [elementAt, List.length_map, List.getElem?_map]
  split
  · rfl
  · cases items[(fromFront raw.nearestPosition items.length).toNat]? <;> rfl

/-- Several elements of renamed elements are the renamed elements. -/
theorem mapM_elementAt_rename (items : List Value) (raws : List Number) :
    raws.mapM (elementAt (items.map (Value.rename f))) =
      (raws.mapM (elementAt items)).map (List.map (Value.rename f)) := by
  induction raws with
  | nil => rfl
  | cons raw raws ih =>
      rw [List.mapM_cons, List.mapM_cons, ih, elementAt_rename]
      cases elementAt items raw with
      | error fault => rfl
      | ok item => cases raws.mapM (elementAt items) <;> rfl

/-- Writing an element commutes with renaming. -/
theorem setOrAppend_rename (items : List Value) (position : Nat) (value : Value) :
    setOrAppend (items.map (Value.rename f)) position (value.rename f) =
      (setOrAppend items position value).map (Value.rename f) := by
  rw [setOrAppend, setOrAppend, List.length_map]
  split
  · rw [List.map_set]
  · rw [List.map_append, List.map_singleton]

/-- Inserting an element commutes with renaming. -/
theorem insertAt_rename (items : List Value) (position : Nat) (value : Value) :
    insertAt (items.map (Value.rename f)) position (value.rename f) =
      (insertAt items position value).map (Value.rename f) := by
  rw [insertAt, insertAt, List.length_map, List.map_insertIdx]

/-- Changing elements one after the other is the same under other identities if one change is. -/
theorem foldl_rename {change : List Value → Nat → Value → List Value}
    (h : ∀ items position value, change (items.map (Value.rename f)) position (value.rename f) =
      (change items position value).map (Value.rename f))
    (items : List Value) (changes : List (Nat × Value)) :
    (changes.map (Prod.map id (Value.rename f))).foldl (fun items entry =>
        change items entry.1 entry.2) (items.map (Value.rename f)) =
      (changes.foldl (fun items entry => change items entry.1 entry.2) items).map
        (Value.rename f) := by
  induction changes generalizing items with
  | nil => rfl
  | cons entry changes ih =>
      rw [List.map_cons, List.foldl_cons, List.foldl_cons, ← ih]
      congr 1
      exact h items entry.1 entry.2

/-- Writing several elements commutes with renaming. -/
theorem writeAll_rename (items : List Value) (positions : List Nat) (values : List Value) :
    writeAll (items.map (Value.rename f)) (positions.zip (values.map (Value.rename f))) =
      (writeAll items (positions.zip values)).map (Value.rename f) := by
  rw [List.zip_map_right]
  exact foldl_rename f (setOrAppend_rename f) items (positions.zip values)

/-- Inserting several elements commutes with renaming. -/
theorem insertAll_rename (items : List Value) (inserts : List (Nat × Value)) :
    insertAll (items.map (Value.rename f)) (inserts.map (Prod.map id (Value.rename f))) =
      (insertAll items inserts).map (Value.rename f) :=
  foldl_rename f (insertAt_rename f) items inserts

/-- Turning a list around commutes with renaming. -/
theorem rotate_rename (items : List Value) (count : Nat) :
    rotate (items.map (Value.rename f)) count = (rotate items count).map (Value.rename f) := by
  simp only [rotate, List.length_map, List.map_append, List.map_drop, List.map_take]

/-- Taking out elements commutes with renaming, of what is left and of what is taken. -/
theorem removeAll_rename (items : List Value) (raws : List Number) :
    removeAll (items.map (Value.rename f)) raws =
      Prod.map (List.map (Value.rename f)) (List.map (Value.rename f)) (removeAll items raws) := by
  induction raws generalizing items with
  | nil => rfl
  | cons raw raws ih =>
      simp only [removeAll, List.length_map, List.getElem?_map]
      cases items[popPosition items.length raw]? with
      | none => exact ih items
      | some item =>
          have herase : (items.map (Value.rename f)).eraseIdx (popPosition items.length raw) =
              (items.eraseIdx (popPosition items.length raw)).map (Value.rename f) := by
            simp [List.eraseIdx_eq_take_drop_succ]
          simp only [Option.map_some, herase, ih]
          rfl

end

/-! ## Operations -/

namespace HeapM

variable {α β : Type} {f : ListId ↪ ListId} {cap : Nat}

/-- What the first operation does, the second does under other identities. -/
def Mirrors (f : ListId ↪ ListId) (cap : Nat) (act : α → α) (x y : HeapM α) : Prop :=
  ListScript.Mirrors Heap.size cap (Heap.Renamed f cap) act x y

/-- An operation that only looks at the heap does the same on corresponding heaps if it finds out
the same there. -/
theorem mirrors_inspect {act : α → α} {x y : Heap → Except Fault α}
    (h : ∀ heap heap', Heap.Renamed f cap heap heap' → y heap' = (x heap).map act) :
    Mirrors f cap act (fun heap => ofExcept (x heap) heap)
      (fun heap => ofExcept (y heap) heap) where
  grows heap := by
    cases hx : x heap with
    | ok a => simp [ofExcept, stateOf, pure, EStateM.pure]
    | error fault => exact Nat.le_refl _
  agrees {heap heap'} hheap _ := by
    rw [h heap heap' hheap]
    cases x heap with
    | ok a => exact .ok hheap
    | error fault => exact .error hheap

/-- A result that does not depend on the heap mirrors the renamed one. -/
theorem mirrors_ofExcept {act : α → α} (result : Except Fault α) :
    Mirrors f cap act (ofExcept result) (ofExcept (result.map act)) :=
  mirrors_inspect fun _ _ _ => rfl

/-- Reading a list mirrors reading the renamed one. -/
theorem mirrors_items (list : ListId) :
    Mirrors f cap (List.map (Value.rename f)) (items list) (items (f list)) :=
  mirrors_inspect (x := fun heap => .ok (heap.items list))
    (y := fun heap => .ok (heap.items (f list))) fun _ _ h => congrArg Except.ok (h.items list)

/-- Changing a list mirrors changing the renamed one. -/
theorem mirrors_put (list : ListId) (new : List Value) :
    Mirrors f cap id (put list new) (put (f list) (new.map (Value.rename f))) where
  grows heap := Nat.le_of_eq (heap.size_put list new).symm
  agrees h _ := .ok (h.put list new)

/-- Making a list mirrors making one of the renamed elements. -/
theorem mirrors_newList (new : List Value) :
    Mirrors f cap (Value.rename f) (newList new) (newList (new.map (Value.rename f))) where
  grows heap := by simp [newList, stateOf, Heap.alloc, Heap.size]
  agrees {heap heap'} h hcap := by
    have hsize : heap.size < cap := by
      simpa [newList, stateOf, Heap.alloc, Heap.size, Nat.succ_le_iff] using hcap
    have hid : Value.list heap'.size = (Value.list heap.size).rename f := by
      rw [Value.rename_list, h.next_size hsize]
    show Corresponds _ _ (.ok (Value.list heap.size) _) (.ok (Value.list heap'.size) _)
    rw [hid]
    exact .ok (h.alloc hsize new)

/-- A new list of values that are no lists is the same under other identities. -/
theorem mirrors_newList_flat {new : List Value} (hflat : ∀ value ∈ new, value.rename f = value) :
    Mirrors f cap (Value.rename f) (newList new) (newList new) := by
  have hnew : new.map (Value.rename f) = new :=
    (List.map_congr_left hflat).trans (List.map_id' new)
  have hmirrors : Mirrors f cap _ _ _ := mirrors_newList new
  rwa [hnew] at hmirrors

/-- Making a list of characters mirrors itself. -/
theorem mirrors_newText (text : String) :
    Mirrors f cap (Value.rename f) (newText text) (newText text) := by
  refine mirrors_newList_flat fun value hvalue => ?_
  obtain ⟨c, -, rfl⟩ := List.mem_map.1 hvalue
  rfl

/-- Copying a value mirrors copying the renamed one. -/
theorem mirrors_copy (value : Value) :
    Mirrors f cap (Value.rename f) (copy value) (copy (value.rename f)) := by
  cases value with
  | list source => exact (mirrors_items source).bind mirrors_newList
  | _ => exact .pure _

/-- Asking for a list mirrors asking for the renamed one. -/
theorem mirrors_expectList (target : Value) :
    Mirrors f cap f (expectList target) (expectList (target.rename f)) := by
  cases target with
  | list target => exact .pure _
  | _ => exact .throw _

/-- Renamed values give the same positions. -/
theorem mirrors_positions (length : Nat) (index : Value) :
    Mirrors f cap id (positions length index) (positions length (index.rename f)) := by
  refine mirrors_inspect fun heap heap' h => ?_
  rw [Except.map_id]
  cases index with
  | list index =>
      have hnumber : Positions.number length ∘ Value.rename f = Positions.number length :=
        funext fun value => Positions.number_rename f length value
      simp only [Value.rename_list, Positions.of, h.items, List.mapM_map, hnumber]
      rfl
  | _ => rfl

/-- Reading at positions mirrors reading there with renamed values. -/
theorem mirrors_readIndex (target index : Value) :
    Mirrors f cap (Value.rename f) (readIndex target index)
      (readIndex (target.rename f) (index.rename f)) := by
  refine (mirrors_expectList target).bind fun list => (mirrors_items list).bind fun items => ?_
  rw [List.length_map]
  refine (mirrors_positions items.length index).bind fun positions => ?_
  cases positions with
  | single raw =>
      dsimp only [id]
      rw [elementAt_rename]
      exact mirrors_ofExcept _
  | several raws =>
      dsimp only [id]
      rw [mapM_elementAt_rename]
      exact (mirrors_ofExcept _).bind mirrors_newList

/-- Writing at positions mirrors writing there with renamed values. -/
theorem mirrors_writeIndex (target index value : Value) :
    Mirrors f cap (Value.rename f) (writeIndex target index value)
      (writeIndex (target.rename f) (index.rename f) (value.rename f)) := by
  refine (mirrors_expectList target).bind fun list => (mirrors_items list).bind fun old => ?_
  rw [List.length_map]
  have hput (new : List Value) : Mirrors f cap (Value.rename f) (do put list new; return value)
      (do put (f list) (new.map (Value.rename f)); return value.rename f) :=
    (mirrors_put list new).bind fun _ => .pure value
  refine (mirrors_positions old.length index).bind fun positions => ?_
  cases positions with
  | single raw =>
      dsimp only [id]
      rw [setOrAppend_rename]
      exact hput _
  | several raws =>
      dsimp only [id]
      cases raws with
      | nil => exact .pure value
      | cons raw raws =>
          cases value with
          | list source =>
              refine (mirrors_items source).bind fun new => ?_
              rw [List.length_map, writeAll_rename]
              split
              · exact .throw_bind _ _ _
              · exact hput _
          | _ => exact .throw_bind _ _ _

/-- A sign before a value mirrors it before the renamed one. -/
theorem mirrors_unary (operator : Unary) (operand : Value) :
    Mirrors f cap (Value.rename f) (unary operator operand)
      (unary operator (operand.rename f)) := by
  cases operator with
  | copy => exact mirrors_copy operand
  | negate =>
      cases operand with
      | number x => exact .pure _
      | _ => exact .throw _
  | not =>
      cases operand with
      | boolean b => exact .pure _
      | _ => exact .throw _

/-- An operator that makes no new list only looks at the heap. -/
theorem binary_eq_inspect {operator : Binary} {lhs rhs : Value}
    (h : ∀ a b, operator = .add → lhs = .list a → rhs ≠ .list b) :
    binary operator lhs rhs = fun heap => ofExcept ((operator.pureValue? heap lhs rhs).elim
      (.error (.unsupportedBinary operator lhs.kind rhs.kind)) .ok) heap := by
  fun_cases binary operator lhs rhs with
  | case1 a b => exact absurd rfl (h a b rfl rfl)
  | case2 =>
      funext heap
      cases operator.pureValue? heap lhs rhs <;> rfl

/-- An operation mirrors the one on renamed values. -/
theorem mirrors_binary (operator : Binary) (lhs rhs : Value) :
    Mirrors f cap (Value.rename f) (binary operator lhs rhs)
      (binary operator (lhs.rename f) (rhs.rename f)) := by
  by_cases hlists : ∃ a b, operator = .add ∧ lhs = .list a ∧ rhs = .list b
  · obtain ⟨a, b, rfl, rfl, rfl⟩ := hlists
    refine (mirrors_items a).bind fun xs => (mirrors_items b).bind fun ys => ?_
    rw [← List.map_append]
    exact mirrors_newList (xs ++ ys)
  · have hlhs (a b : ListId) (hop : operator = .add) (ha : lhs = .list a) : rhs ≠ .list b :=
      fun hb => hlists ⟨a, b, hop, ha, hb⟩
    have hrenamed (a b : ListId) (hop : operator = .add) (ha : lhs.rename f = .list a) :
        rhs.rename f ≠ .list b := by
      intro hb
      obtain ⟨i, hi, -⟩ := Value.exists_of_rename_eq_list ha
      obtain ⟨j, hj, -⟩ := Value.exists_of_rename_eq_list hb
      exact hlhs i j hop hi hj
    rw [binary_eq_inspect hlhs, binary_eq_inspect hrenamed]
    refine mirrors_inspect fun heap heap' h => ?_
    rw [h.pureValue?, Value.kind_rename, Value.kind_rename]
    cases operator.pureValue? heap lhs rhs <;> rfl

/-- Bounds and step of a range have to be numbers. -/
theorem range_eq_throw {first last step : Value}
    (h : ∀ a b s, first = .number a → last = .number b → step ≠ .number s) (inclusive : Bool) :
    range first last step inclusive =
      throw (.nonNumericRange first.kind last.kind step.kind) := by
  unfold range
  split
  · exact absurd rfl (h _ _ _ rfl rfl)
  · rfl

/-- A range mirrors the one between renamed values. -/
theorem mirrors_range (first last step : Value) (inclusive : Bool) :
    Mirrors f cap (Value.rename f) (range first last step inclusive)
      (range (first.rename f) (last.rename f) (step.rename f) inclusive) := by
  by_cases hnumbers : ∃ a b s, first = .number a ∧ last = .number b ∧ step = .number s
  · obtain ⟨a, b, s, rfl, rfl, rfl⟩ := hnumbers
    show Mirrors f cap _ (range (.number a) (.number b) (.number s) inclusive)
      (range (.number a) (.number b) (.number s) inclusive)
    unfold range
    dsimp only
    cases rangeNumbers a b s inclusive with
    | none => exact .throw _
    | some numbers =>
        refine mirrors_newList_flat fun value hvalue => ?_
        obtain ⟨x, -, rfl⟩ := List.mem_map.1 hvalue
        rfl
  · have hfirst (a b s : Number) (ha : first = .number a) (hb : last = .number b) :
        step ≠ .number s :=
      fun hs => hnumbers ⟨a, b, s, ha, hb, hs⟩
    rw [range_eq_throw hfirst, range_eq_throw (by simpa using hfirst), Value.kind_rename,
      Value.kind_rename, Value.kind_rename]
    exact .throw _

/-- Finding the list to push into mirrors finding the renamed one. -/
theorem mirrors_asList (target : Value) :
    Mirrors f cap f (asList target) (asList (target.rename f)) := by
  have hnew : Mirrors f cap f (fun heap => .ok heap.size (heap.alloc [target]).2)
      (fun heap => .ok heap.size (heap.alloc [target.rename f]).2) := by
    refine ⟨fun heap => by simp [stateOf, Heap.alloc, Heap.size], fun {heap heap'} h hcap => ?_⟩
    have hsize : heap.size < cap := by
      simpa [stateOf, Heap.alloc, Heap.size, Nat.succ_le_iff] using hcap
    show Corresponds _ _ (.ok heap.size _) (.ok heap'.size _)
    rw [← h.next_size hsize]
    exact .ok (h.alloc hsize [target])
  cases target with
  | list target => exact .pure _
  | _ => exact hnew

/-- Pushing mirrors pushing with renamed values. -/
theorem mirrors_push (target index value : Value) :
    Mirrors f cap (Value.rename f) (push target index value)
      (push (target.rename f) (index.rename f) (value.rename f)) := by
  refine (mirrors_asList target).bind fun list => (mirrors_items list).bind fun old => ?_
  rw [List.length_map]
  have hput (new : List Value) :
      Mirrors f cap (Value.rename f) (do put list new; return Value.list list)
        (do put (f list) (new.map (Value.rename f)); return Value.list (f list)) :=
    (mirrors_put list new).bind fun _ => .pure (Value.list list)
  refine (mirrors_positions old.length index).bind fun positions => ?_
  cases positions with
  | single raw =>
      have hinsert := hput (insertAt old (pushPosition old.length raw) value)
      rw [← insertAt_rename] at hinsert
      cases value with
      | list source =>
          simp only [id, Value.rename_list, f.injective.eq_iff]
          split
          · rw [rotate_rename]
            exact hput _
          · exact hinsert
      | _ => exact hinsert
  | several raws =>
      have hinsert := hput (insertAll old
        (raws.map fun raw => (pushPosition old.length raw, value)))
      rw [← insertAll_rename, List.map_map] at hinsert
      cases value with
      | list source =>
          refine (mirrors_items source).bind fun new => ?_
          rw [List.length_map, List.zip_map_right, insertAll_rename]
          split
          · exact .throw_bind _ _ _
          · exact hput _
      | _ => exact hinsert

/-- What a pop yields mirrors what it yields of renamed elements. -/
theorem mirrors_popped (removed : List Value) :
    Mirrors f cap (Value.rename f) (popped removed) (popped (removed.map (Value.rename f))) := by
  cases removed with
  | nil => exact .pure _
  | cons first rest =>
      cases rest with
      | nil => exact .pure _
      | cons second rest => exact mirrors_newList (first :: second :: rest)

/-- Popping mirrors popping with renamed values. -/
theorem mirrors_pop (target index : Value) :
    Mirrors f cap (Value.rename f) (pop target index)
      (pop (target.rename f) (index.rename f)) := by
  cases target with
  | list list =>
      refine (mirrors_items list).bind fun old => ?_
      rw [List.length_map]
      refine (mirrors_positions old.length index).bind fun positions => ?_
      dsimp only [id]
      split
      · exact .throw _
      · rw [removeAll_rename]
        exact (mirrors_put list _).bind fun _ => mirrors_popped _
  | _ => exact .pure _

end HeapM

namespace Method

variable {f : ListId ↪ ListId} {cap : Nat}

/-- A wrong number of arguments mirrors the same number of renamed ones. -/
theorem mirrors_wrongCount (arguments : List Value) (expected : Nat) :
    HeapM.Mirrors f cap (Value.rename f) (wrongCount arguments expected)
      (wrongCount (arguments.map (Value.rename f)) expected) := by
  rw [wrongCount, wrongCount, List.length_map]
  exact .throw _

/-- A method that yields a number or fails mirrors itself. -/
theorem mirrors_number (result : Except Fault Number) :
    HeapM.Mirrors f cap (Value.rename f) (Value.number <$> HeapM.ofExcept result)
      (Value.number <$> HeapM.ofExcept result) := by
  have hresult : HeapM.Mirrors f cap id (HeapM.ofExcept result) (HeapM.ofExcept result) := by
    have hmap : HeapM.Mirrors f cap id _ _ := HeapM.mirrors_ofExcept result
    rwa [Except.map_id] at hmap
  rw [map_eq_pure_bind]
  exact hresult.bind fun x => .pure (Value.number x)

/-- The text of a value mirrors that of the renamed one. -/
theorem mirrors_toText (receiver : Value) :
    HeapM.Mirrors f cap (Value.rename f) (call .toText receiver [])
      (call .toText (receiver.rename f) []) := by
  have hcall (receiver : Value) : call .toText receiver [] =
      fun heap => (HeapM.ofExcept (receiver.text heap) >>= HeapM.newText) heap := by
    delta call
    dsimp only
    funext heap
    cases receiver.text heap <;> rfl
  have htext : HeapM.Mirrors f cap id (fun heap => HeapM.ofExcept (receiver.text heap) heap)
      (fun heap => HeapM.ofExcept ((receiver.rename f).text heap) heap) :=
    HeapM.mirrors_inspect fun heap heap' h => by rw [h.text, Except.map_id]; rfl
  rw [hcall, hcall]
  exact htext.bind HeapM.mirrors_newText

/-- Replacing values in a list mirrors replacing renamed ones in the renamed list. -/
theorem mirrors_replace (list : ListId) (search replacement : Value) :
    HeapM.Mirrors f cap (Value.rename f) (call .replace (.list list) [search, replacement])
      (call .replace (.list (f list)) [search.rename f, replacement.rename f]) := by
  have hitems : HeapM.Mirrors f cap (List.map (Value.rename f))
      (fun heap => HeapM.ofExcept (.ok (replaceFirst heap (heap.items list) (asItems heap search)
        (asItems heap replacement))) heap)
      (fun heap => HeapM.ofExcept (.ok (replaceFirst heap (heap.items (f list))
        (asItems heap (search.rename f)) (asItems heap (replacement.rename f)))) heap) := by
    refine HeapM.mirrors_inspect fun heap heap' h => ?_
    rw [h.items, h.asItems, h.asItems, h.replaceFirst]
    rfl
  exact hitems.bind HeapM.mirrors_newList

/-- Methods mirror each other on renamed receivers and arguments. -/
theorem mirrors_call (method : Method) (receiver : Value) (arguments : List Value) :
    HeapM.Mirrors f cap (Value.rename f) (method.call receiver arguments)
      (method.call (receiver.rename f) (arguments.map (Value.rename f))) := by
  cases method with
  | toText =>
      cases arguments with
      | nil => exact mirrors_toText receiver
      | cons first rest => exact mirrors_wrongCount (first :: rest) 0
  | toFixed =>
      cases arguments with
      | nil =>
          cases receiver with
          | number x => exact mirrors_number _
          | _ => exact mirrors_wrongCount [] 1
      | cons digits rest =>
          cases rest with
          | nil =>
              have hthrow : HeapM.Mirrors f cap (Value.rename f)
                  (throw (.invalidArgumentType "digits" .number digits.kind))
                  (throw (.invalidArgumentType "digits" .number (digits.rename f).kind)) := by
                rw [Value.kind_rename]
                exact .throw _
              cases receiver with
              | number x =>
                  cases digits with
                  | number digits => exact mirrors_number _
                  | _ => exact hthrow
              | _ => exact hthrow
          | cons second rest =>
              have hcount : HeapM.Mirrors f cap _ _ _ :=
                mirrors_wrongCount (digits :: second :: rest) 1
              cases receiver with
              | number x => cases digits <;> exact hcount
              | _ => exact hcount
  | ceil | floor =>
      cases arguments with
      | nil =>
          cases receiver with
          | number x => exact .pure _
          | _ => exact mirrors_wrongCount [] 0
      | cons first rest => cases receiver <;> exact mirrors_wrongCount (first :: rest) 0
  | replace =>
      have hcount : HeapM.Mirrors f cap _ _ _ := mirrors_wrongCount arguments 2
      cases receiver with
      | list list =>
          cases arguments with
          | nil => exact hcount
          | cons search rest =>
              cases rest with
              | nil => exact hcount
              | cons replacement rest =>
                  cases rest with
                  | nil => exact mirrors_replace list search replacement
                  | cons third rest => exact hcount
      | _ => exact hcount

end Method

end ListScript
