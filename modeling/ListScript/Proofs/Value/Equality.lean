import ListScript.Value.Equality
import Mathlib.Data.List.Forall2
import Mathlib.Order.FixedPoints

/-!
# Equal lists are alike

Two lists are alike if they are the same list, or if their elements are alike position by position.
For lists that contain themselves this describes more than one relation, and `Heap.Alike` is the
largest of them. `Heap.equal?_list` says that comparing two lists ends on every heap, and that it
finds them equal exactly if they are alike.

A comparison takes a pair of lists for equal when it meets the pair again further in, and forgets
the pair when it is done with it. What it finds on the way is therefore likeness under assumptions,
`Heap.AlikeGiven`; a pair that is alike under the assumption of itself is alike without it:
`Heap.alikeGiven_of_assumed`.
-/

namespace ListScript

/-- Values are alike if they are equal numbers, truth values or characters, if both are null, or if
they are lists that `R` relates. -/
inductive Value.Alike (R : ListId → ListId → Prop) : Value → Value → Prop where
  | number {x y : Number} (h : x.eq y = true) : Alike R (.number x) (.number y)
  | boolean (b : Bool) : Alike R (.boolean b) (.boolean b)
  | character (c : Char) : Alike R (.character c) (.character c)
  | null : Alike R .null .null
  | list {i j : ListId} (h : R i j) : Alike R (.list i) (.list j)

/-- More related lists make more values alike. -/
theorem Value.Alike.mono {R S : ListId → ListId → Prop} (h : ∀ i j, R i j → S i j) {x y : Value}
    (hxy : Value.Alike R x y) : Value.Alike S x y := by
  cases hxy with
  | number heq => exact .number heq
  | boolean b => exact .boolean b
  | character c => exact .character c
  | null => exact .null
  | list hij => exact .list (h _ _ hij)

namespace Heap

/-- What a look at two lists and their elements tells, if `R` tells which lists among the elements
to take for alike: they are the same list, or have alike elements at the same positions. -/
def look (heap : Heap) : (ListId → ListId → Prop) →o (ListId → ListId → Prop) where
  toFun R i j := i = j ∨ List.Forall₂ (Value.Alike R) (heap.items i) (heap.items j)
  monotone' _ _ h _ _ := Or.imp_right (List.Forall₂.imp fun _ _ => Value.Alike.mono h)

/-- Lists are alike if the largest relation that agrees with what a look at them tells relates
them. -/
def Alike (heap : Heap) : ListId → ListId → Prop := heap.look.gfp

/-- The comparison of two values as open-ended recursion: it enters whatever lists it meets, and
only a path that leads back to a pair of lists keeps it from going on. The recursion is unfolded to
a depth, and what needs to go deeper is cut off, yielding `none`. -/
def compare (heap : Heap) :
    (depth : Nat) → List (ListId × ListId) → Value → Value → Option (Option Bool)
  | 0, _, _, _ => none
  | depth + 1, path, x, y =>
    match x, y with
    | .number x, .number y => some (some (x.eq y))
    | .boolean x, .boolean y => some (some (x == y))
    | .character x, .character y => some (some (x == y))
    | .null, .null => some (some true)
    | .list i, .list j =>
      if i = j || path.contains (i, j) then some (some true)
      else if (heap.items i).length ≠ (heap.items j).length then some (some false)
      else do
        let equal ← ((heap.items i).zip (heap.items j)).allM fun pair => do
          let equal ← heap.compare depth ((i, j) :: path) pair.1 pair.2
          return equal.getD false
        return some equal
    | _, _ => some none

/-- A list that has elements is one of the heap's lists. -/
theorem lt_size_of_mem {heap : Heap} {id : ListId} {value : Value} (h : value ∈ heap.items id) :
    id < heap.size := by
  by_contra hid
  rw [items_of_size_le (Nat.le_of_not_lt hid)] at h
  cases h

/-- How lists are compared: nothing depends on whether the heap knows them. -/
theorem equalWithin_list (heap : Heap) (path : List (ListId × ListId)) (i j : ListId) :
    heap.equalWithin path (.list i) (.list j) =
      if i = j ∨ (i, j) ∈ path then some true
      else if (heap.items i).length ≠ (heap.items j).length then some false
      else some (((heap.items i).zip (heap.items j)).all fun pair =>
        (heap.equalWithin ((i, j) :: path) pair.1 pair.2).getD false) := by
  rw [equalWithin]
  by_cases hij : i = j
  · simp [hij]
  by_cases hpath : (i, j) ∈ path
  · simp [hij, hpath]
  by_cases hlength : (heap.items i).length = (heap.items j).length
  · by_cases hsize : i < heap.size ∧ j < heap.size
    · simp [hij, hpath, hlength, hsize]
    · -- One of the lists is unknown and so both are empty.
      have hempty : (heap.items i).zip (heap.items j) = [] := by
        rw [List.eq_nil_iff_forall_not_mem]
        rintro ⟨x, y⟩ hmem
        obtain ⟨hx, hy⟩ := List.of_mem_zip hmem
        exact hsize ⟨lt_size_of_mem hx, lt_size_of_mem hy⟩
      simp [hij, hpath, hlength, hsize, hempty]
  · simp [hij, hpath, hlength]

/-- Lists of equal length are found equal within a path if their elements are, with the pair of
lists on the path. -/
theorem equalWithin_list_eq_true_iff (heap : Heap) (path : List (ListId × ListId)) (i j : ListId) :
    heap.equalWithin path (.list i) (.list j) = some true ↔
      i = j ∨ (i, j) ∈ path ∨
        List.Forall₂ (fun x y => heap.equalWithin ((i, j) :: path) x y = some true)
          (heap.items i) (heap.items j) := by
  have hgetD (result : Option Bool) : result.getD false = true ↔ result = some true := by
    cases result <;> simp
  rw [equalWithin_list, ← or_assoc, List.forall₂_iff_zip]
  by_cases hassumed : i = j ∨ (i, j) ∈ path
  · simp [hassumed]
  by_cases hlength : (heap.items i).length = (heap.items j).length
  · simp [hassumed, hlength, hgetD]
  · simp [hassumed, hlength]

/-- Alike lists are the same list or have alike elements. -/
theorem alike_iff (heap : Heap) (i j : ListId) :
    heap.Alike i j ↔
      i = j ∨ List.Forall₂ (Value.Alike heap.Alike) (heap.items i) (heap.items j) := by
  show heap.look.gfp i j ↔ heap.look heap.look.gfp i j
  rw [heap.look.map_gfp]

/-- What a look at two lists tells if some pairs among the elements are taken for alike, besides
those that `R` relates. -/
def lookGiven (heap : Heap) (known : List (ListId × ListId)) :
    (ListId → ListId → Prop) →o (ListId → ListId → Prop) where
  toFun R := heap.look fun i j => R i j ∨ (i, j) ∈ known
  monotone' _ _ h := heap.look.monotone fun i j => Or.imp_left (h i j)

/-- Lists are alike given some pairs if they are alike as long as no look goes beyond these. -/
def AlikeGiven (heap : Heap) (known : List (ListId × ListId)) : ListId → ListId → Prop :=
  (heap.lookGiven known).gfp

/-- Lists that are alike given some pairs are the same list, or have elements that are alike given
the pairs or are among them. -/
theorem AlikeGiven.look {heap : Heap} {known : List (ListId × ListId)} {i j : ListId}
    (h : heap.AlikeGiven known i j) :
    heap.look (fun x y => heap.AlikeGiven known x y ∨ (x, y) ∈ known) i j := by
  rw [AlikeGiven, ← OrderHom.map_gfp] at h
  exact h

/-- A pair of lists that is alike under the assumption of itself is alike without it: the lists
alike given the pair, together with the pair, look alike. -/
theorem alikeGiven_of_assumed {heap : Heap} {known : List (ListId × ListId)} {i j : ListId}
    (h : heap.look (fun x y => heap.AlikeGiven ((i, j) :: known) x y ∨ (x, y) ∈ (i, j) :: known)
      i j) : heap.AlikeGiven known i j := by
  let R : ListId → ListId → Prop := fun x y =>
    heap.AlikeGiven ((i, j) :: known) x y ∨ (x, y) = (i, j)
  have hle : (fun x y => heap.AlikeGiven ((i, j) :: known) x y ∨ (x, y) ∈ (i, j) :: known) ≤
      fun x y => R x y ∨ (x, y) ∈ known := by
    intro x y hxy
    rcases hxy with halike | hmem
    · exact .inl (.inl halike)
    · exact (List.mem_cons.1 hmem).imp_left .inr
  have hR : R ≤ heap.lookGiven known R := by
    intro x y hxy
    apply heap.look.monotone hle
    rcases hxy with halike | heq
    · exact halike.look
    · cases heq
      exact h
  exact OrderHom.le_gfp _ hR i j (.inr rfl)

/-- Lists that are alike given no pairs are alike. -/
theorem alike_of_alikeGiven {heap : Heap} {i j : ListId} (h : heap.AlikeGiven [] i j) :
    heap.Alike i j := by
  have hle : heap.AlikeGiven [] ≤ heap.look (heap.AlikeGiven []) := by
    intro x y hxy
    refine heap.look.monotone ?_ x y hxy.look
    intro x y hxy
    exact hxy.resolve_right List.not_mem_nil
  exact heap.look.le_gfp hle i j h

/-- What passes from the elements of two lists to the lists holds of all values: a path that does
not come back to a pair of lists leaves ever fewer pairs outside. -/
@[elab_as_elim]
theorem path_induction (heap : Heap) {motive : List (ListId × ListId) → Value → Value → Prop}
    (flat : ∀ path x y, (∀ i j, x = .list i → y ≠ .list j) → motive path x y)
    (lists : ∀ path i j,
      ((i, j) ∉ path → ∀ x y, (x, y) ∈ (heap.items i).zip (heap.items j) →
        motive ((i, j) :: path) x y) →
      motive path (.list i) (.list j))
    (path : List (ListId × ListId)) (x y : Value) : motive path x y := by
  by_cases hlists : ∃ i j, x = .list i ∧ y = .list j
  · obtain ⟨i, j, rfl, rfl⟩ := hlists
    refine lists path i j fun hpath x y hmem => ?_
    obtain ⟨hx, hy⟩ := List.of_mem_zip hmem
    have hlt := pairsOutside_cons_lt (lt_size_of_mem hx) (lt_size_of_mem hy) hpath
    exact path_induction heap flat lists ((i, j) :: path) x y
  · refine flat path x y fun i j hx hy => hlists ⟨i, j, hx, hy⟩
termination_by heap.pairsOutside path

/-- Values that are not both lists are found equal within any path only if they are alike. -/
theorem alike_of_equalWithin_flat {heap : Heap} {path : List (ListId × ListId)} {x y : Value}
    (hflat : ∀ i j, x = .list i → y ≠ .list j) (h : heap.equalWithin path x y = some true)
    (R : ListId → ListId → Prop) : Value.Alike R x y := by
  unfold equalWithin at h
  split at h
  · exact .number (Option.some.inj h)
  · next b c =>
    cases eq_of_beq (Option.some.inj h)
    exact .boolean b
  · next c d =>
    cases eq_of_beq (Option.some.inj h)
    exact .character c
  · exact .null
  · next i j => exact absurd rfl (hflat i j rfl)
  · cases h

/-- What is found equal within a path is alike given the path. -/
theorem alike_of_equalWithin {heap : Heap} {path : List (ListId × ListId)} {x y : Value}
    (h : heap.equalWithin path x y = some true) :
    Value.Alike (fun i j => heap.AlikeGiven path i j ∨ (i, j) ∈ path) x y := by
  induction path, x, y using heap.path_induction with
  | flat path x y hflat => exact alike_of_equalWithin_flat hflat h _
  | lists path i j ih =>
      apply Value.Alike.list
      by_cases hpath : (i, j) ∈ path
      · exact .inr hpath
      · left
        apply alikeGiven_of_assumed
        rcases (equalWithin_list_eq_true_iff heap path i j).1 h with hij | hmem | hitems
        · exact .inl hij
        · exact absurd hmem hpath
        · obtain ⟨hlength, hitems⟩ := List.forall₂_iff_zip.1 hitems
          refine .inr (List.forall₂_iff_zip.2 ⟨hlength, fun hmem => ?_⟩)
          exact ih hpath _ _ hmem (hitems hmem)

/-- Alike values are found equal within any path. -/
theorem equalWithin_of_alike {heap : Heap} (path : List (ListId × ListId)) {x y : Value}
    (h : Value.Alike heap.Alike x y) : heap.equalWithin path x y = some true := by
  induction path, x, y using heap.path_induction with
  | flat path x y hflat =>
      cases h with
      | number heq => simp [equalWithin, heq]
      | boolean | character | null => simp [equalWithin]
      | list hij => exact absurd rfl (hflat _ _ rfl)
  | lists path i j ih =>
      rw [equalWithin_list_eq_true_iff]
      cases h with
      | list hij =>
          rcases (heap.alike_iff i j).1 hij with heq | hitems
          · exact .inl heq
          · by_cases hpath : (i, j) ∈ path
            · exact .inr (.inl hpath)
            · obtain ⟨hlength, hitems⟩ := List.forall₂_iff_zip.1 hitems
              refine .inr (.inr (List.forall₂_iff_zip.2 ⟨hlength, fun hmem => ?_⟩))
              exact ih hpath _ _ hmem (hitems hmem)

/-- Lists are found equal exactly if they are alike. -/
theorem equal?_list_eq_true_iff (heap : Heap) (i j : ListId) :
    heap.equal? (.list i) (.list j) = some true ↔ heap.Alike i j := by
  constructor
  · intro h
    cases alike_of_equalWithin h with
    | list hij => exact alike_of_alikeGiven (hij.resolve_right List.not_mem_nil)
  · intro h
    exact equalWithin_of_alike [] (.list h)

/-- Checking all elements of a list ends if each check does. -/
theorem allM_eq_some {α : Type} {items : List α} {check : α → Option Bool} (holds : α → Bool)
    (h : ∀ a ∈ items, check a = some (holds a)) : items.allM check = some (items.all holds) := by
  induction items with
  | nil => rfl
  | cons a rest ih =>
      have hrest := ih fun b hb => h b (List.mem_cons_of_mem a hb)
      rw [List.allM, h a List.mem_cons_self, hrest, List.all_cons]
      cases holds a <;> rfl

/-- A comparison is not cut off at a depth that is greater than the number of pairs of lists outside
the path, and then finds what `equalWithin` finds. -/
theorem compare_eq_some {heap : Heap} {depth : Nat} {path : List (ListId × ListId)}
    (hdepth : heap.pairsOutside path + 2 ≤ depth) (x y : Value) :
    heap.compare depth path x y = some (heap.equalWithin path x y) := by
  induction depth generalizing path x y with
  | zero => omega
  | succ depth ih =>
      unfold compare
      split
      · simp [equalWithin]
      · simp [equalWithin]
      · simp [equalWithin]
      · simp [equalWithin]
      · next i j =>
        simp only [Bool.or_eq_true, decide_eq_true_eq, List.contains_iff_mem]
        rw [equalWithin_list]
        split
        · rfl
        · next hassumed =>
          split
          · rfl
          · rw [allM_eq_some fun pair =>
              (heap.equalWithin ((i, j) :: path) pair.1 pair.2).getD false]
            · rfl
            · rintro ⟨x, y⟩ hmem
              obtain ⟨hx, hy⟩ := List.of_mem_zip hmem
              have hlt := pairsOutside_cons_lt (lt_size_of_mem hx) (lt_size_of_mem hy)
                fun hpath => hassumed (.inr hpath)
              rw [ih (by omega)]
              rfl
      · simp [equalWithin]

/-- Without a path all pairs of lists are outside. -/
theorem pairsOutside_nil (heap : Heap) : heap.pairsOutside [] = heap.size * heap.size := by
  simp [pairsOutside]

/-- Lists can always be compared. -/
theorem exists_equal?_list (heap : Heap) (a b : ListId) :
    ∃ equal : Bool, heap.equal? (.list a) (.list b) = some equal := by
  rw [equal?, equalWithin_list]
  split_ifs <;> exact ⟨_, rfl⟩

/-- Comparing two lists ends, nested no deeper than the heap has pairs of lists and two levels more,
and finds them equal exactly if they are alike. -/
theorem equal?_list (heap : Heap) (a b : ListId) :
    (∀ depth ≥ heap.size * heap.size + 2,
      heap.compare depth [] (.list a) (.list b) = some (heap.equal? (.list a) (.list b))) ∧
    ∃ equal : Bool, heap.equal? (.list a) (.list b) = some equal ∧
      (equal = true ↔ heap.Alike a b) := by
  constructor
  · intro depth hdepth
    exact compare_eq_some (by rwa [pairsOutside_nil]) _ _
  · have hiff := heap.equal?_list_eq_true_iff a b
    obtain ⟨equal, hequal⟩ := heap.exists_equal?_list a b
    rw [hequal, Option.some.injEq] at hiff
    exact ⟨equal, hequal, hiff⟩

end Heap

end ListScript
