import ListScript.Value.Heap

/-!
# Paths through the heap

Lists can contain themselves, so whoever walks through them keeps the path of those it is inside of.
A walk that enters no list twice on one path ends, because a heap has finitely many lists: each step
inward leaves fewer of them outside the path.
-/

namespace ListScript

/-- Adding an element of a list to a path leaves fewer elements outside the path. -/
theorem countP_notMem_cons_lt {α : Type} [BEq α] [LawfulBEq α] {all path : List α} {a : α}
    (hall : a ∈ all) (hpath : a ∉ path) :
    all.countP (fun x => x ∉ a :: path) < all.countP (fun x => x ∉ path) := by
  induction all with
  | nil => cases hall
  | cons b rest ih =>
    have hle : rest.countP (fun x => x ∉ a :: path) ≤ rest.countP (fun x => x ∉ path) :=
      List.countP_mono_left fun x _ h => by
        simp only [List.mem_cons, not_or, decide_eq_true_eq] at h ⊢
        exact h.2
    by_cases hb : b = a
    · subst hb
      rw [List.countP_cons_of_neg (by simp), List.countP_cons_of_pos (by simpa using hpath)]
      omega
    · have hrest := ih ((List.mem_cons.1 hall).resolve_left (Ne.symm hb))
      have hhead : decide (b ∉ a :: path) = decide (b ∉ path) := by simp [hb]
      rw [List.countP_cons, List.countP_cons, hhead]
      omega

namespace Heap

/-- How many lists lie outside a path. -/
def outside (heap : Heap) (path : List ListId) : Nat :=
  (List.range heap.size).countP fun id => id ∉ path

/-- How many pairs of lists lie outside a path of pairs. -/
def pairsOutside (heap : Heap) (path : List (ListId × ListId)) : Nat :=
  ((List.range heap.size).flatMap fun i => (List.range heap.size).map fun j => (i, j)).countP
    fun pair => pair ∉ path

theorem outside_cons_lt {heap : Heap} {path : List ListId} {id : ListId} (hsize : id < heap.size)
    (hpath : id ∉ path) : heap.outside (id :: path) < heap.outside path :=
  countP_notMem_cons_lt (List.mem_range.2 hsize) hpath

theorem pairsOutside_cons_lt {heap : Heap} {path : List (ListId × ListId)} {i j : ListId}
    (hi : i < heap.size) (hj : j < heap.size) (hpath : (i, j) ∉ path) :
    heap.pairsOutside ((i, j) :: path) < heap.pairsOutside path := by
  refine countP_notMem_cons_lt (List.mem_flatMap.2 ⟨i, List.mem_range.2 hi, ?_⟩) hpath
  exact List.mem_map.2 ⟨j, List.mem_range.2 hj, rfl⟩

end Heap

end ListScript
