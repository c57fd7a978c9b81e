import ListScript.Proofs.Number.Integers
import ListScript.Proofs.Value.Equality

/-!
# Equality of lists is an equivalence

Not every value is equal to itself: not-a-number and functions are equal to nothing. Lists are, even
those that contain such values, because a list is compared with itself by identity. That equality of
lists is transitive all the same, also where lists contain themselves, is
`Heap.equal?_list_equivalence`. Symmetry and transitivity are shown of `Heap.Alike`, by the largest
relation that looks at lists allow: the converse of likeness, and likeness composed with itself, are
such relations.
-/

namespace ListScript

/-- Alike values are alike the other way round, if the lists among them are. -/
theorem Value.Alike.symm {R S : ListId → ListId → Prop} (h : ∀ i j, R i j → S j i) {x y : Value}
    (hxy : Value.Alike R x y) : Value.Alike S y x := by
  cases hxy with
  | number heq =>
      obtain ⟨place, hx, hy⟩ := (Number.eq_eq_true_iff _ _).1 heq
      exact .number ((Number.eq_eq_true_iff _ _).2 ⟨place, hy, hx⟩)
  | boolean b => exact .boolean b
  | character c => exact .character c
  | null => exact .null
  | list hij => exact .list (h _ _ hij)

/-- Values that are alike with the same value are alike, if the lists among them are. -/
theorem Value.Alike.trans {R S T : ListId → ListId → Prop}
    (h : ∀ i j k, R i j → S j k → T i k) {x y z : Value} (hxy : Value.Alike R x y)
    (hyz : Value.Alike S y z) : Value.Alike T x z := by
  cases hxy with
  | number heq =>
      cases hyz with
      | number heq' =>
          obtain ⟨place, hx, hy⟩ := (Number.eq_eq_true_iff _ _).1 heq
          obtain ⟨place', hy', hz⟩ := (Number.eq_eq_true_iff _ _).1 heq'
          cases hy.symm.trans hy'
          exact .number ((Number.eq_eq_true_iff _ _).2 ⟨place, hx, hz⟩)
  | boolean b =>
      cases hyz with
      | boolean => exact .boolean b
  | character c =>
      cases hyz with
      | character => exact .character c
  | null =>
      cases hyz with
      | null => exact .null
  | list hij =>
      cases hyz with
      | list hjk => exact .list (h _ _ _ hij hjk)

/-- Lists whose elements are related to those of the same list, position by position, have their
elements related by the composition. -/
theorem forall₂_trans {α : Type} {R S T : α → α → Prop} (h : ∀ a b c, R a b → S b c → T a c)
    {xs ys zs : List α} (hxy : List.Forall₂ R xs ys) (hyz : List.Forall₂ S ys zs) :
    List.Forall₂ T xs zs := by
  induction hxy generalizing zs with
  | nil =>
      cases hyz
      exact .nil
  | cons hab _ ih =>
      cases hyz with
      | cons hbc hrest => exact .cons (h _ _ _ hab hbc) (ih hrest)

namespace Heap

variable {heap : Heap} {i j k : ListId}

/-- A list is like itself, whatever it contains. -/
theorem Alike.refl (heap : Heap) (i : ListId) : heap.Alike i i := (heap.alike_iff i i).2 (.inl rfl)

/-- Likeness is symmetric. -/
theorem Alike.symm (h : heap.Alike i j) : heap.Alike j i := by
  let R : ListId → ListId → Prop := fun x y => heap.Alike y x
  have hR : R ≤ heap.look R := by
    intro x y hxy
    rcases (heap.alike_iff y x).1 hxy with heq | hitems
    · exact .inl heq.symm
    · exact .inr (.flip (hitems.imp fun _ _ => Value.Alike.symm fun _ _ hlists => hlists))
  exact heap.look.le_gfp hR j i h

/-- Likeness is transitive: two looks, at the first two lists and at the last two, make up a look at
the outer ones. -/
theorem Alike.trans (h : heap.Alike i j) (h' : heap.Alike j k) : heap.Alike i k := by
  let R : ListId → ListId → Prop := fun x z => ∃ y, heap.Alike x y ∧ heap.Alike y z
  have hR : R ≤ heap.look R := by
    rintro x z ⟨y, hxy, hyz⟩
    -- where one of the looks finds the same list, the other one is all there is
    have hleft : heap.Alike ≤ R := fun a b hab => ⟨a, .refl heap a, hab⟩
    rcases (heap.alike_iff x y).1 hxy with rfl | hxitems
    · exact heap.look.monotone hleft x z ((heap.alike_iff x z).1 hyz)
    · rcases (heap.alike_iff y z).1 hyz with rfl | hyitems
      · exact heap.look.monotone hleft x y (.inr hxitems)
      · have hvalues (u v w : Value) (huv : Value.Alike heap.Alike u v)
            (hvw : Value.Alike heap.Alike v w) : Value.Alike R u w :=
          huv.trans (fun _ b _ hab hbc => ⟨b, hab, hbc⟩) hvw
        exact .inr (forall₂_trans hvalues hxitems hyitems)
  exact heap.look.le_gfp hR i k ⟨j, h, h'⟩

open Classical in
/-- Lists can always be compared, and the answer is whether they are alike. -/
theorem equal?_list_eq_decide (heap : Heap) (i j : ListId) :
    heap.equal? (.list i) (.list j) = some (decide (heap.Alike i j)) := by
  obtain ⟨equal, hequal⟩ := heap.exists_equal?_list i j
  have hiff := heap.equal?_list_eq_true_iff i j
  rw [hequal, Option.some.injEq] at hiff ⊢
  rw [Bool.eq_iff_iff, hiff, decide_eq_true_eq]

/-- On every heap, a list is equal to itself, two lists compare the same either way round, and lists
that are equal to the same list are equal. -/
theorem equal?_list_equivalence (heap : Heap) (a b c : ListId) :
    heap.equal? (.list a) (.list a) = some true ∧
    heap.equal? (.list a) (.list b) = heap.equal? (.list b) (.list a) ∧
    (heap.equal? (.list a) (.list b) = some true → heap.equal? (.list b) (.list c) = some true →
      heap.equal? (.list a) (.list c) = some true) := by
  refine ⟨?_, ?_, ?_⟩
  · rw [equal?_list_eq_true_iff]
    exact .refl heap a
  · rw [equal?_list_eq_decide, equal?_list_eq_decide]
    exact congrArg some (decide_eq_decide.2 ⟨.symm, .symm⟩)
  · rw [equal?_list_eq_true_iff, equal?_list_eq_true_iff, equal?_list_eq_true_iff]
    exact .trans

/-- Lists that contain themselves after one, two and three steps, all of them with a list of
not-a-number and a function beside. -/
def rings : Heap :=
  ⟨#[[.number .nan, .native .print],
    [.list 0, .list 1],
    [.list 0, .list 3], [.list 0, .list 2],
    [.list 0, .list 5], [.list 0, .list 6], [.list 0, .list 4]]⟩

/-- The list that contains itself is equal to the ones that do so after two and three steps. -/
theorem equal?_list_equivalence_rings :
    rings.equal? (.list 1) (.list 2) = some true ∧ rings.equal? (.list 2) (.list 4) = some true ∧
      rings.equal? (.list 1) (.list 4) = some true := by
  have h : rings.equal? (.list 1) (.list 2) = some true := by decide +kernel
  have h' : rings.equal? (.list 2) (.list 4) = some true := by decide +kernel
  exact ⟨h, h', (equal?_list_equivalence rings 1 2 4).2.2 h h'⟩

end Heap

end ListScript
