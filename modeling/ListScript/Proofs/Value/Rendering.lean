import ListScript.Proofs.Value.Equality
import ListScript.Value.Tree
import Mathlib.Logic.Relation

/-!
# How values are rendered

Lists can contain themselves, so a recursion that renders a list by rendering its elements need not
end. `Rendering.render` is that recursion, cut at places that are given beforehand. The three texts
of a value are what it yields if it is cut just where a list stands inside itself,
`Heap.recurs`: it then ends on every heap, and where no list contains itself nothing is cut at all
(`Value.renders_unless_recurring`).
-/

namespace ListScript

/-! ## Places in a value -/

namespace Heap

/-- The value at a place: an element of an element and so on, by position, from the outside in. -/
def at? (heap : Heap) : Value → (place : List Nat) → Option Value
  | value, [] => some value
  | .list id, i :: rest => (heap.items id)[i]?.bind (heap.at? · rest)
  | _, _ :: _ => none

/-- The value at a place is the given list. -/
def holdsAt (heap : Heap) (value : Value) (place : List Nat) (id : ListId) : Bool :=
  match heap.at? value place with
  | some (.list other) => other == id
  | _ => false

/-- At the place stands a list that the place is inside of: the list stands on the way to it too. -/
def recurs (heap : Heap) (value : Value) (place : List Nat) : Bool :=
  match heap.at? value place with
  | some (.list id) => (List.range place.length).any fun n => heap.holdsAt value (place.take n) id
  | _ => false

/-- The first list has the second one as an element. -/
def Contains (heap : Heap) (i j : ListId) : Prop := .list j ∈ heap.items i

theorem holdsAt_iff {heap : Heap} {value : Value} {place : List Nat} {id : ListId} :
    heap.holdsAt value place id = true ↔ heap.at? value place = some (.list id) := by
  unfold holdsAt
  split
  · next other h => simp [h]
  · next h =>
    constructor
    · exact fun hfalse => absurd hfalse Bool.false_ne_true
    · exact fun hlist => absurd hlist (h id)

theorem recurs_iff {heap : Heap} {value : Value} {place : List Nat} {id : ListId}
    (h : heap.at? value place = some (.list id)) :
    heap.recurs value place = true ↔
      ∃ n < place.length, heap.at? value (place.take n) = some (.list id) := by
  unfold recurs
  rw [h]
  simp only [List.any_eq_true, List.mem_range, holdsAt_iff]

/-- A place within a place. -/
theorem at?_append (heap : Heap) (value : Value) (place rest : List Nat) :
    heap.at? value (place ++ rest) = (heap.at? value place).bind (heap.at? · rest) := by
  induction place generalizing value with
  | nil => rfl
  | cons i place ih =>
      cases value with
      | list id =>
          show (heap.items id)[i]?.bind (heap.at? · (place ++ rest)) = _
          simp only [ih, at?, Option.bind_assoc]
      | _ => rfl

/-- An element's place is its position, after the list's place. -/
theorem at?_concat {heap : Heap} {value item : Value} {place : List Nat} {id : ListId} {i : Nat}
    (h : heap.at? value place = some (.list id)) (hitem : (heap.items id)[i]? = some item) :
    heap.at? value (place ++ [i]) = some item := by
  rw [at?_append, h, Option.bind_some, at?, hitem]
  rfl

/-- A list that stands inside another one is contained in it, directly or indirectly. -/
theorem transGen_of_at? {heap : Heap} {i j : ListId} {place : List Nat} (hplace : place ≠ [])
    (h : heap.at? (.list i) place = some (.list j)) : Relation.TransGen heap.Contains i j := by
  induction place generalizing i with
  | nil => exact absurd rfl hplace
  | cons n rest ih =>
      obtain ⟨item, hitem, hrest⟩ := Option.bind_eq_some_iff.1 h
      have hmem := List.mem_of_getElem? hitem
      cases rest with
      | nil =>
          cases hrest
          exact .single hmem
      | cons m rest =>
          cases item with
          | list k => exact .head hmem (ih (by simp) hrest)
          | _ => cases hrest

/-- Nothing recurs where no list contains itself. -/
theorem recurs_eq_false {heap : Heap} {value : Value}
    (h : ∀ place id, heap.at? value place = some (.list id) →
      ¬ Relation.TransGen heap.Contains id id) (place : List Nat) :
    heap.recurs value place = false := by
  rw [Bool.eq_false_iff]
  intro hrecurs
  cases hat : heap.at? value place with
  | none => simp [recurs, hat] at hrecurs
  | some inner =>
      cases inner with
      | list id =>
          obtain ⟨n, hn, houter⟩ := (recurs_iff hat).1 hrecurs
          have hwithin : heap.at? (.list id) (place.drop n) = some (.list id) := by
            rw [← List.take_append_drop n place, at?_append, houter] at hat
            exact hat
          exact h place id hat (transGen_of_at? (by simpa using hn) hwithin)
      | _ => simp [recurs, hat] at hrecurs

end Heap

/-! ## Rendering as open-ended recursion -/

/-- A way to render values. -/
structure Rendering (α : Type) where
  /-- A value that is no list. -/
  leaf : Value → α
  /-- A list whose elements are rendered, and whether it spells a text. -/
  node : (spells : Bool) → List α → α
  /-- A list that is not entered. -/
  cut : α

namespace Rendering

/-- The print form. -/
def print : Rendering String where
  leaf := Tree.printLeaf
  node spells parts :=
    if spells then String.join parts else "[" ++ String.intercalate ", " parts ++ "]"
  cut := "[...]"

/-- The structural text. -/
def inspect : Rendering String where
  leaf := Tree.inspectLeaf
  node _ parts := Text.Inspect.variant "List" [Text.Inspect.list parts]
  cut := Text.Inspect.variant "List" ["[...]"]

/-- The text that a value spells, or the first fault among its parts. -/
def text : Rendering (Except Fault String) where
  leaf := Tree.textLeaf
  node _ parts := String.join <$> parts.mapM id
  cut := .ok ""

/-- The values that are no lists, from left to right. -/
def leaves : Rendering (List Value) where
  leaf value := [value]
  node _ parts := parts.flatten
  cut := []

variable {α : Type}

/-- The elements spell a text: all of them are characters, and there are some. -/
def spells (items : List Value) : Bool := !items.isEmpty && items.all Value.isCharacter

/-- Render a value by rendering the elements of lists, except for lists at places that are cut. The
recursion is unfolded to a depth, and what needs to go deeper is given up, yielding `none`. -/
def render (r : Rendering α) (heap : Heap) (cuts : List Nat → Bool) :
    (depth : Nat) → (place : List Nat) → Value → Option α
  | 0, _, _ => none
  | depth + 1, place, value =>
    match value with
    | .list id =>
      if cuts place then some r.cut
      else do
        let parts ← (heap.items id).zipIdx.mapM fun entry =>
          r.render heap cuts depth (place ++ [entry.2]) entry.1
        return r.node (spells (heap.items id)) parts
    | value => some (r.leaf value)

/-- The function renders trees in the given way. -/
structure Renders (r : Rendering α) (f : Tree → α) : Prop where
  leaf : ∀ value, f (.leaf value) = r.leaf value
  node : ∀ items, f (.node items) =
    r.node (!items.isEmpty && items.all Tree.isCharacter) (items.map f)
  cut : f .cycle = r.cut

end Rendering

/-! ## Trees -/

namespace Heap

/-- A list's tree: nothing depends on whether the heap knows the list. -/
theorem treeWithin_list (heap : Heap) (path : List ListId) (id : ListId) :
    heap.treeWithin path (.list id) =
      if id ∈ path then .cycle
      else .node ((heap.items id).map fun item => heap.treeWithin (id :: path) item) := by
  rw [treeWithin]
  by_cases hpath : id ∈ path
  · simp [hpath]
  by_cases hsize : id < heap.size
  · simp [hpath, hsize]
  · simp [hpath, hsize, items_of_size_le (Nat.le_of_not_lt hsize)]

/-- A value that is no list is its own tree. -/
theorem treeWithin_flat (heap : Heap) (path : List ListId) {value : Value}
    (h : ∀ id, value ≠ .list id) : heap.treeWithin path value = .leaf value := by
  cases value with
  | list id => exact absurd rfl (h id)
  | _ => simp only [treeWithin]

/-- Only a character has a character as its tree. -/
theorem isCharacter_treeWithin (heap : Heap) (path : List ListId) (value : Value) :
    (heap.treeWithin path value).isCharacter = value.isCharacter := by
  cases value with
  | list id =>
      rw [treeWithin_list]
      split
      · rfl
      · rfl
  | _ => simp only [treeWithin, Tree.isCharacter]

end Heap

namespace Tree

theorem printAll_eq_map (items : List Tree) : printAll items = items.map print := by
  induction items with
  | nil => rfl
  | cons tree rest ih => rw [printAll, ih, List.map_cons]

theorem inspectAll_eq_map (items : List Tree) : inspectAll items = items.map inspect := by
  induction items with
  | nil => rfl
  | cons tree rest ih => rw [inspectAll, ih, List.map_cons]

theorem textAll_eq_mapM (items : List Tree) : textAll items = (items.map text).mapM id := by
  induction items with
  | nil => rfl
  | cons tree rest ih =>
      rw [textAll, ih, List.map_cons, List.mapM_cons]
      rfl

mutual

/-- The values at the ends of a tree, from left to right. -/
def leaves : Tree → List Value
  | .leaf value => [value]
  | .node items => leavesAll items
  | .cycle => []

/-- The values at the ends of trees, from left to right. -/
def leavesAll : List Tree → List Value
  | [] => []
  | tree :: rest => tree.leaves ++ leavesAll rest

end

theorem leavesAll_eq_flatten (items : List Tree) :
    leavesAll items = (items.map leaves).flatten := by
  induction items with
  | nil => rfl
  | cons tree rest ih => rw [leavesAll, ih, List.map_cons, List.flatten_cons]

/-- Texts that are joined and joined again are joined, with the first fault on the way. -/
theorem join_bind_join {first rest others : Except Fault (List String)}
    (h : String.join <$> rest = String.join <$> others) :
    String.join <$> (do
      let text ← String.join <$> first
      let texts ← rest
      return text :: texts) =
    String.join <$> (do
      let texts ← first
      let more ← others
      return texts ++ more) := by
  cases first with
  | error fault => rfl
  | ok texts =>
      cases rest with
      | error fault =>
          cases others with
          | error fault' =>
              cases h
              rfl
          | ok more => cases h
      | ok parts =>
          cases others with
          | error fault' => cases h
          | ok more =>
              have hjoin : String.join parts = String.join more := Except.ok.inj h
              show Except.ok (String.join (String.join texts :: parts)) =
                Except.ok (String.join (texts ++ more))
              rw [String.join_cons, String.join_append, hjoin]

mutual

/-- The text of a tree is made up of the texts of the values at its ends. -/
theorem text_eq_leaves : (tree : Tree) → tree.text = String.join <$> tree.leaves.mapM textLeaf
  | .leaf value => by
    rw [text, leaves, List.mapM_cons, List.mapM_nil]
    cases textLeaf value with
    | error fault => rfl
    | ok text =>
        show Except.ok text = Except.ok (String.join [text])
        rw [String.join_cons, String.join_nil, String.append_empty]
  | .node items => by
    rw [text, leaves]
    exact textAll_eq_leaves items
  | .cycle => by
    rw [text, leaves]
    rfl

/-- The texts of trees are made up of the texts of the values at their ends. -/
theorem textAll_eq_leaves : (items : List Tree) →
    String.join <$> textAll items = String.join <$> (leavesAll items).mapM textLeaf
  | [] => rfl
  | tree :: rest => by
    rw [textAll, leavesAll, List.mapM_append, text_eq_leaves tree]
    exact join_bind_join (textAll_eq_leaves rest)

end

end Tree

namespace Rendering

theorem Renders.print : Rendering.print.Renders Tree.print where
  leaf _ := by rw [Tree.print]; rfl
  node items := by
    rw [Tree.print, Tree.printAll_eq_map]
    rfl
  cut := by rw [Tree.print]; rfl

theorem Renders.inspect : Rendering.inspect.Renders Tree.inspect where
  leaf _ := by rw [Tree.inspect]; rfl
  node items := by
    rw [Tree.inspect, Tree.inspectAll_eq_map]
    rfl
  cut := by rw [Tree.inspect]; rfl

theorem Renders.text : Rendering.text.Renders Tree.text where
  leaf _ := by rw [Tree.text]; rfl
  node items := by
    rw [Tree.text, Tree.textAll_eq_mapM]
    rfl
  cut := by rw [Tree.text]; rfl

theorem Renders.leaves : Rendering.leaves.Renders Tree.leaves where
  leaf _ := by rw [Tree.leaves]; rfl
  node items := by
    rw [Tree.leaves, Tree.leavesAll_eq_flatten]
    rfl
  cut := by rw [Tree.leaves]; rfl

/-- What succeeds for each element of a list succeeds for the list. -/
theorem mapM_eq_some {α β : Type} {items : List α} {f : α → Option β} (g : α → β)
    (h : ∀ a ∈ items, f a = some (g a)) : items.mapM f = some (items.map g) := by
  induction items with
  | nil => rfl
  | cons a rest ih =>
      rw [List.mapM_cons, h a List.mem_cons_self,
        ih fun b hb => h b (List.mem_cons_of_mem a hb)]
      rfl

/-- The same for the elements with their positions. -/
theorem mapM_zipIdx_eq_some {α β : Type} {items : List α} {f : α × Nat → Option β} (g : α → β)
    (h : ∀ a i, items[i]? = some a → f (a, i) = some (g a)) :
    items.zipIdx.mapM f = some (items.map g) := by
  have hmapM : items.zipIdx.mapM f = some (items.zipIdx.map (g ∘ Prod.fst)) := by
    refine mapM_eq_some _ ?_
    rintro ⟨a, i⟩ hmem
    exact h a i (List.mem_zipIdx_iff_getElem?.1 hmem)
  rw [hmapM, ← List.map_map, List.zipIdx_map_fst]

/-- Elements spell a text exactly if their trees are characters, and there are some. -/
theorem spells_eq (heap : Heap) (path : List ListId) (items : List Value) :
    (!(items.map fun item => heap.treeWithin path item).isEmpty &&
      (items.map fun item => heap.treeWithin path item).all Tree.isCharacter) = spells items := by
  unfold spells
  rw [List.isEmpty_map, List.all_map]
  congr 2
  funext item
  exact heap.isCharacter_treeWithin path item

/-- A path holds the lists on the way to a place. -/
def OnWay (heap : Heap) (value : Value) (place : List Nat) (path : List ListId) : Prop :=
  ∀ id, id ∈ path ↔ ∃ n < place.length, heap.at? value (place.take n) = some (.list id)

/-- On the way to an element is the list, besides what is on the way to the list. -/
theorem OnWay.concat {heap : Heap} {value : Value} {place : List Nat} {path : List ListId}
    (h : OnWay heap value place path) {id : ListId}
    (hid : heap.at? value place = some (.list id)) (i : Nat) :
    OnWay heap value (place ++ [i]) (id :: path) := by
  intro other
  rw [List.mem_cons, h other, List.length_append, List.length_singleton]
  constructor
  · rintro (rfl | ⟨n, hn, hat⟩)
    · exact ⟨place.length, by omega, by rwa [List.take_left]⟩
    · exact ⟨n, by omega, by rwa [List.take_append_of_le_length (by omega)]⟩
  · rintro ⟨n, hn, hat⟩
    rw [List.take_append_of_le_length (by omega)] at hat
    rcases Nat.lt_or_eq_of_le (Nat.le_of_lt_succ hn) with hlt | rfl
    · exact .inr ⟨n, hlt, hat⟩
    · rw [List.take_length, hid] at hat
      cases hat
      exact .inl rfl

/-- Cut where a list stands inside itself, the recursion ends at a depth that is greater than the
number of lists outside the path, and renders the tree of the value. -/
theorem render_eq_some {α : Type} {r : Rendering α} {f : Tree → α} (hf : r.Renders f) {heap : Heap}
    {value : Value} {depth : Nat} {place : List Nat} {path : List ListId}
    (hpath : OnWay heap value place path) (hdepth : heap.outside path < depth) {inner : Value}
    (hat : heap.at? value place = some inner) :
    r.render heap (heap.recurs value) depth place inner =
      some (f (heap.treeWithin path inner)) := by
  induction depth generalizing place path inner with
  | zero => omega
  | succ depth ih =>
      unfold render
      split
      · next id =>
        have hrecurs : heap.recurs value place = true ↔ id ∈ path :=
          (Heap.recurs_iff hat).trans (hpath id).symm
        rw [Heap.treeWithin_list]
        by_cases hmem : id ∈ path
        · rw [if_pos (hrecurs.2 hmem), if_pos hmem, hf.cut]
        · rw [if_neg fun h => hmem (hrecurs.1 h), if_neg hmem, hf.node]
          have hparts : (heap.items id).zipIdx.mapM (fun entry =>
              r.render heap (heap.recurs value) depth (place ++ [entry.2]) entry.1) =
              some ((heap.items id).map fun item => f (heap.treeWithin (id :: path) item)) := by
            refine mapM_zipIdx_eq_some _ fun item i hitem => ?_
            have hsize := Heap.lt_size_of_mem (List.mem_of_getElem? hitem)
            have hlt := Heap.outside_cons_lt hsize hmem
            exact ih (hpath.concat hat i) (by omega) (Heap.at?_concat hat hitem)
          rw [hparts, spells_eq, List.map_map]
          rfl
      · next hflat => rw [Heap.treeWithin_flat heap path hflat, hf.leaf]

end Rendering

/-! ## Values without a text -/

/-- The value has no text: it is a function, a control signal or nothing. -/
def Value.isMute : Value → Bool
  | .function _ | .native _ | .control _ | .nothing => true
  | _ => false

namespace Tree

theorem textLeaf_of_isMute {value : Value} (h : value.isMute = true) :
    textLeaf value = .error (.nonStringable value.kind) := by
  cases value with
  | function | native | control | nothing => rfl
  | null | number | boolean | character | list => cases h

theorem exists_textLeaf {value : Value} (hmute : value.isMute = false)
    (hflat : value.isIndexable = false) : ∃ text, textLeaf value = .ok text := by
  cases value with
  | null | number | boolean | character => exact ⟨_, rfl⟩
  | list => cases hflat
  | function | native | control | nothing => cases hmute

/-- The first value without a text decides that there is none, and which fault is reported. -/
theorem mapM_textLeaf {values : List Value} (hflat : ∀ value ∈ values, value.isIndexable = false) :
    (∀ mute, values.find? Value.isMute = some mute →
      values.mapM textLeaf = .error (.nonStringable mute.kind)) ∧
    (values.find? Value.isMute = none → ∃ texts, values.mapM textLeaf = .ok texts) := by
  induction values with
  | nil => exact ⟨fun mute h => absurd h (by simp), fun _ => ⟨[], rfl⟩⟩
  | cons value rest ih =>
      obtain ⟨hfails, hsucceeds⟩ :=
        ih fun other hother => hflat other (List.mem_cons_of_mem _ hother)
      rw [List.mapM_cons, List.find?_cons]
      cases hmute : value.isMute with
      | true =>
          rw [textLeaf_of_isMute hmute]
          refine ⟨fun mute h => ?_, fun h => absurd h (by simp)⟩
          cases h
          rfl
      | false =>
          obtain ⟨text, htext⟩ := exists_textLeaf hmute (hflat value List.mem_cons_self)
          rw [htext]
          refine ⟨fun mute h => ?_, fun h => ?_⟩
          · rw [hfails mute h]
            rfl
          · obtain ⟨texts, htexts⟩ := hsucceeds h
            rw [htexts]
            exact ⟨text :: texts, rfl⟩

end Tree

/-- The values at the ends of a value's tree are no lists. -/
theorem Heap.isIndexable_of_mem_leaves {heap : Heap} {path : List ListId} {value leaf : Value}
    (h : leaf ∈ (heap.treeWithin path value).leaves) : leaf.isIndexable = false := by
  fun_induction Heap.treeWithin heap path value with
  | case1 path id hmem =>
      rw [Tree.leaves] at h
      cases h
  | case2 path id hmem hsize ih =>
      rw [Tree.leaves, Tree.leavesAll_eq_flatten, List.map_map, ← List.flatMap_def] at h
      obtain ⟨item, -, hitem⟩ := List.mem_flatMap.1 h
      exact ih item hitem
  | case3 path id hmem hsize =>
      rw [Tree.leaves] at h
      cases h
  | case4 path value hflat =>
      rw [Tree.leaves, List.mem_singleton] at h
      subst h
      cases leaf with
      | list id => exact absurd rfl (hflat id)
      | _ => rfl

/-- The texts of a value come from rendering it element by element, cut at the given places. -/
structure Value.Rendered (heap : Heap) (value : Value) (cuts : List Nat → Bool) (depth : Nat) :
    Prop where
  print : Rendering.print.render heap cuts depth [] value = some (value.print heap)
  inspect : Rendering.inspect.render heap cuts depth [] value = some (value.inspect heap)
  text : Rendering.text.render heap cuts depth [] value = some (value.text heap)

/-- Cut where a list stands inside itself and nowhere else, the recursion over a value's elements
ends on every heap, no deeper than the heap has lists and one level more, and yields the value's
texts. If no list that is met contains itself, directly or indirectly, the recursion that is not cut
at all does so. The text that a value spells is missing exactly if one of the values met has none,
and the fault names the kind of the first such value from left to right. -/
theorem Value.renders_unless_recurring (heap : Heap) (value : Value) {depth : Nat}
    (hdepth : heap.size < depth) :
    value.Rendered heap (heap.recurs value) depth ∧
    ((∀ place id, heap.at? value place = some (.list id) →
        ¬ Relation.TransGen heap.Contains id id) →
      value.Rendered heap (fun _ => false) depth) ∧
    ∃ met, Rendering.leaves.render heap (heap.recurs value) depth [] value = some met ∧
      (∀ mute, met.find? Value.isMute = some mute →
        value.text heap = .error (.nonStringable mute.kind)) ∧
      (met.find? Value.isMute = none → ∃ text, value.text heap = .ok text) := by
  have hrender {α : Type} {r : Rendering α} {f : Tree → α} (hf : r.Renders f) :
      r.render heap (heap.recurs value) depth [] value = some (f (heap.tree value)) := by
    have hpath : Rendering.OnWay heap value [] [] := fun id => by simp
    exact Rendering.render_eq_some hf hpath (by simpa [Heap.outside] using hdepth) rfl
  have hrendered : value.Rendered heap (heap.recurs value) depth :=
    ⟨hrender .print, hrender .inspect, hrender .text⟩
  refine ⟨hrendered, fun hacyclic => ?_, _, hrender .leaves, ?_⟩
  · rwa [funext (Heap.recurs_eq_false hacyclic)] at hrendered
  · have hflat : ∀ leaf ∈ (heap.tree value).leaves, leaf.isIndexable = false :=
      fun leaf hleaf => Heap.isIndexable_of_mem_leaves hleaf
    obtain ⟨hfails, hsucceeds⟩ := Tree.mapM_textLeaf hflat
    rw [Value.text, Tree.text_eq_leaves]
    refine ⟨fun mute hmute => ?_, fun hnone => ?_⟩
    · rw [hfails mute hmute]
      rfl
    · obtain ⟨texts, htexts⟩ := hsucceeds hnone
      rw [htexts]
      exact ⟨String.join texts, rfl⟩

/-- A list that has the same text twice as an element does not contain itself, and both occurrences
are printed in full. -/
theorem Value.renders_unless_recurring_shared :
    let heap : Heap := ⟨#[[.character 'a', .character 'b'], [.list 0, .boolean true, .list 0]]⟩
    (∀ place id, heap.at? (.list 1) place = some (.list id) →
      ¬ Relation.TransGen heap.Contains id id) ∧
    (Value.list 1).print heap = "[ab, true, ab]" := by
  intro heap
  -- elements have smaller identities than the lists that contain them
  have hinward (i j : ListId) (h : heap.Contains i j) : j < i := by
    rcases i with _ | _ | i
    · simp [Heap.Contains, heap, Heap.items] at h
    · obtain rfl : j = 0 := by simpa [Heap.Contains, heap, Heap.items] using h
      exact Nat.one_pos
    · simp [Heap.Contains, heap, Heap.items] at h
  have hbelow (i j : ListId) (h : Relation.TransGen heap.Contains i j) : j < i := by
    induction h with
    | single h => exact hinward _ _ h
    | tail _ h ih => exact Nat.lt_trans (hinward _ _ h) ih
  have hacyclic (place : List Nat) (id : ListId) (_ : heap.at? (.list 1) place = some (.list id)) :
      ¬ Relation.TransGen heap.Contains id id :=
    fun hcycle => absurd (hbelow id id hcycle) (Nat.lt_irrefl id)
  have hplain : Rendering.print.render heap (fun _ => false) 3 [] (.list 1) =
      some "[ab, true, ab]" := by decide +kernel
  have hrendered := (Value.renders_unless_recurring heap (.list 1) (by decide : 2 < 3)).2.1 hacyclic
  exact ⟨hacyclic, Option.some.inj (hrendered.print.symm.trans hplain)⟩

end ListScript
