import ListScript.Scope.Basic

/-!
# What the operations on scopes do

Each operation is read through two views: the binding that a scope has for a name, and the value
that a slot holds. A frame inherits through `Scopes.inherit`; `Scopes.mem_inherit` says where each
of its bindings comes from, and `Scopes.extends_inherit` that nothing older changes.
-/

namespace ListScript

namespace Bindings

/-- Binding a name anew adds it at the end unless it was bound. -/
theorem names_insert (name : String) (binding : Binding) (bindings : Bindings) :
    (insert name binding bindings).names =
      if name ∈ bindings.names then bindings.names else bindings.names ++ [name] := by
  induction bindings with
  | nil => simp [insert, names]
  | cons head rest ih =>
      obtain ⟨other, old⟩ := head
      by_cases h : name = other
      · simp [insert, names, h]
      · by_cases hrest : name ∈ names rest
        · simp_all [insert, names]
        · simp_all [insert, names]

/-- Binding a name anew keeps names bound at most once. -/
theorem nodup_insert {bindings : Bindings} (h : bindings.names.Nodup) (name : String)
    (binding : Binding) : (insert name binding bindings).names.Nodup := by
  rw [names_insert]
  split
  · exact h
  · next hname => exact List.nodup_append.2 ⟨h, by simp, by grind⟩

/-- Removing a name keeps names bound at most once. -/
theorem nodup_erase {bindings : Bindings} (h : bindings.names.Nodup) (name : String) :
    (erase name bindings).names.Nodup :=
  h.sublist (List.Sublist.map _ List.filter_sublist)

/-- The binding that is found for a name is one of the bindings. -/
theorem mem_of_find? {bindings : Bindings} {name : String} {binding : Binding}
    (h : bindings.find? name = some binding) : (name, binding) ∈ bindings := by
  induction bindings with
  | nil => simp at h
  | cons head rest ih =>
      obtain ⟨other, old⟩ := head
      rw [find?_cons] at h
      split at h
      · next heq =>
        cases h
        simp [heq]
      · exact List.mem_cons_of_mem _ (ih h)

/-- Where names are bound at most once, each binding is the one found for its name. -/
theorem find?_of_mem {bindings : Bindings} (hnodup : bindings.names.Nodup) {name : String}
    {binding : Binding} (h : (name, binding) ∈ bindings) :
    bindings.find? name = some binding := by
  induction bindings with
  | nil => simp at h
  | cons head rest ih =>
      obtain ⟨other, old⟩ := head
      obtain ⟨hother, hrest⟩ := List.nodup_cons.1 hnodup
      rw [find?_cons]
      rcases List.mem_cons.1 h with hhead | htail
      · cases hhead
        rw [if_pos rfl]
      · have hne : name ≠ other := by
          rintro rfl
          exact hother (List.mem_map.2 ⟨_, htail, rfl⟩)
        rw [if_neg hne]
        exact ih hrest htail

end Bindings

namespace Scopes

/-- Only the changed scope has other bindings. -/
theorem bindings_withBindings (s : Scopes) (id : ScopeId) (change : Bindings → Bindings)
    (other : ScopeId) : (s.withBindings id change).bindings other =
      if other = id ∧ id < s.scopes.size then change (s.bindings other) else s.bindings other := by
  simp only [bindings, withBindings, Array.getElem?_modify]
  by_cases h : id = other
  · subst h
    by_cases hid : id < s.scopes.size
    · simp [hid]
    · simp [hid]
  · simp [h, Ne.symm h]

/-- A scope that does not exist binds nothing. -/
theorem bindings_of_size_le {s : Scopes} {id : ScopeId} (h : s.scopes.size ≤ id) :
    s.bindings id = [] := by
  simp [bindings, Array.getElem?_eq_none h]

/-- A new scope has its bindings, and the others keep theirs. -/
theorem bindings_newScope (s : Scopes) (bindings : Bindings) (id : ScopeId) :
    (s.newScope bindings).2.bindings id =
      if id = s.scopes.size then bindings else s.bindings id := by
  simp only [Scopes.bindings, newScope, Array.getElem?_push]
  by_cases h : id = s.scopes.size
  · simp [h]
  · simp [h]

/-- Remembering an output leaves all bindings alone. -/
theorem bindings_noteOutput (s : Scopes) (id : ScopeId) (value : Value) (other : ScopeId) :
    (s.noteOutput id value).bindings other = s.bindings other := by
  simp only [bindings, noteOutput, Array.getElem?_modify]
  by_cases h : id = other
  · subst h
    cases s.scopes[id]? <;> simp
  · simp [h]

/-- Other bindings in a scope leave all outputs alone. -/
theorem lastOutput?_withBindings (s : Scopes) (id : ScopeId) (change : Bindings → Bindings)
    (other : ScopeId) : (s.withBindings id change).lastOutput? other = s.lastOutput? other := by
  simp only [lastOutput?, withBindings, Array.getElem?_modify]
  by_cases h : id = other
  · subst h
    cases s.scopes[id]? <;> simp
  · simp [h]

/-- Remembering an output in one scope leaves the others alone. -/
theorem lastOutput?_noteOutput_of_ne (s : Scopes) {id other : ScopeId} (value : Value)
    (h : other ≠ id) : (s.noteOutput id value).lastOutput? other = s.lastOutput? other := by
  simp [lastOutput?, noteOutput, Array.getElem?_modify, Ne.symm h]

/-- A new scope has yielded nothing, and the others what they had. -/
theorem lastOutput?_newScope_of_lt (s : Scopes) (bindings : Bindings) {id : ScopeId}
    (h : id < s.scopes.size) : (s.newScope bindings).2.lastOutput? id = s.lastOutput? id := by
  simp [lastOutput?, newScope, Array.getElem?_push, Nat.ne_of_lt h]

/-- Only the written slot holds another value. -/
theorem read_write (s : Scopes) (slot : SlotId) (value : Value) (other : SlotId) :
    (s.write slot value).read other =
      if other = slot ∧ slot < s.slots.size then value else s.read other := by
  simp only [read, write, Array.getD_eq_getD_getElem?, Array.getElem?_setIfInBounds]
  grind

/-- A new slot holds its value, and the others what they held. -/
theorem read_newSlot (s : Scopes) (value : Value) (slot : SlotId) :
    (s.newSlot value).2.read slot = if slot = s.slots.size then value else s.read slot := by
  simp only [read, newSlot, Array.getD_eq_getD_getElem?, Array.getElem?_push]
  split <;> rfl

/-- Only the released name of the scope loses its binding. -/
theorem binding?_release (s : Scopes) (id : ScopeId) (name : String) (other : ScopeId)
    (x : String) : (s.release id name).binding? other x =
      if other = id ∧ x = name then Option.none else s.binding? other x := by
  simp only [binding?, release, bindings_withBindings]
  by_cases h : other = id
  · subst h
    by_cases hid : other < s.scopes.size
    · simp [hid, Bindings.find?_erase]
    · simp [hid, bindings_of_size_le (Nat.le_of_not_lt hid)]
  · simp [h]

/-- Only the inserted name of the scope has another binding. -/
theorem binding?_insert (s : Scopes) (id : ScopeId) (name : String) (binding : Binding)
    (other : ScopeId) (x : String) :
    (s.withBindings id (.insert name binding)).binding? other x =
      if other = id ∧ x = name ∧ id < s.scopes.size then some binding else s.binding? other x := by
  simp only [binding?, bindings_withBindings]
  by_cases h : other = id ∧ id < s.scopes.size
  · obtain ⟨rfl, hid⟩ := h
    simp [hid, Bindings.find?_insert]
  · rw [if_neg h, if_neg fun h' => h ⟨h'.1, h'.2.2⟩]

/-- The scopes are the same, and all slots hold what they held; there may be more slots. -/
structure Extends (s s' : Scopes) : Prop where
  scopes : s'.scopes = s.scopes
  slots : s.slots.size ≤ s'.slots.size
  read : ∀ slot < s.slots.size, s'.read slot = s.read slot

/-- Scopes extend themselves. -/
theorem Extends.refl (s : Scopes) : Extends s s := ⟨rfl, Nat.le_refl _, fun _ _ => rfl⟩

/-- Extensions compose. -/
theorem Extends.trans {s s' s'' : Scopes} (h : Extends s s') (h' : Extends s' s'') :
    Extends s s'' where
  scopes := h'.scopes.trans h.scopes
  slots := Nat.le_trans h.slots h'.slots
  read slot hslot := (h'.read slot (Nat.lt_of_lt_of_le hslot h.slots)).trans (h.read slot hslot)

/-- A new slot is an extension. -/
theorem extends_newSlot (s : Scopes) (value : Value) : Extends s (s.newSlot value).2 where
  scopes := rfl
  slots := by simp [newSlot]
  read slot hslot := by rw [read_newSlot, if_neg (Nat.ne_of_lt hslot)]

/-- The slot of one inherited binding: the old one if the binding is shared, or else a new one. -/
theorem inherit_slot {s s' : Scopes} {binding : Binding} {slot : SlotId}
    (h : (if binding.isRef = true then (binding.slot, s) else s.newSlot (s.read binding.slot)) =
      (slot, s')) :
    Extends s s' ∧ (binding.isRef = true → slot = binding.slot) ∧
      (binding.isRef = false → slot = s.slots.size ∧ s.slots.size < s'.slots.size) := by
  cases href : binding.isRef with
  | true =>
      rw [href, if_pos rfl] at h
      cases h
      exact ⟨.refl s, fun _ => rfl, nofun⟩
  | false =>
      rw [href, if_neg (by simp)] at h
      cases h
      exact ⟨extends_newSlot s _, nofun, fun _ => ⟨rfl, by simp⟩⟩

/-- Inheriting only adds slots. -/
theorem extends_inherit (s : Scopes) (bindings : Bindings) :
    Extends s (s.inherit bindings).2 := by
  fun_induction inherit s bindings with
  | case1 => exact .refl _
  | case2 s name binding rest hlimit ih => exact ih
  | case3 s name binding rest hlimit limit slot s' hslot rest' s'' hrest ih =>
      rw [hrest] at ih
      exact (inherit_slot hslot).1.trans ih

/-- Inherited names are names of the origin, in the same order. -/
theorem names_inherit_sublist (s : Scopes) (bindings : Bindings) :
    (s.inherit bindings).1.names.Sublist bindings.names := by
  fun_induction inherit s bindings with
  | case1 => exact .slnil
  | case2 s name binding rest hlimit ih => exact ih.cons _
  | case3 s name binding rest hlimit limit slot s' hslot rest' s'' hrest ih =>
      rw [hrest] at ih
      exact ih.cons_cons _

/-- An inherited binding comes from one of the same name. It has that binding's marks and one frame
less to go. It has that binding's slot if that is shared, and a new slot otherwise. -/
theorem mem_inherit_eq {s : Scopes} {bindings : Bindings} {name : String} {binding : Binding}
    (h : (name, binding) ∈ (s.inherit bindings).1) :
    ∃ origin, (name, origin) ∈ bindings ∧
      binding = { origin with slot := binding.slot, limit := origin.limit.map (· - 1) } ∧
      (origin.isRef = true → binding.slot = origin.slot) ∧
      (origin.isRef = false → s.slots.size ≤ binding.slot ∧
        binding.slot < (s.inherit bindings).2.slots.size) := by
  fun_induction inherit s bindings with
  | case1 => simp at h
  | case2 s other old rest hlimit ih =>
      obtain ⟨origin, hmem, horigin⟩ := ih h
      exact ⟨origin, List.mem_cons_of_mem _ hmem, horigin⟩
  | case3 s other old rest hlimit limit slot s' hslot rest' s'' hrest ih =>
      obtain ⟨hextends, hshared, hfresh⟩ := inherit_slot hslot
      have hsize := (extends_inherit s' rest).slots
      rw [hrest] at ih hsize
      rcases List.mem_cons.1 h with hhead | htail
      · cases hhead
        refine ⟨old, List.mem_cons_self, rfl, hshared, fun href => ?_⟩
        obtain ⟨rfl, hlt⟩ := hfresh href
        exact ⟨Nat.le_refl _, Nat.lt_of_lt_of_le hlt hsize⟩
      · obtain ⟨origin, hmem, hmarks, hold, hnew⟩ := ih htail
        refine ⟨origin, List.mem_cons_of_mem _ hmem, hmarks, hold, fun h => ?_⟩
        exact ⟨Nat.le_trans hextends.slots (hnew h).1, (hnew h).2⟩

/-- An inherited binding is shared if the one that it comes from is. -/
theorem mem_inherit {s : Scopes} {bindings : Bindings} {name : String} {binding : Binding}
    (h : (name, binding) ∈ (s.inherit bindings).1) :
    ∃ origin, (name, origin) ∈ bindings ∧ binding.isRef = origin.isRef ∧
      (origin.isRef = true → binding.slot = origin.slot) ∧
      (origin.isRef = false → s.slots.size ≤ binding.slot ∧
        binding.slot < (s.inherit bindings).2.slots.size) := by
  obtain ⟨origin, hmem, hmarks, hslots⟩ := mem_inherit_eq h
  have href : binding.isRef = origin.isRef := by rw [hmarks]
  exact ⟨origin, hmem, href, hslots⟩

/-- No two names inherit the same new slot. -/
theorem eq_of_mem_inherit {s : Scopes} {bindings : Bindings} {x y : String} {b c : Binding}
    (hb : (x, b) ∈ (s.inherit bindings).1) (hc : (y, c) ∈ (s.inherit bindings).1)
    (hbref : b.isRef = false) (hcref : c.isRef = false) (hslot : b.slot = c.slot) : x = y := by
  fun_induction inherit s bindings with
  | case1 => simp at hb
  | case2 s name binding rest hlimit ih => exact ih hb hc
  | case3 s name binding rest hlimit limit slot s' hs rest' s'' hrest ih =>
      rw [hrest] at ih
      -- the head's new slot is older than any that the rest gets
      have hapart {z : String} {d : Binding} (hd : (z, d) ∈ rest') (href : d.isRef = false)
          (hold : binding.isRef = false) : slot ≠ d.slot := by
        have hd : (z, d) ∈ (s'.inherit rest).1 := by rwa [hrest]
        obtain ⟨origin, -, horigin, -, hnew⟩ := mem_inherit hd
        obtain ⟨rfl, hlt⟩ := (inherit_slot hs).2.2 hold
        exact Nat.ne_of_lt (Nat.lt_of_lt_of_le hlt (hnew (horigin ▸ href)).1)
      rcases List.mem_cons.1 hb with hbhead | hbtail
      · cases hbhead
        rcases List.mem_cons.1 hc with hchead | hctail
        · cases hchead
          rfl
        · exact absurd hslot (hapart hctail hcref hbref)
      · rcases List.mem_cons.1 hc with hchead | hctail
        · cases hchead
          exact absurd hslot.symm (hapart hbtail hbref hcref)
        · exact ih hbtail hctail

end Scopes

end ListScript
