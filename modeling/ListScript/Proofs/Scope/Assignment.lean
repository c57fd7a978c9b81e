import ListScript.Proofs.Scope.Sharing

/-!
# What an assignment changes

An assignment writes the slot of a binding, or makes a binding with a slot of its own. Because slots
are shared only as `Scopes.Sound` allows, what it changes is the value of that one name, in its own
scope and in the scopes whose binding of the name has the same slot:
`Scopes.Reachable.slot_sharing`.
-/

namespace ListScript

namespace Scopes

/-- Two scopes bind a name to the same slot. -/
def SharesSlot (s : Scopes) (i j : ScopeId) (name : String) : Prop :=
  ∃ b c, s.binding? i name = some b ∧ s.binding? j name = some c ∧ b.slot = c.slot

/-- A successful assignment went through a binding that is not constant, or made a new one. -/
theorem assign_cases {s s' : Scopes} {id : ScopeId} {name : String} {value : Value}
    {mode : BindingMode} {limit : Option Nat} (h : s.assign id name value mode limit = .ok s') :
    (∃ b, s.binding? id name = some b ∧ b.isConst = false ∧
      s' = (s.withBindings id (.insert name (remark b mode limit))).write b.slot value) ∨
    (s.binding? id name = Option.none ∧ s' = s.bind id name value mode limit) := by
  unfold assign at h
  split at h
  · next b hb =>
    cases hconst : b.isConst with
    | true =>
        rw [hconst, if_pos rfl] at h
        cases h
    | false =>
        rw [hconst, if_neg Bool.false_ne_true] at h
        cases h
        exact .inl ⟨b, hb, hconst, rfl⟩
  · next hb =>
    cases h
    exact .inr ⟨hb, rfl⟩

/-- A scope that binds a name exists. -/
theorem lt_size_of_binding? {s : Scopes} {id : ScopeId} {name : String} {b : Binding}
    (h : s.binding? id name = some b) : id < s.scopes.size := by
  rcases Nat.lt_or_ge id s.scopes.size with hlt | hle
  · exact hlt
  · rw [binding?, bindings_of_size_le hle] at h
    cases h

/-- Only the bound name of the scope has another binding, and that has a new slot. -/
theorem binding?_bind (s : Scopes) (id : ScopeId) (name : String) (value : Value)
    (mode : BindingMode) (limit : Option Nat) (other : ScopeId) (x : String) :
    (s.bind id name value mode limit).binding? other x =
      if other = id ∧ x = name ∧ id < s.scopes.size then
        some ⟨s.slots.size, mode.isConst, mode.isRef, limit⟩
      else s.binding? other x :=
  binding?_insert (s.newSlot value).2 id name _ other x

/-- Binding a name leaves what the slots hold. -/
theorem read_bind (s : Scopes) (id : ScopeId) (name : String) (value : Value) (mode : BindingMode)
    (limit : Option Nat) (slot : SlotId) :
    (s.bind id name value mode limit).read slot =
      if slot = s.slots.size then value else s.read slot :=
  read_newSlot s value slot

/-- Binding a name changes the value of that name in that scope. -/
theorem Sound.lookup?_bind {s : Scopes} (hs : s.Sound) (id : ScopeId) (name : String)
    (value : Value) (mode : BindingMode) (limit : Option Nat) (other : ScopeId) (x : String) :
    (s.bind id name value mode limit).lookup? other x =
      if other = id ∧ x = name ∧ id < s.scopes.size then some value else s.lookup? other x := by
  rw [lookup?, binding?_bind]
  split
  · simp [read_bind]
  · rw [lookup?]
    cases hc : s.binding? other x with
    | none => rfl
    | some c =>
        have hslot : c.slot ≠ s.slots.size := Nat.ne_of_lt (hs.bound hc)
        simp [read_bind, hslot]

/-- An assignment through a binding changes the value of whatever uses the binding's slot. -/
theorem Sound.lookup?_assign_binding {s : Scopes} (hs : s.Sound) {id : ScopeId} {name : String}
    {b : Binding} (hb : s.binding? id name = some b) (value : Value) (mode : BindingMode)
    (limit : Option Nat) (other : ScopeId) (x : String) :
    ((s.withBindings id (.insert name (remark b mode limit))).write b.slot value).lookup? other x =
      (s.binding? other x).map fun c => if c.slot = b.slot then value else s.read c.slot := by
  have hread (slot : SlotId) :
      ((s.withBindings id (.insert name (remark b mode limit))).write b.slot value).read slot =
        if slot = b.slot then value else s.read slot := by
    rw [read_write]
    by_cases hslot : slot = b.slot
    · rw [if_pos ⟨hslot, hs.bound hb⟩, if_pos hslot]
    · rw [if_neg fun h => hslot h.1, if_neg hslot]
      rfl
  rw [lookup?]
  simp only [hread]
  show ((s.withBindings id (.insert name (remark b mode limit))).binding? other x).map _ = _
  rw [binding?_insert]
  split
  · next hsame =>
    -- The written binding keeps its slot when it gets new marks.
    obtain ⟨rfl, rfl, -⟩ := hsame
    rw [hb]
    rfl
  · rfl

/-- Where an assigned name has its slot shared, the name has the assigned value afterwards. -/
theorem Sound.lookup?_assign_of_shares {s s' : Scopes} (hs : s.Sound) {id : ScopeId}
    {name : String} {value : Value} {mode : BindingMode} {limit : Option Nat}
    (h : s.assign id name value mode limit = .ok s') (hid : id < s.scopes.size) {other : ScopeId}
    (hother : other = id ∨ s.SharesSlot id other name) : s'.lookup? other name = some value := by
  rcases assign_cases h with ⟨b, hb, -, rfl⟩ | ⟨hnone, rfl⟩
  · rw [hs.lookup?_assign_binding hb]
    rcases hother with rfl | ⟨b', c, hb', hc, hslot⟩
    · simp [hb]
    · cases hb.symm.trans hb'
      simp [hc, hslot]
  · rw [hs.lookup?_bind]
    rcases hother with rfl | ⟨b, c, hb, -, -⟩
    · rw [if_pos ⟨rfl, rfl, hid⟩]
    · cases hnone.symm.trans hb

/-- Everywhere else an assignment leaves the values of names alone. -/
theorem Sound.lookup?_assign_of_not {s s' : Scopes} (hs : s.Sound) {id : ScopeId} {name : String}
    {value : Value} {mode : BindingMode} {limit : Option Nat}
    (h : s.assign id name value mode limit = .ok s') {other : ScopeId} {x : String}
    (hother : ¬ (x = name ∧ (other = id ∨ s.SharesSlot id other name))) :
    s'.lookup? other x = s.lookup? other x := by
  rcases assign_cases h with ⟨b, hb, -, rfl⟩ | ⟨hnone, rfl⟩
  · rw [hs.lookup?_assign_binding hb, lookup?]
    cases hc : s.binding? other x with
    | none => rfl
    | some c =>
        -- A binding with the written slot has the written name.
        have hslot : c.slot ≠ b.slot := by
          intro heq
          rcases hs.shared hc hb heq with ⟨rfl, rfl⟩ | ⟨rfl, -, -⟩
          · exact hother ⟨rfl, .inl rfl⟩
          · exact hother ⟨rfl, .inr ⟨b, c, hb, hc, heq.symm⟩⟩
        simp [hslot]
  · rw [hs.lookup?_bind, if_neg]
    rintro ⟨rfl, rfl, -⟩
    exact hother ⟨rfl, .inl rfl⟩

/-- In every family of scopes that operations have built up, two bindings with one slot have the
same name and are both shared. A successful assignment therefore gives its name the new value in
its own scope and wherever the name has the same slot, and leaves every other name of every scope
its value. -/
theorem Reachable.slot_sharing {s : Scopes} (hs : s.Reachable) :
    (∀ i j x y b c, s.binding? i x = some b → s.binding? j y = some c → (i, x) ≠ (j, y) →
      b.slot = c.slot → x = y ∧ b.isRef = true ∧ c.isRef = true) ∧
    ∀ id name value mode limit s', id < s.scopes.size →
      s.assign id name value mode limit = .ok s' →
      (∀ other, other = id ∨ s.SharesSlot id other name → s'.lookup? other name = some value) ∧
      ∀ other x, ¬ (x = name ∧ (other = id ∨ s.SharesSlot id other name)) →
        s'.lookup? other x = s.lookup? other x := by
  constructor
  · intro i j x y b c hb hc hne hslot
    rcases hs.sound.shared hb hc hslot with ⟨rfl, rfl⟩ | hshared
    · exact absurd rfl hne
    · exact hshared
  · intro id name value mode limit s' hid h
    refine ⟨fun other hother => ?_, fun other x hother => ?_⟩
    · exact hs.sound.lookup?_assign_of_shares h hid hother
    · exact hs.sound.lookup?_assign_of_not h hother

/-- A frame sees what is assigned to a shared name of the scope that it inherits from. -/
theorem Reachable.slot_sharing_frame :
    let s := (((none.newScope []).2.bind 0 "x" .null ⟨false, true⟩ Option.none).newFrame 0).2
    s.Reachable ∧ 0 < s.scopes.size ∧ s.SharesSlot 0 1 "x" ∧
      ∃ s', s.assign 0 "x" (.boolean true) ⟨false, false⟩ Option.none = .ok s' ∧
        s'.lookup? 1 "x" = some (.boolean true) := by
  intro s
  have hassign : (none.newScope []).2.assign 0 "x" .null ⟨false, true⟩ Option.none =
      .ok ((none.newScope []).2.bind 0 "x" .null ⟨false, true⟩ Option.none) := rfl
  have hs : s.Reachable :=
    ((Relation.ReflTransGen.single (.newScope none)).tail (.assign trivial hassign)).tail
      (.newFrame _ 0)
  have hid : 0 < s.scopes.size := by decide
  have hshares : s.SharesSlot 0 1 "x" :=
    ⟨⟨0, false, true, Option.none⟩, ⟨0, false, true, Option.none⟩, by decide, by decide, rfl⟩
  refine ⟨hs, hid, hshares, _, rfl, ?_⟩
  exact (hs.slot_sharing.2 0 "x" (.boolean true) ⟨false, false⟩ Option.none _ hid rfl).1 1
    (.inr hshares)

end Scopes

end ListScript
