import ListScript.Proofs.Scope.Operations
import Mathlib.Logic.Relation

/-!
# Which bindings share a slot

`Scopes.Change` lists what can happen to a family of scopes, and `Scopes.Reachable` the families
that come about in this way. In each of them names are bound once and two bindings share a slot only
if they have the same name and are marked for it: `Scopes.Reachable.sound`.
-/

namespace ListScript

namespace Scopes

/-- `Change writable s s'` says that one operation leads from `s` to `s'`, and that a scope that it
binds names in, or leaves an output in, is writable. -/
inductive Change (writable : ScopeId → Prop) : Scopes → Scopes → Prop where
  | newScope (s : Scopes) : Change writable s (s.newScope []).2
  | newFrame (s : Scopes) (id : ScopeId) : Change writable s (s.newFrame id).2
  | assign {s s' : Scopes} {id : ScopeId} {name : String} {value : Value} {mode : BindingMode}
      {limit : Option Nat} (hid : writable id) (h : s.assign id name value mode limit = .ok s') :
      Change writable s s'
  | declare (s : Scopes) {id : ScopeId} (name : String) (value : Value) (hid : writable id) :
      Change writable s (s.declare id name value)
  | release (s : Scopes) {id : ScopeId} (name : String) (hid : writable id) :
      Change writable s (s.release id name)
  | noteOutput (s : Scopes) {id : ScopeId} (value : Value) (hid : writable id) :
      Change writable s (s.noteOutput id value)

/-- Any number of operations lead from one family of scopes to the other. -/
abbrev Changes (writable : ScopeId → Prop) : Scopes → Scopes → Prop :=
  Relation.ReflTransGen (Change writable)

/-- A family of scopes that operations on scopes have built up. -/
def Reachable (s : Scopes) : Prop := Changes (fun _ => True) none s

/-- What some scopes allow, more scopes allow. -/
theorem Change.mono {writable writable' : ScopeId → Prop} (hle : ∀ id, writable id → writable' id)
    {s s' : Scopes} (h : Change writable s s') : Change writable' s s' := by
  cases h with
  | newScope => exact .newScope s
  | newFrame id => exact .newFrame s _
  | assign hid h => exact .assign (hle _ hid) h
  | declare name value hid => exact .declare s name value (hle _ hid)
  | release name hid => exact .release s name (hle _ hid)
  | noteOutput value hid => exact .noteOutput s value (hle _ hid)

/-- Every change leads from one reachable family to another. -/
theorem Reachable.changes {writable : ScopeId → Prop} {s s' : Scopes} (hs : s.Reachable)
    (h : Changes writable s s') : s'.Reachable :=
  hs.trans (Relation.ReflTransGen.mono (fun _ _ hchange => hchange.mono fun _ _ => trivial) _ _ h)

/-- Names bound one after the other in a writable scope are changes. -/
theorem changes_foldl_declare {α : Type} {writable : ScopeId → Prop} {id : ScopeId}
    (hid : writable id) (name : α → String) (value : α → Value) (entries : List α) (s : Scopes) :
    Changes writable s
      (entries.foldl (fun s entry => s.declare id (name entry) (value entry)) s) := by
  induction entries generalizing s with
  | nil => exact .refl
  | cons entry rest ih => exact .head (.declare s (name entry) (value entry) hid) (ih _)

/-- A scope with the functions of the host is reachable. -/
theorem reachable_newGlobal {s : Scopes} (h : s.Reachable) : s.newGlobal.2.Reachable :=
  (h.tail (.newScope s)).trans
    (changes_foldl_declare trivial Native.name Value.native [.print, .len, .clock] _)

/-- Names are bound once in each scope, bindings use slots that exist, and two bindings use one slot
only if they have the same name and both are shared. -/
structure Sound (s : Scopes) : Prop where
  unique : ∀ id, (s.bindings id).names.Nodup
  bound : ∀ {id name binding}, s.binding? id name = some binding → binding.slot < s.slots.size
  shared : ∀ {i j x y b c}, s.binding? i x = some b → s.binding? j y = some c → b.slot = c.slot →
    (i = j ∧ x = y) ∨ (x = y ∧ b.isRef = true ∧ c.isRef = true)

/-- A family without scopes is sound. -/
theorem Sound.none : Sound none where
  unique id := by simp [bindings, Scopes.none, Bindings.names]
  bound h := by simp [binding?, bindings, Scopes.none] at h
  shared h := by simp [binding?, bindings, Scopes.none] at h

/-- Soundness depends on the bindings alone, as long as no slot is lost. -/
theorem Sound.of_bindings {s s' : Scopes} (h : s.Sound)
    (hbindings : ∀ id, s'.bindings id = s.bindings id) (hslots : s.slots.size ≤ s'.slots.size) :
    s'.Sound := by
  have hbinding (id : ScopeId) (x : String) : s'.binding? id x = s.binding? id x := by
    rw [binding?, hbindings, ← binding?]
  refine ⟨fun id => ?_, fun hb => ?_, fun hb hc => ?_⟩
  · rw [hbindings]
    exact h.unique id
  · rw [hbinding] at hb
    exact Nat.lt_of_lt_of_le (h.bound hb) hslots
  · rw [hbinding] at hb hc
    exact h.shared hb hc

/-- Another value in a slot keeps scopes sound. -/
theorem Sound.write {s : Scopes} (h : s.Sound) (slot : SlotId) (value : Value) :
    (s.write slot value).Sound :=
  h.of_bindings (fun _ => rfl) (by simp [Scopes.write])

/-- A slot that no binding uses yet does no harm. -/
theorem Sound.newSlot {s : Scopes} (h : s.Sound) (value : Value) : (s.newSlot value).2.Sound :=
  h.of_bindings (fun _ => rfl) (extends_newSlot s value).slots

/-- Remembering an output keeps scopes sound. -/
theorem Sound.noteOutput {s : Scopes} (h : s.Sound) (id : ScopeId) (value : Value) :
    (s.noteOutput id value).Sound :=
  h.of_bindings (bindings_noteOutput s id value) (Nat.le_refl _)

/-- A new scope without bindings keeps scopes sound. -/
theorem Sound.newScope {s : Scopes} (h : s.Sound) : (s.newScope []).2.Sound := by
  refine h.of_bindings (fun id => ?_) (Nat.le_refl _)
  rw [bindings_newScope]
  split
  · next hid => rw [bindings_of_size_le (Nat.le_of_eq hid.symm)]
  · rfl

/-- Removing a name keeps scopes sound. -/
theorem Sound.release {s : Scopes} (h : s.Sound) (id : ScopeId) (name : String) :
    (s.release id name).Sound where
  unique i := by
    rw [Scopes.release, bindings_withBindings]
    split
    · exact Bindings.nodup_erase (h.unique i) name
    · exact h.unique i
  bound hb := by
    rw [binding?_release] at hb
    split at hb
    · cases hb
    · exact h.bound hb
  shared hb hc hslot := by
    rw [binding?_release] at hb hc
    split at hb
    · cases hb
    · split at hc
      · cases hc
      · exact h.shared hb hc hslot

/-- A binding may be inserted if it shares its slot only as soundness allows. -/
theorem Sound.insert {s : Scopes} (h : s.Sound) {id : ScopeId} {name : String} {binding : Binding}
    (hbound : binding.slot < s.slots.size)
    (hshared : ∀ {j y c}, s.binding? j y = some c → binding.slot = c.slot →
      (id = j ∧ name = y) ∨ (name = y ∧ binding.isRef = true ∧ c.isRef = true)) :
    (s.withBindings id (.insert name binding)).Sound where
  unique i := by
    rw [bindings_withBindings]
    split
    · exact Bindings.nodup_insert (h.unique i) name binding
    · exact h.unique i
  bound hb := by
    rw [binding?_insert] at hb
    split at hb
    · cases hb
      exact hbound
    · exact h.bound hb
  shared {i j x y b c} hb hc hslot := by
    rw [binding?_insert] at hb hc
    split at hb
    · next hbnew =>
      cases hb
      split at hc
      · next hcnew => exact .inl ⟨hbnew.1.trans hcnew.1.symm, hbnew.2.1.trans hcnew.2.1.symm⟩
      · rw [hbnew.1, hbnew.2.1]
        exact hshared hc hslot
    · split at hc
      · next hcnew =>
        cases hc
        rw [hcnew.1, hcnew.2.1]
        rcases hshared hb hslot.symm with ⟨hi, hx⟩ | ⟨hx, hnew, hold⟩
        · exact .inl ⟨hi.symm, hx.symm⟩
        · exact .inr ⟨hx.symm, hold, hnew⟩
      · exact h.shared hb hc hslot

/-- Binding a name to a new slot keeps scopes sound. -/
theorem Sound.bind {s : Scopes} (h : s.Sound) (id : ScopeId) (name : String) (value : Value)
    (mode : BindingMode) (limit : Option Nat) : (s.bind id name value mode limit).Sound := by
  refine (h.newSlot value).insert ?_ ?_
  · simp [Scopes.newSlot]
  · intro j y c hc hslot
    exact absurd (h.bound hc) (by simp [← hslot])

/-- An assignment keeps scopes sound: marks are only added, and a new binding has a new slot. -/
theorem Sound.assign {s s' : Scopes} (h : s.Sound) {id : ScopeId} {name : String} {value : Value}
    {mode : BindingMode} {limit : Option Nat} (hs : s.assign id name value mode limit = .ok s') :
    s'.Sound := by
  unfold Scopes.assign at hs
  split at hs
  · next binding hbinding =>
    split at hs
    · cases hs
    · cases hs
      have hbound : (remark binding mode limit).slot < s.slots.size := by
        show binding.slot < s.slots.size
        exact h.bound hbinding
      refine (h.insert hbound ?_).write _ _
      intro j y c hc hslot
      rcases h.shared hbinding hc hslot with hsame | ⟨hname, href, hcref⟩
      · exact .inl hsame
      · exact .inr ⟨hname, by simp [remark, href], hcref⟩
  · cases hs
    exact h.bind id name value mode limit

/-- A frame's own bindings are the inherited ones, and other scopes keep theirs. -/
theorem binding?_newFrame (s : Scopes) (id other : ScopeId) (x : String) :
    (s.newFrame id).2.binding? other x =
      if other = s.scopes.size then (s.inherit (s.bindings id)).1.find? x
      else s.binding? other x := by
  have hscopes := (extends_inherit s (s.bindings id)).scopes
  simp only [newFrame, binding?, bindings_newScope, hscopes]
  split
  · rfl
  · rw [bindings, hscopes, ← bindings]

/-- What an inherited binding shares its slot with is its origin, if that is shared, and whatever
shares its slot with the origin. -/
theorem Sound.shared_inherit {s : Scopes} (h : s.Sound) {id j : ScopeId} {x y : String}
    {b c : Binding} (hb : (s.inherit (s.bindings id)).1.find? x = some b)
    (hc : s.binding? j y = some c) (hslot : b.slot = c.slot) :
    x = y ∧ b.isRef = true ∧ c.isRef = true := by
  obtain ⟨origin, hmem, href, hshared, hfresh⟩ := mem_inherit (Bindings.mem_of_find? hb)
  have horigin : s.binding? id x = some origin := Bindings.find?_of_mem (h.unique id) hmem
  cases hmark : origin.isRef with
  | false => exact absurd (h.bound hc) (Nat.not_lt.2 (hslot ▸ (hfresh hmark).1))
  | true =>
      rw [hshared hmark] at hslot
      rcases h.shared horigin hc hslot with ⟨rfl, rfl⟩ | ⟨hname, -, hcref⟩
      · cases horigin.symm.trans hc
        exact ⟨rfl, href.trans hmark, hmark⟩
      · exact ⟨hname, href.trans hmark, hcref⟩

/-- Inherited bindings that use one slot have the same name. -/
theorem Sound.eq_of_inherit {s : Scopes} (h : s.Sound) {id : ScopeId} {x y : String}
    {b c : Binding} (hb : (s.inherit (s.bindings id)).1.find? x = some b)
    (hc : (s.inherit (s.bindings id)).1.find? y = some c) (hslot : b.slot = c.slot) : x = y := by
  obtain ⟨origin, hmem, href, hshared, hfresh⟩ := mem_inherit (Bindings.mem_of_find? hc)
  have horigin : s.binding? id y = some origin := Bindings.find?_of_mem (h.unique id) hmem
  cases hmark : origin.isRef with
  | true => exact (h.shared_inherit hb horigin (hslot.trans (hshared hmark))).1
  | false =>
      cases hbmark : b.isRef with
      | false =>
          exact eq_of_mem_inherit (Bindings.mem_of_find? hb) (Bindings.mem_of_find? hc) hbmark
            (href.trans hmark) hslot
      | true =>
          -- A shared binding keeps an old slot, so it cannot have the copied one's new slot.
          obtain ⟨other, hother, hbref, hbshared, -⟩ := mem_inherit (Bindings.mem_of_find? hb)
          have hotherSlot := h.bound (Bindings.find?_of_mem (h.unique id) hother)
          rw [← hbshared (hbref ▸ hbmark), hslot] at hotherSlot
          exact absurd hotherSlot (Nat.not_lt.2 (hfresh hmark).1)

/-- Inherited bindings use slots that exist once all of them are inherited. -/
theorem Sound.bound_inherit {s : Scopes} (h : s.Sound) {id : ScopeId} {x : String} {b : Binding}
    (hb : (s.inherit (s.bindings id)).1.find? x = some b) :
    b.slot < (s.inherit (s.bindings id)).2.slots.size := by
  obtain ⟨origin, hmem, -, hshared, hfresh⟩ := mem_inherit (Bindings.mem_of_find? hb)
  cases hmark : origin.isRef with
  | false => exact (hfresh hmark).2
  | true =>
      have horigin : s.binding? id x = some origin := Bindings.find?_of_mem (h.unique id) hmem
      rw [hshared hmark]
      exact Nat.lt_of_lt_of_le (h.bound horigin) (extends_inherit s (s.bindings id)).slots

/-- Opening a frame keeps scopes sound. -/
theorem Sound.newFrame {s : Scopes} (h : s.Sound) (id : ScopeId) : (s.newFrame id).2.Sound := by
  have hextends := extends_inherit s (s.bindings id)
  refine ⟨fun i => ?_, fun {i x b} hb => ?_, fun {i j x y b c} hb hc hslot => ?_⟩
  · rw [Scopes.newFrame, bindings_newScope]
    split
    · exact (h.unique id).sublist (names_inherit_sublist s _)
    · rw [bindings, hextends.scopes, ← bindings]
      exact h.unique i
  · show b.slot < (s.inherit (s.bindings id)).2.slots.size
    rw [binding?_newFrame] at hb
    split at hb
    · exact h.bound_inherit hb
    · exact Nat.lt_of_lt_of_le (h.bound hb) hextends.slots
  · -- Either binding may be the frame's own or one that was there before.
    rw [binding?_newFrame] at hb hc
    split at hb
    · next hi =>
      split at hc
      · next hj => exact .inl ⟨hi.trans hj.symm, h.eq_of_inherit hb hc hslot⟩
      · exact .inr (h.shared_inherit hb hc hslot)
    · split at hc
      · obtain ⟨hname, hcref, hbref⟩ := h.shared_inherit hc hb hslot.symm
        exact .inr ⟨hname.symm, hbref, hcref⟩
      · exact h.shared hb hc hslot

/-- Every change keeps scopes sound. -/
theorem Change.sound {writable : ScopeId → Prop} {s s' : Scopes} (h : Change writable s s')
    (hs : s.Sound) : s'.Sound := by
  cases h with
  | newScope => exact hs.newScope
  | newFrame id => exact hs.newFrame _
  | assign hid h => exact hs.assign h
  | declare name value hid => exact hs.bind _ name value _ _
  | release name hid => exact hs.release _ name
  | noteOutput value hid => exact hs.noteOutput _ value

/-- Changes keep scopes sound. -/
theorem Changes.sound {writable : ScopeId → Prop} {s s' : Scopes} (h : Changes writable s s')
    (hs : s.Sound) : s'.Sound := by
  induction h with
  | refl => exact hs
  | tail _ hchange ih => exact hchange.sound ih

/-- Every reachable family of scopes is sound. -/
theorem Reachable.sound {s : Scopes} (h : s.Reachable) : s.Sound := Changes.sound h .none

/-- No change removes a scope. -/
theorem Change.size_le {writable : ScopeId → Prop} {s s' : Scopes} (h : Change writable s s') :
    s.scopes.size ≤ s'.scopes.size := by
  cases h with
  | newScope => simp [Scopes.newScope]
  | newFrame id =>
      simp [Scopes.newFrame, Scopes.newScope, (extends_inherit s _).scopes]
  | assign hid h =>
      unfold Scopes.assign at h
      split at h
      · split at h
        · cases h
        · cases h
          simp [write, withBindings]
      · cases h
        simp [bind, withBindings, newSlot]
  | declare name value hid => simp [Scopes.declare, bind, withBindings, newSlot]
  | release name hid => simp [Scopes.release, withBindings]
  | noteOutput value hid => simp [Scopes.noteOutput]

/-- No changes remove a scope. -/
theorem Changes.size_le {writable : ScopeId → Prop} {s s' : Scopes} (h : Changes writable s s') :
    s.scopes.size ≤ s'.scopes.size := by
  induction h with
  | refl => exact Nat.le_refl _
  | tail _ hchange ih => exact Nat.le_trans ih hchange.size_le

end Scopes

end ListScript
