import ListScript.Proofs.Eval.Evolution
import ListScript.Proofs.Scope.Assignment

/-!
# How long constants keep their values

Nothing can be assigned to a constant binding. Its value lies in a slot, though, and where that slot
was shared with a binding that is not constant, an assignment to the other one still reaches it:
`Scopes.constant_overwritten`. `Scopes.constants_kept` says that a constant loses its value in no
other way, as long as the binding is neither removed nor replaced, whatever operations follow.
-/

namespace ListScript

namespace Scopes

/-- An operation on a family of scopes. -/
inductive Operation where
  | newScope
  | newFrame (id : ScopeId)
  | assign (id : ScopeId) (name : String) (value : Value) (mode : BindingMode)
      (limit : Option Nat)
  | declare (id : ScopeId) (name : String) (value : Value)
  | release (id : ScopeId) (name : String)
  | noteOutput (id : ScopeId) (value : Value)

/-- The scopes after an operation. An assignment that fails leaves them as they were. -/
def perform (s : Scopes) : Operation → Scopes
  | .newScope => (s.newScope []).2
  | .newFrame id => (s.newFrame id).2
  | .assign id name value mode limit => (s.assign id name value mode limit).toOption.getD s
  | .declare id name value => s.declare id name value
  | .release id name => s.release id name
  | .noteOutput id value => s.noteOutput id value

/-- The scopes after operations, one after the other. -/
def performAll (s : Scopes) (operations : List Operation) : Scopes := operations.foldl perform s

/-- The operation removes the binding of a name from a scope, or puts another one in its place. -/
def Operation.Replaces (id : ScopeId) (name : String) : Operation → Prop
  | .declare other x _ | .release other x => other = id ∧ x = name
  | _ => False

/-- A binding that is not constant has the slot. -/
def Open (s : Scopes) (slot : SlotId) : Prop :=
  ∃ id name b, s.binding? id name = some b ∧ b.slot = slot ∧ b.isConst = false

/-- An assignment succeeds and leads to other scopes, or fails and changes nothing. -/
theorem perform_assign_cases (s : Scopes) (id : ScopeId) (name : String) (value : Value)
    (mode : BindingMode) (limit : Option Nat) :
    s.assign id name value mode limit = .ok (s.perform (.assign id name value mode limit)) ∨
      s.perform (.assign id name value mode limit) = s := by
  simp only [perform]
  cases s.assign id name value mode limit with
  | ok s' => exact .inl rfl
  | error fault => exact .inr rfl

/-- Performing an operation is a change of the scopes, or none. -/
theorem changes_perform (s : Scopes) (op : Operation) :
    Changes (fun _ => True) s (s.perform op) := by
  cases op with
  | newScope => exact .single (.newScope s)
  | newFrame id => exact .single (.newFrame s id)
  | assign id name value mode limit =>
      rcases perform_assign_cases s id name value mode limit with hok | hsame
      · exact .single (.assign trivial hok)
      · rw [hsame]
  | declare id name value => exact .single (.declare s name value trivial)
  | release id name => exact .single (.release s name trivial)
  | noteOutput id value => exact .single (.noteOutput s value trivial)

/-- Performing operations changes the scopes. -/
theorem changes_performAll (s : Scopes) (operations : List Operation) :
    Changes (fun _ => True) s (s.performAll operations) := by
  induction operations generalizing s with
  | nil => exact .refl
  | cons op rest ih => exact (s.changes_perform op).trans (ih _)

/-- Every change of the scopes is the performance of an operation. -/
theorem Change.exists_perform {writable : ScopeId → Prop} {s s' : Scopes}
    (h : Change writable s s') : ∃ op, s.perform op = s' := by
  cases h with
  | newScope => exact ⟨.newScope, rfl⟩
  | newFrame id => exact ⟨.newFrame id, rfl⟩
  | assign hid h =>
      rename_i id name value mode limit
      refine ⟨.assign id name value mode limit, ?_⟩
      simp only [perform, h]
      rfl
  | declare name value hid => exact ⟨.declare _ name value, rfl⟩
  | release name hid => exact ⟨.release _ name, rfl⟩
  | noteOutput value hid => exact ⟨.noteOutput _ value, rfl⟩

/-- All changes of the scopes are performances of operations. -/
theorem Changes.exists_performAll {writable : ScopeId → Prop} {s s' : Scopes}
    (h : Changes writable s s') : ∃ operations, s.performAll operations = s' := by
  induction h with
  | refl => exact ⟨[], rfl⟩
  | tail _ hchange ih =>
      obtain ⟨operations, rfl⟩ := ih
      obtain ⟨op, rfl⟩ := hchange.exists_perform
      exact ⟨operations ++ [op], List.foldl_append⟩

/-- An operation that neither replaces a scope's binding of a name nor assigns to the name there
leaves the binding as it is. -/
theorem binding?_perform {s : Scopes} {id : ScopeId} {name : String} (hid : id < s.scopes.size)
    {op : Operation} (hop : ¬ op.Replaces id name)
    (hassign : ∀ value mode limit, op ≠ .assign id name value mode limit) :
    (s.perform op).binding? id name = s.binding? id name := by
  cases op with
  | newScope =>
      show (s.newScope []).2.binding? id name = _
      rw [binding?, bindings_newScope, if_neg (Nat.ne_of_lt hid)]
      rfl
  | newFrame other =>
      show (s.newFrame other).2.binding? id name = _
      rw [binding?_newFrame, if_neg (Nat.ne_of_lt hid)]
  | assign other x value mode limit =>
      have hne : ¬ (id = other ∧ name = x) := by
        rintro ⟨rfl, rfl⟩
        exact hassign value mode limit rfl
      rcases perform_assign_cases s other x value mode limit with hok | hsame
      · rcases assign_cases hok with ⟨c, -, -, heq⟩ | ⟨-, heq⟩
        · rw [heq]
          show (s.withBindings other (.insert x (remark c mode limit))).binding? id name = _
          rw [binding?_insert, if_neg fun h => hne ⟨h.1, h.2.1⟩]
        · rw [heq, binding?_bind, if_neg fun h => hne ⟨h.1, h.2.1⟩]
      · rw [hsame]
  | declare other x value =>
      show (s.bind other x value _ _).binding? id name = _
      rw [binding?_bind, if_neg fun h => hop ⟨h.1.symm, h.2.1.symm⟩]
  | release other x =>
      show (s.release other x).binding? id name = _
      rw [binding?_release, if_neg fun h => hop ⟨h.1.symm, h.2.symm⟩]
  | noteOutput other value =>
      show (s.noteOutput other value).binding? id name = _
      rw [binding?, bindings_noteOutput]
      rfl

/-- An operation that does not replace a constant binding keeps it. -/
theorem binding?_perform_of_isConst {s : Scopes} {id : ScopeId} {name : String} {b : Binding}
    (hb : s.binding? id name = some b) (hconst : b.isConst = true) {op : Operation}
    (hop : ¬ op.Replaces id name) : (s.perform op).binding? id name = some b := by
  by_cases hassign : ∃ value mode limit, op = .assign id name value mode limit
  · obtain ⟨value, mode, limit, rfl⟩ := hassign
    rcases perform_assign_cases s id name value mode limit with hok | hsame
    · -- nothing can be assigned to a constant
      rcases assign_cases hok with ⟨c, hc, hopen, -⟩ | ⟨hnone, -⟩
      · cases hb.symm.trans hc
        simp [hconst] at hopen
      · cases hb.symm.trans hnone
    · rw [hsame]
      exact hb
  · rw [binding?_perform (lt_size_of_binding? hb) hop
      fun value mode limit h => hassign ⟨value, mode, limit, h⟩]
    exact hb

/-- An operation changes what a slot holds only by assigning through a binding of the slot that is
not constant. -/
theorem read_perform {s : Scopes} {slot : SlotId} (hslot : slot < s.slots.size) (op : Operation) :
    (s.perform op).read slot = s.read slot ∨
      ∃ id name value mode limit b, op = .assign id name value mode limit ∧
        s.binding? id name = some b ∧ b.slot = slot ∧ b.isConst = false := by
  cases op with
  | newScope | release | noteOutput => exact .inl rfl
  | newFrame id => exact .inl ((extends_inherit s (s.bindings id)).read slot hslot)
  | declare id name value =>
      left
      show (s.bind id name value _ _).read slot = s.read slot
      rw [read_bind, if_neg (Nat.ne_of_lt hslot)]
  | assign id name value mode limit =>
      rcases perform_assign_cases s id name value mode limit with hok | hsame
      · rcases assign_cases hok with ⟨b, hb, hopen, heq⟩ | ⟨-, heq⟩
        · by_cases hsame : b.slot = slot
          · exact .inr ⟨id, name, value, mode, limit, b, rfl, hb, hsame, hopen⟩
          · left
            rw [heq, read_write, if_neg fun h => hsame h.1.symm]
            rfl
        · left
          rw [heq, read_bind, if_neg (Nat.ne_of_lt hslot)]
      · exact .inl (congrArg (read · slot) hsame)

/-- No operation removes a slot. -/
theorem slots_size_le_perform (s : Scopes) (op : Operation) :
    s.slots.size ≤ (s.perform op).slots.size := by
  have hbind (id : ScopeId) (name : String) (value : Value) (mode : BindingMode)
      (limit : Option Nat) : s.slots.size ≤ (s.bind id name value mode limit).slots.size :=
    (extends_newSlot s value).slots
  cases op with
  | newScope | release | noteOutput => exact Nat.le_refl _
  | newFrame id => exact (extends_inherit s (s.bindings id)).slots
  | declare id name value => exact hbind id name value _ _
  | assign id name value mode limit =>
      rcases perform_assign_cases s id name value mode limit with hok | hsame
      · rcases assign_cases hok with ⟨b, -, -, heq⟩ | ⟨-, heq⟩
        · rw [heq]
          simp [write, withBindings]
        · rw [heq]
          exact hbind id name value mode limit
      · exact Nat.le_of_eq (congrArg (·.slots.size) hsame.symm)

/-- Binding a name opens no slot that there was before. -/
theorem open_of_bind {s : Scopes} {slot : SlotId} (hslot : slot < s.slots.size) {id : ScopeId}
    {name : String} {value : Value} {mode : BindingMode} {limit : Option Nat}
    (h : (s.bind id name value mode limit).Open slot) : s.Open slot := by
  obtain ⟨other, x, b, hb, rfl, hopen⟩ := h
  rw [binding?_bind] at hb
  split at hb
  · cases hb
    exact absurd hslot (Nat.lt_irrefl _)
  · exact ⟨other, x, b, hb, rfl, hopen⟩

/-- A frame opens no slot that there was before, since it inherits the marks of bindings. -/
theorem Sound.open_of_newFrame {s : Scopes} (hs : s.Sound) {slot : SlotId}
    (hslot : slot < s.slots.size) {id : ScopeId} (h : (s.newFrame id).2.Open slot) :
    s.Open slot := by
  obtain ⟨other, x, b, hb, rfl, hopen⟩ := h
  rw [binding?_newFrame] at hb
  split at hb
  · obtain ⟨origin, hmem, hmarks, hshared, hfresh⟩ := mem_inherit_eq (Bindings.mem_of_find? hb)
    cases href : origin.isRef with
    | true =>
        rw [hmarks] at hopen
        exact ⟨id, x, origin, Bindings.find?_of_mem (hs.unique id) hmem, (hshared href).symm, hopen⟩
    | false => exact absurd hslot (Nat.not_lt.2 (hfresh href).1)
  · exact ⟨other, x, b, hb, rfl, hopen⟩

/-- No operation opens a slot that there was before: marks are only added and inherited. -/
theorem Sound.open_of_perform {s : Scopes} (hs : s.Sound) {slot : SlotId}
    (hslot : slot < s.slots.size) {op : Operation} (h : (s.perform op).Open slot) :
    s.Open slot := by
  cases op with
  | newFrame id => exact hs.open_of_newFrame hslot h
  | declare id name value => exact open_of_bind hslot h
  | newScope =>
      obtain ⟨other, x, b, hb, rfl, hopen⟩ := h
      change (s.newScope []).2.binding? other x = some b at hb
      rw [binding?, bindings_newScope] at hb
      split at hb
      · cases hb
      · exact ⟨other, x, b, hb, rfl, hopen⟩
  | release id name =>
      obtain ⟨other, x, b, hb, rfl, hopen⟩ := h
      change (s.release id name).binding? other x = some b at hb
      rw [binding?_release] at hb
      split at hb
      · cases hb
      · exact ⟨other, x, b, hb, rfl, hopen⟩
  | noteOutput id value =>
      obtain ⟨other, x, b, hb, rfl, hopen⟩ := h
      change (s.noteOutput id value).binding? other x = some b at hb
      rw [binding?, bindings_noteOutput] at hb
      exact ⟨other, x, b, hb, rfl, hopen⟩
  | assign id name value mode limit =>
      rcases perform_assign_cases s id name value mode limit with hok | hsame
      · rcases assign_cases hok with ⟨c, hc, hcopen, heq⟩ | ⟨-, heq⟩
        · rw [heq] at h
          obtain ⟨other, x, b, hb, rfl, hopen⟩ := h
          change (s.withBindings id (.insert name (remark c mode limit))).binding? other x = some b
            at hb
          rw [binding?_insert] at hb
          split at hb
          · cases hb
            exact ⟨id, name, c, hc, rfl, hcopen⟩
          · exact ⟨other, x, b, hb, rfl, hopen⟩
        · rw [heq] at h
          exact open_of_bind hslot h
      · rwa [hsame] at h

/-- A constant binding stays as long as no operation replaces it. -/
theorem binding?_performAll_of_isConst {s : Scopes} {id : ScopeId} {name : String} {b : Binding}
    (hb : s.binding? id name = some b) (hconst : b.isConst = true) {operations : List Operation}
    (hkept : ∀ op ∈ operations, ¬ op.Replaces id name) :
    (s.performAll operations).binding? id name = some b := by
  induction operations generalizing s with
  | nil => exact hb
  | cons op rest ih =>
      apply ih (binding?_perform_of_isConst hb hconst (hkept op List.mem_cons_self))
      exact fun other hother => hkept other (List.mem_cons_of_mem op hother)

/-- What a slot holds changes only by an assignment through a binding of the slot that is not
constant, and only if there is such a binding at the start. -/
theorem Sound.read_performAll {s : Scopes} (hs : s.Sound) {slot : SlotId}
    (hslot : slot < s.slots.size) (operations : List Operation) :
    (s.performAll operations).read slot = s.read slot ∨
      s.Open slot ∧ ∃ before after id name value mode limit b,
        operations = before ++ .assign id name value mode limit :: after ∧
        (s.performAll before).binding? id name = some b ∧ b.slot = slot ∧ b.isConst = false := by
  induction operations generalizing s with
  | nil => exact .inl rfl
  | cons op rest ih =>
      have hs' : (s.perform op).Sound := (s.changes_perform op).sound hs
      have hslot' := Nat.lt_of_lt_of_le hslot (s.slots_size_le_perform op)
      rcases read_perform hslot op with hread | hwritten
      · rcases ih hs' hslot' with hrest | ⟨hopen, before, after, hwritten⟩
        · exact .inl (hrest.trans hread)
        · obtain ⟨id, name, value, mode, limit, b, rfl, hb⟩ := hwritten
          refine .inr ⟨hs.open_of_perform hslot hopen, op :: before, after, ?_⟩
          exact ⟨id, name, value, mode, limit, b, rfl, hb⟩
      · obtain ⟨id, name, value, mode, limit, b, rfl, hb, heq, hopen⟩ := hwritten
        refine .inr ⟨⟨id, name, b, hb, heq, hopen⟩, [], rest, ?_⟩
        exact ⟨id, name, value, mode, limit, b, rfl, hb, heq, hopen⟩

/-- An assignment through a binding that shares the slot of a constant one, and is not constant
itself, is made in another scope, to the same name, and both bindings are shared. -/
theorem Sound.shared_of_isConst {s : Scopes} (hs : s.Sound) {id other : ScopeId} {name x : String}
    {b c : Binding} (hb : s.binding? id name = some b) (hconst : b.isConst = true)
    (hc : s.binding? other x = some c) (hslot : c.slot = b.slot) (hopen : c.isConst = false) :
    x = name ∧ other ≠ id ∧ b.isRef = true ∧ c.isRef = true := by
  have hne : ¬ (other = id ∧ x = name) := by
    rintro ⟨rfl, rfl⟩
    cases hb.symm.trans hc
    simp [hconst] at hopen
  rcases hs.shared hc hb hslot with hsame | ⟨rfl, hcref, hbref⟩
  · exact absurd hsame hne
  · exact ⟨rfl, fun hid => hne ⟨hid, rfl⟩, hbref, hcref⟩

/-- Under any operations that do not remove or replace it, a constant binding stays as it is, and
its value stays the same unless some binding that is not constant has the slot from the start, and
an assignment to the same name in another scope goes through such a binding. Programs and
expressions do nothing to scopes but such operations. -/
theorem constants_kept :
    (∀ (s : Scopes) (id : ScopeId) (name : String) (b : Binding) (operations : List Operation),
      s.Reachable → s.binding? id name = some b → b.isConst = true →
      (∀ op ∈ operations, ¬ op.Replaces id name) →
      (s.performAll operations).binding? id name = some b ∧
        ((s.performAll operations).lookup? id name = s.lookup? id name ∨
          b.isRef = true ∧ s.Open b.slot ∧
            ∃ before after other value mode limit c,
              operations = before ++ .assign other name value mode limit :: after ∧ other ≠ id ∧
              (s.performAll before).binding? other name = some c ∧ c.slot = b.slot ∧
              c.isRef = true ∧ c.isConst = false)) ∧
    (∀ (session : Session) (program : Block), ∃ operations,
      session.machine.scopes.performAll operations = (session.run program).2.machine.scopes) ∧
    ∀ (session : Session) (e : Expr), ∃ operations,
      session.machine.scopes.performAll operations = (session.evaluate e).2.machine.scopes := by
  refine ⟨?_, fun session program => ?_, fun session e => ?_⟩
  · intro s id name b operations hs hb hconst hkept
    have hb' := binding?_performAll_of_isConst hb hconst hkept
    refine ⟨hb', ?_⟩
    rcases hs.sound.read_performAll (hs.sound.bound hb) operations with hread | ⟨hopen, hwritten⟩
    · left
      rw [lookup?, lookup?, hb', hb, Option.map_some, Option.map_some, hread]
    · right
      obtain ⟨before, after, other, x, value, mode, limit, c, rfl, hc, hslot, hcopen⟩ := hwritten
      have hbefore := binding?_performAll_of_isConst hb hconst
        fun op hop => hkept op (List.mem_append_left _ hop)
      have hsound := (s.changes_performAll before).sound hs.sound
      obtain ⟨rfl, hother, hbref, hcref⟩ := hsound.shared_of_isConst hbefore hconst hc hslot hcopen
      exact ⟨hbref, hopen, before, after, other, value, mode, limit, c, rfl, hother, hc, hslot,
        hcref, hcopen⟩
  · exact (session.run_evolves program).scopes.exists_performAll
  · exact (session.evaluate_evolves e).scopes.exists_performAll

/-- A constant keeps its value when a frame inherits its name and binds it anew, and when an
assignment to it fails. -/
theorem constants_kept_frame :
    let s := none.performAll [.newScope, .assign 0 "x" .null ⟨true, false⟩ Option.none]
    let operations := [.newFrame 0, .declare 1 "x" .null,
      .assign 1 "x" (.boolean false) ⟨false, false⟩ Option.none,
      .assign 0 "x" (.boolean true) ⟨false, false⟩ Option.none]
    s.Reachable ∧ s.binding? 0 "x" = some ⟨0, true, false, Option.none⟩ ∧
      (∀ op ∈ operations, ¬ Operation.Replaces 0 "x" op) ∧
      (s.performAll operations).lookup? 0 "x" = s.lookup? 0 "x" := by
  intro s operations
  have hs : s.Reachable := changes_performAll none _
  have hb : s.binding? 0 "x" = some ⟨0, true, false, Option.none⟩ := by decide
  have hkept : ∀ op ∈ operations, ¬ Operation.Replaces 0 "x" op := by
    simp [operations, Operation.Replaces]
  refine ⟨hs, hb, hkept, ?_⟩
  rcases (constants_kept.1 s 0 "x" _ operations hs hb rfl hkept).2 with hsame | ⟨hshared, -⟩
  · exact hsame
  · cases hshared

/-- A constant does not keep its value for ever: a frame can mark a name as constant whose slot it
shares with the scope that it inherits from, and an assignment there goes through. -/
theorem constant_overwritten :
    ¬ ∀ (s : Scopes) (id : ScopeId) (name : String) (b : Binding) (operations : List Operation),
      s.Reachable → s.binding? id name = some b → b.isConst = true →
      (∀ op ∈ operations, ¬ op.Replaces id name) →
      (s.performAll operations).lookup? id name = s.lookup? id name := by
  intro h
  let s := none.performAll [.newScope, .assign 0 "x" .null ⟨false, true⟩ Option.none,
    .newFrame 0, .assign 1 "x" .null ⟨true, false⟩ Option.none]
  let operations : List Operation :=
    [.assign 0 "x" (.boolean true) ⟨false, false⟩ Option.none]
  have hs : s.Reachable := changes_performAll none _
  have hb : s.binding? 1 "x" = some ⟨0, true, true, Option.none⟩ := by decide
  have hsame := h s 1 "x" _ operations hs hb rfl (by simp [operations, Operation.Replaces])
  have hkinds : (s.lookup? 1 "x").map Value.kind = some .null ∧
      ((s.performAll operations).lookup? 1 "x").map Value.kind = some .boolean := by
    decide +kernel
  rw [hsame, hkinds.1] at hkinds
  cases hkinds.2

end Scopes

end ListScript
