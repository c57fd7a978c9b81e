import ListScript.Eval.Basic
import ListScript.Proofs.Value.Renaming

/-!
# Scopes under other identities of lists

Scopes hold values in their slots and remember the last values of programs. Nothing in scopes
depends on the identities of the lists among these values, so every operation on scopes does the
same to scopes in which the lists have other identities. There is one equation for each operation.
-/

namespace ListScript

namespace Scopes

variable (f : ListId ↪ ListId)

/-- The scopes with other identities of lists. -/
def rename (s : Scopes) : Scopes where
  scopes := s.scopes.map fun scope =>
    { scope with lastOutput := scope.lastOutput.map (Value.rename f) }
  slots := s.slots.map (Value.rename f)

/-- A change of one entry of an array passes to the array of images. -/
theorem map_modify {α β : Type} {image : α → β} {change : α → α} {change' : β → β}
    (h : ∀ a, image (change a) = change' (image a)) (entries : Array α) (i : Nat) :
    (entries.modify i change).map image = (entries.map image).modify i change' := by
  refine Array.ext_getElem? fun j => ?_
  rw [Array.getElem?_map, Array.getElem?_modify, Array.getElem?_modify, Array.getElem?_map]
  split
  · simp only [Option.map_map, Function.comp_def, h]
  · rfl

/-- Bindings do not mention lists. -/
theorem bindings_rename (s : Scopes) (id : ScopeId) :
    (s.rename f).bindings id = s.bindings id := by
  simp only [bindings, rename, Array.getElem?_map]
  cases s.scopes[id]? <;> rfl

/-- A binding does not mention lists. -/
theorem binding?_rename (s : Scopes) (id : ScopeId) (name : String) :
    (s.rename f).binding? id name = s.binding? id name := by
  rw [binding?, bindings_rename, ← binding?]

/-- The last value of a scope is renamed. -/
theorem lastOutput?_rename (s : Scopes) (id : ScopeId) :
    (s.rename f).lastOutput? id = (s.lastOutput? id).map (Value.rename f) := by
  simp only [lastOutput?, rename, Array.getElem?_map]
  cases s.scopes[id]? <;> rfl

/-- The value of a slot is renamed. -/
theorem read_rename (s : Scopes) (slot : SlotId) :
    (s.rename f).read slot = (s.read slot).rename f := by
  simp only [read, rename, Array.getD_eq_getD_getElem?, Array.getElem?_map]
  cases s.slots[slot]? <;> rfl

/-- The value of a name is renamed. -/
theorem lookup?_rename (s : Scopes) (id : ScopeId) (name : String) :
    (s.rename f).lookup? id name = (s.lookup? id name).map (Value.rename f) := by
  rw [lookup?, binding?_rename, lookup?]
  cases s.binding? id name with
  | none => rfl
  | some binding => simp [read_rename]

/-- Changing bindings commutes with renaming. -/
theorem withBindings_rename (s : Scopes) (id : ScopeId) (change : Bindings → Bindings) :
    (s.rename f).withBindings id change = (s.withBindings id change).rename f := by
  simp only [withBindings, rename]
  rw [map_modify]
  exact fun _ => rfl

/-- Writing a slot commutes with renaming. -/
theorem write_rename (s : Scopes) (slot : SlotId) (value : Value) :
    (s.rename f).write slot (value.rename f) = (s.write slot value).rename f := by
  simp [write, rename]

/-- Binding a name commutes with renaming. -/
theorem bind_rename (s : Scopes) (id : ScopeId) (name : String) (value : Value)
    (mode : BindingMode) (limit : Option Nat) :
    (s.rename f).bind id name (value.rename f) mode limit =
      (s.bind id name value mode limit).rename f := by
  rw [bind, bind, ← withBindings_rename]
  simp [newSlot, rename]

/-- Storing does the same, or fails in the same way. -/
theorem assign_rename (s : Scopes) (id : ScopeId) (name : String) (value : Value)
    (mode : BindingMode) (limit : Option Nat) :
    (s.rename f).assign id name (value.rename f) mode limit =
      (s.assign id name value mode limit).map (rename f) := by
  rw [assign, binding?_rename, assign]
  cases s.binding? id name with
  | none =>
      dsimp only
      rw [bind_rename]
      rfl
  | some binding =>
      dsimp only
      split
      · rfl
      · rw [withBindings_rename, write_rename]
        rfl

/-- Releasing a name commutes with renaming. -/
theorem release_rename (s : Scopes) (id : ScopeId) (name : String) :
    (s.rename f).release id name = (s.release id name).rename f :=
  withBindings_rename f s id _

/-- Noting the last value commutes with renaming. -/
theorem noteOutput_rename (s : Scopes) (id : ScopeId) (value : Value) :
    (s.rename f).noteOutput id (value.rename f) = (s.noteOutput id value).rename f := by
  simp only [noteOutput, rename]
  rw [map_modify]
  exact fun _ => rfl

/-- A frame inherits the same bindings, and the values that are copied are renamed. -/
theorem inherit_rename (s : Scopes) (bindings : Bindings) :
    (s.rename f).inherit bindings = Prod.map id (rename f) (s.inherit bindings) := by
  induction bindings generalizing s with
  | nil => rfl
  | cons entry rest ih =>
      obtain ⟨name, binding⟩ := entry
      simp only [inherit]
      split
      · exact ih s
      · cases binding.isRef with
        | true =>
            simp only [if_true, ih]
            rfl
        | false =>
            have hslot : (s.rename f).newSlot ((s.rename f).read binding.slot) =
                Prod.map id (rename f) (s.newSlot (s.read binding.slot)) := by
              rw [read_rename]
              simp [newSlot, rename]
            simp only [Bool.false_eq_true, if_false, hslot, Prod.map, id, ih]

/-- Opening a frame commutes with renaming, and gives the same scope. -/
theorem newFrame_rename (s : Scopes) (id : ScopeId) :
    (s.rename f).newFrame id = Prod.map (fun frame => frame) (rename f) (s.newFrame id) := by
  simp only [newFrame, bindings_rename, inherit_rename, newScope]
  simp [rename]

end Scopes

/-- A call's frame binds the parameters to the renamed arguments. -/
theorem Closure.openFrame_rename (f : ListId ↪ ListId) (closure : Closure) (arguments : List Value)
    (s : Scopes) :
    (closure.openFrame (arguments.map (Value.rename f)) (s.rename f)).2 =
      (closure.openFrame arguments s).2.rename f := by
  have hdeclare (frame : ScopeId) (entries : List (String × Value)) (s : Scopes) :
      (entries.map (Prod.map id (Value.rename f))).foldl
          (fun s entry => s.declare frame entry.1 entry.2) (s.rename f) =
        (entries.foldl (fun s entry => s.declare frame entry.1 entry.2) s).rename f := by
    induction entries generalizing s with
    | nil => rfl
    | cons entry entries ih =>
        rw [List.map_cons, List.foldl_cons, List.foldl_cons, ← ih]
        congr 1
        exact s.bind_rename f frame entry.1 entry.2 _ _
  simp only [openFrame, Scopes.newFrame_rename, List.zip_map_right]
  exact hdeclare _ _ _

end ListScript
