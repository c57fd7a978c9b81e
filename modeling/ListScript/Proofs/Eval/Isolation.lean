import ListScript.Proofs.Eval.Evolution

/-!
# Calls are isolated

A call works in a frame of its own. `Closure.call_isolated` says that it leaves every scope that
existed before with its bindings and their marks, with its last output, and with the values of all
bindings that are not shared, however it ends and whatever its body does.
-/

namespace ListScript

namespace Scopes

/-- A scope is as it was, but for the values of shared bindings. -/
structure Untouched (s s' : Scopes) (id : ScopeId) : Prop where
  bindings : s'.bindings id = s.bindings id
  lastOutput : s'.lastOutput? id = s.lastOutput? id
  read : ∀ {name binding}, s.binding? id name = some binding → binding.isRef = false →
    s'.read binding.slot = s.read binding.slot

/-- Nothing is touched where nothing happens. -/
theorem Untouched.refl (s : Scopes) (id : ScopeId) : Untouched s s id :=
  ⟨rfl, rfl, fun _ _ => rfl⟩

/-- What is touched neither first nor later is not touched. -/
theorem Untouched.trans {s s' s'' : Scopes} {id : ScopeId} (h : Untouched s s' id)
    (h' : Untouched s' s'' id) : Untouched s s'' id where
  bindings := h'.bindings.trans h.bindings
  lastOutput := h'.lastOutput.trans h.lastOutput
  read {name binding} hb href := by
    have hb' : s'.binding? id name = some binding := by rwa [binding?, h.bindings]
    exact (h'.read hb' href).trans (h.read hb href)

/-- A new slot and another binding elsewhere touch nothing. -/
theorem untouched_bind {s : Scopes} (hs : s.Sound) {id other : ScopeId} (hid : id ≠ other)
    (name : String) (value : Value) (mode : BindingMode) (limit : Option Nat) :
    Untouched s (s.bind other name value mode limit) id where
  bindings := by
    rw [bind, bindings_withBindings, if_neg fun h => hid h.1]
    rfl
  lastOutput := by
    rw [bind, lastOutput?_withBindings]
    rfl
  read hb _ := (extends_newSlot s value).read _ (hs.bound hb)

/-- An assignment touches no scope but its own: what else uses its slot is shared. -/
theorem untouched_assign {s s' : Scopes} (hs : s.Sound) {id other : ScopeId} (hid : id ≠ other)
    {name : String} {value : Value} {mode : BindingMode} {limit : Option Nat}
    (h : s.assign other name value mode limit = .ok s') : Untouched s s' id := by
  unfold assign at h
  split at h
  · next binding hbinding =>
    split at h
    · cases h
    · cases h
      refine ⟨?_, ?_, fun {x b} hb href => ?_⟩
      · exact (bindings_withBindings s other _ id).trans (if_neg fun h => hid h.1)
      · exact lastOutput?_withBindings s other _ id
      · -- A binding elsewhere with the written slot would be marked as shared.
        have hslot : b.slot ≠ binding.slot := by
          intro heq
          rcases hs.shared hb hbinding heq with ⟨hsame, -⟩ | ⟨-, hshared, -⟩
          · exact hid hsame
          · simp [href] at hshared
        rw [read_write, if_neg fun h => hslot h.1]
        rfl
  · cases h
    exact untouched_bind hs hid name value mode limit

/-- A change touches no existing scope that is not writable. -/
theorem Change.untouched {writable : ScopeId → Prop} {s s' : Scopes} (h : Change writable s s')
    (hs : s.Sound) {id : ScopeId} (hid : ¬ writable id) (hlt : id < s.scopes.size) :
    Untouched s s' id := by
  have hne {other : ScopeId} (hother : writable other) : id ≠ other :=
    fun heq => hid (heq ▸ hother)
  cases h with
  | newScope =>
      refine ⟨?_, lastOutput?_newScope_of_lt s [] hlt, fun _ _ => rfl⟩
      rw [bindings_newScope, if_neg (Nat.ne_of_lt hlt)]
  | newFrame other =>
      have hextends := extends_inherit s (s.bindings other)
      refine ⟨?_, ?_, fun hb _ => hextends.read _ (hs.bound hb)⟩
      · rw [Scopes.newFrame, bindings_newScope, hextends.scopes, if_neg (Nat.ne_of_lt hlt),
          bindings, hextends.scopes, ← bindings]
      · rw [Scopes.newFrame, lastOutput?_newScope_of_lt _ _ (hextends.scopes ▸ hlt), lastOutput?,
          hextends.scopes, ← lastOutput?]
  | assign hother h => exact untouched_assign hs (hne hother) h
  | declare name value hother => exact untouched_bind hs (hne hother) name value _ _
  | release name hother =>
      refine ⟨?_, lastOutput?_withBindings s _ _ id, fun _ _ => rfl⟩
      rw [Scopes.release, bindings_withBindings, if_neg fun h => hne hother h.1]
  | noteOutput value hother =>
      exact ⟨bindings_noteOutput s _ value id, lastOutput?_noteOutput_of_ne s value (hne hother),
        fun _ _ => rfl⟩

/-- Changes touch no existing scope that is not writable. -/
theorem Changes.untouched {writable : ScopeId → Prop} {s s' : Scopes} (h : Changes writable s s')
    (hs : s.Sound) {id : ScopeId} (hid : ¬ writable id) (hlt : id < s.scopes.size) :
    s'.Sound ∧ Untouched s s' id := by
  induction h with
  | refl => exact ⟨hs, .refl s id⟩
  | tail hchanges hchange ih =>
      obtain ⟨hsound, huntouched⟩ := ih
      have hlt' := Nat.lt_of_lt_of_le hlt (Changes.size_le hchanges)
      exact ⟨hchange.sound hsound, huntouched.trans (hchange.untouched hsound hid hlt')⟩

end Scopes

/-- A call leaves every scope that existed before it with exactly its bindings, each with its marks,
its limit and its slot, with its last output, and with the value of every binding that is not
shared. The scopes before the call may be any that operations on scopes have built up, and so any
that programs reach. -/
theorem Closure.call_isolated (config : Config) (free : Nat) (closure : Closure)
    (arguments : List Value) (span : Span) (m : Machine) (hm : m.scopes.Reachable) (id : ScopeId)
    (hid : id < m.scopes.scopes.size) :
    let scopes := ((call config free closure arguments span).after m).scopes
    scopes.bindings id = m.scopes.bindings id ∧
      scopes.lastOutput? id = m.scopes.lastOutput? id ∧
      ∀ name binding, m.scopes.binding? id name = some binding → binding.isRef = false →
        scopes.lookup? id name = m.scopes.lookup? id name := by
  have hchanges := (call_evolving config free closure arguments span m).scopes
  have hfree : ¬ (False ∨ m.scopes.scopes.size ≤ id) := by
    simpa using hid
  obtain ⟨-, huntouched⟩ := hchanges.untouched hm.sound hfree hid
  refine ⟨huntouched.bindings, huntouched.lastOutput, fun name binding hb href => ?_⟩
  rw [Scopes.lookup?, Scopes.lookup?, Scopes.binding?, huntouched.bindings, ← Scopes.binding?, hb,
    Option.map_some, Option.map_some, huntouched.read hb href]

/-- A function that stores its argument under a name of the host leaves the name's meaning
outside. -/
theorem Closure.call_isolated_len :
    let m := (Session.start {}).machine
    let closure : Closure := ⟨["x"], [.assign ⟨0, 7⟩ (.identifier ⟨0, 3⟩ "len")
      (.identifier ⟨6, 1⟩ "x") (.number ⟨7, 0⟩ (-1)) ⟨false, false⟩], 0⟩
    m.scopes.Reachable ∧ 0 < m.scopes.scopes.size ∧
      ((call {} 1 closure [.null] ⟨8, 7⟩).after m).scopes.lookup? 0 "len" =
        some (.native .len) := by
  intro m closure
  have hm := (Session.Reachable.start {}).scopes
  have hid : 0 < m.scopes.scopes.size := by decide
  have hisolated := call_isolated {} 1 closure [.null] ⟨8, 7⟩ m hm 0 hid
  exact ⟨hm, hid, hisolated.2.2 "len" ⟨1, false, false, none⟩ (by decide) rfl⟩

end ListScript
