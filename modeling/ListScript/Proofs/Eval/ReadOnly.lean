import ListScript.Proofs.Eval.Quiet
import ListScript.Proofs.Eval.Renaming
import ListScript.Proofs.Eval.Storage

/-!
# Read-only expressions

A read-only expression stores nothing, calls nothing and binds no name: its evaluation leaves the
machine as it was, except for new lists. Evaluated a second time, it makes its new lists anew, under
other identities, and nothing else is different. So it comes to the same error, or to a value that
prints the same: `Expr.readOnly_repeatable`.

This needs that no identity is in use before its list is made, since a new list would then be found
where none was. `Machine.Grounded` says so of a machine. Every action that cannot tell identities
keeps it (`Eval.grounded_after`), so every machine of a session has it
(`Session.Reachable.grounded`).
-/

namespace ListScript

/-! ## Machines that know their lists -/

/-- The value is no list, or one of the heap's lists. -/
def Value.Known (heap : Heap) (value : Value) : Prop := ∀ id, value = .list id → id < heap.size

/-- All lists that the machine refers to are lists of its heap. -/
structure Machine.Grounded (m : Machine) : Prop where
  items : ∀ id, ∀ value ∈ m.heap.items id, value.Known m.heap
  slots : ∀ slot, (m.scopes.read slot).Known m.heap
  outputs : ∀ scope value, m.scopes.lastOutput? scope = some value → value.Known m.heap

/-- A renaming that keeps the identities of a heap keeps the values that it knows. -/
theorem Value.Known.rename_eq {heap : Heap} {value : Value} (h : value.Known heap)
    {f : ListId ↪ ListId} (hf : ∀ id < heap.size, f id = id) : value.rename f = value :=
  (Value.rename_eq_self_iff f).2 fun id hid => hf id (h id hid)

/-- Scopes stay the same under other identities if all their values do. -/
theorem Scopes.rename_eq_self_iff {f : ListId ↪ ListId} {s : Scopes} :
    s.rename f = s ↔ (∀ slot, (s.read slot).rename f = s.read slot) ∧
      ∀ scope value, s.lastOutput? scope = some value → value.rename f = value := by
  constructor
  · intro h
    refine ⟨fun slot => ?_, fun scope value hvalue => ?_⟩
    · rw [← read_rename, h]
    · have hrename := s.lastOutput?_rename f scope
      rw [h, hvalue, Option.map_some] at hrename
      exact (Option.some.inj hrename).symm
  · rintro ⟨hslots, houtputs⟩
    obtain ⟨scopes, slots⟩ := s
    have hscopes : scopes.map (fun scope =>
        { scope with lastOutput := scope.lastOutput.map (Value.rename f) }) = scopes := by
      refine Array.ext_getElem? fun i => ?_
      have houtput := houtputs i
      rw [Array.getElem?_map]
      simp only [lastOutput?] at houtput
      cases hscope : scopes[i]? with
      | none => rfl
      | some scope =>
          obtain ⟨bindings, output⟩ := scope
          cases output with
          | none => rfl
          | some value => simp [houtput value (by rw [hscope])]
    have hslots : slots.map (Value.rename f) = slots := by
      refine Array.ext_getElem? fun i => ?_
      have hslot := hslots i
      rw [Array.getElem?_map]
      simp only [read, Array.getD_eq_getD_getElem?] at hslot
      cases hvalue : slots[i]? with
      | none => rfl
      | some value =>
          rw [hvalue] at hslot
          exact congrArg some hslot
    rw [rename, hscopes, hslots]

/-- The renaming that keeps the first identities and moves the others on. -/
def Heap.shift (first distance : Nat) : ListId ↪ ListId where
  toFun id := if id < first then id else id + distance
  inj' := by
    intro (i : Nat) (j : Nat) h
    have h : (if i < first then i else i + distance) = if j < first then j else j + distance := h
    have hij : @Eq Nat i j := by
      split at h <;> split at h <;> omega
    exact hij

theorem Heap.shift_of_lt {first id : Nat} (h : id < first) (distance : Nat) :
    shift first distance id = id :=
  if_pos h

theorem Heap.shift_of_le {first id : Nat} (h : first ≤ id) (distance : Nat) :
    shift first distance id = id + distance :=
  if_neg (Nat.not_lt.2 h)

/-- A machine that only got new lists is the old one under any renaming that keeps the old
identities, and that leads from the lists that come next to the lists that come next. -/
theorem Machine.Retains.renamed {m m' : Machine} (h : m.Retains m') (hm : m.Grounded)
    {f : ListId ↪ ListId} {cap : Nat} (hold : ∀ id < m.heap.size, f id = id)
    (hnew : ∀ id, m.heap.size ≤ id → m'.heap.size ≤ f id)
    (hnext : ∀ id, m.heap.size ≤ id → id < cap → m.heap.size + f id = m'.heap.size + id) :
    m.Renamed f cap m' where
  heap := {
    items := by
      intro id
      by_cases hid : id < m.heap.size
      · rw [hold id hid, h.heap.items id hid]
        refine ((List.map_congr_left fun value hvalue => ?_).trans (List.map_id' _)).symm
        exact (hm.items id value hvalue).rename_eq hold
      · rw [Heap.items_of_size_le (Nat.le_of_not_lt hid),
          Heap.items_of_size_le (hnew id (Nat.le_of_not_lt hid))]
        rfl
    known := by
      intro id
      constructor
      · exact fun hlt => Nat.lt_of_not_le fun hid => Nat.not_lt.2 (hnew id hid) hlt
      · intro hid
        rw [hold id hid]
        exact Nat.lt_of_lt_of_le hid h.heap.size
    next := hnext }
  scopes := by
    rw [h.scopes]
    refine (Scopes.rename_eq_self_iff.2 ⟨fun slot => ?_, fun scope value hvalue => ?_⟩).symm
    · exact (hm.slots slot).rename_eq hold
    · exact (hm.outputs scope value hvalue).rename_eq hold
  output := h.output
  depth := h.depth
  readings := h.readings

/-- So it is the old one with the identities of lists still to be made moved past the new ones. -/
theorem Machine.Retains.renamed_shift {m m' : Machine} (h : m.Retains m') (hm : m.Grounded)
    (cap : Nat) : m.Renamed (Heap.shift m.heap.size (m'.heap.size - m.heap.size)) cap m' := by
  have hsize := h.heap.size
  refine h.renamed hm (fun id hid => Heap.shift_of_lt hid _) (fun id hid => ?_) fun id hid _ => ?_
  · rw [Heap.shift_of_le hid]
    omega
  · rw [Heap.shift_of_le hid]
    omega

/-- A value that stays the same when the identities from the next list on are moved has no such
identity. -/
theorem Value.known_of_rename {heap : Heap} {value : Value}
    (h : value.rename (Heap.shift heap.size 1) = value) : value.Known heap := by
  intro id hid
  by_contra hlt
  have hfixed := (Value.rename_eq_self_iff _).1 h id hid
  rw [Heap.shift_of_le (Nat.le_of_not_lt hlt)] at hfixed
  exact Nat.succ_ne_self id hfixed

/-- Nor has a machine that stays the same. -/
theorem Machine.Renamed.grounded {m : Machine} {cap : Nat}
    (h : m.Renamed (Heap.shift m.heap.size 1) cap m) : m.Grounded := by
  obtain ⟨hslots, houtputs⟩ := Scopes.rename_eq_self_iff.1 h.scopes.symm
  refine ⟨fun id value hvalue => ?_, fun slot => Value.known_of_rename (hslots slot),
    fun scope value hvalue => Value.known_of_rename (houtputs scope value hvalue)⟩
  have hitems := h.heap.items id
  rw [Heap.shift_of_lt (Heap.lt_size_of_mem hvalue)] at hitems
  have hsame := List.map_eq_map_iff.1 (hitems.symm.trans (List.map_id' _).symm)
  exact Value.known_of_rename (hsame value hvalue)

namespace Eval

variable {x : Eval Value} {m : Machine}

/-- Moving the identities that come after the last list made changes nothing before. -/
theorem renamed_beyond (hm : m.Grounded) {t : Machine} (ht : m.heap.size ≤ t.heap.size) :
    m.Renamed (Heap.shift t.heap.size 1) t.heap.size m := by
  refine (Machine.Retains.refl m).renamed hm (fun id hid => ?_) (fun id hid => ?_)
    fun id hid hlt => ?_
  · exact Heap.shift_of_lt (Nat.lt_of_lt_of_le hid ht) 1
  · by_cases hlt : id < t.heap.size
    · rwa [Heap.shift_of_lt hlt]
    · rw [Heap.shift_of_le (Nat.le_of_not_lt hlt)]
      exact Nat.le_succ_of_le hid
  · rw [Heap.shift_of_lt hlt]

/-- What cannot tell identities yields no list that is still to be made, and leaves a machine that
refers to none. -/
theorem grounded_of_ok (hx : ∀ (f : ListId ↪ ListId) cap, Mirrors f cap (Value.rename f) x x)
    (hm : m.Grounded) {value : Value} {t : Machine} (hrun : x m = .ok value t) :
    t.Grounded ∧ value.Known t.heap := by
  have hgrows := (hx (Heap.shift 0 0) 0).grows m
  rw [hrun] at hgrows
  obtain ⟨t', hrun', ht⟩ := (hx _ _).exists_ok (renamed_beyond hm hgrows) hrun (Nat.le_refl _)
  obtain ⟨hvalue, rfl⟩ := EStateM.Result.ok.inj (hrun.symm.trans hrun')
  exact ⟨ht.grounded, Value.known_of_rename hvalue.symm⟩

/-- What cannot tell identities leaves such a machine when it fails, too. -/
theorem grounded_of_error (hx : ∀ (f : ListId ↪ ListId) cap, Mirrors f cap (Value.rename f) x x)
    (hm : m.Grounded) {error : RuntimeError} {t : Machine} (hrun : x m = .error error t) :
    t.Grounded := by
  have hgrows := (hx (Heap.shift 0 0) 0).grows m
  rw [hrun] at hgrows
  obtain ⟨t', hrun', ht⟩ := (hx _ _).exists_error (renamed_beyond hm hgrows) hrun (Nat.le_refl _)
  obtain ⟨-, rfl⟩ := EStateM.Result.error.inj (hrun.symm.trans hrun')
  exact ht.grounded

theorem grounded_after (hx : ∀ (f : ListId ↪ ListId) cap, Mirrors f cap (Value.rename f) x x)
    (hm : m.Grounded) : (x.after m).Grounded := by
  rw [after]
  cases hrun : x m with
  | ok value t => exact (grounded_of_ok hx hm hrun).1
  | error error t => exact grounded_of_error hx hm hrun

end Eval

/-- At the start no program has yielded a value. -/
theorem Scopes.lastOutput?_newGlobal (scope : ScopeId) :
    none.newGlobal.2.lastOutput? scope = Option.none := by
  have hdeclare (s : Scopes) (id : ScopeId) (name : String) (value : Value) :
      (s.declare id name value).lastOutput? scope = s.lastOutput? scope :=
    lastOutput?_withBindings _ _ _ _
  simp only [newGlobal, List.foldl_cons, List.foldl_nil, hdeclare]
  cases scope <;> rfl

namespace Session

/-- No session refers to a list that is still to be made. -/
theorem Reachable.grounded {session : Session} (h : session.Reachable) :
    session.machine.Grounded := by
  induction h with
  | start config =>
      have hnone : Scopes.none.Holds (Value.Known .empty) := fun slot id hid => by cases hid
      refine ⟨Heap.Holds.empty _, ?_, ?_⟩
      · exact ((hnone.newSlot fun id hid => by cases hid).newSlot
          fun id hid => by cases hid).newSlot fun id hid => by cases hid
      · intro scope value hvalue
        rw [show (Session.start config).machine.scopes.lastOutput? scope = none from
          Scopes.lastOutput?_newGlobal scope] at hvalue
        cases hvalue
  | @run session h program ih =>
      rw [Session.run, machine_perform, Eval.after_bind_settle]
      exact Eval.grounded_after (fun f cap => Expr.mirrors_evalBlock
        (Closure.mirrors_call f cap _ _) true .nothing program.body) ih
  | @evaluate session h e ih =>
      rw [Session.evaluate, machine_perform]
      exact Eval.grounded_after
        (fun f cap => Expr.mirrors_eval (Closure.mirrors_call f cap _ _) e) ih

end Session

/-! ## Evaluating twice -/

namespace Expr

/-- A read-only expression changes nothing but that there may be new lists, whether it fails or not.
Evaluated again, it fails with the same error, or it yields a value that prints as the first value
printed, and still prints. -/
theorem readOnly_repeatable (config : Config) (free : Nat) (scope : ScopeId) {e : Expr}
    (he : e.isReadOnly = true) {m : Machine} (hm : m.Grounded) :
    let eval := e.eval ⟨config, Closure.call config free, scope⟩
    (∀ error m', eval m = .error error m' →
      m.Retains m' ∧ ∃ m'', eval m' = .error error m'' ∧ m'.Retains m'') ∧
    ∀ value m', eval m = .ok value m' →
      m.Retains m' ∧ ∃ value' m'', eval m' = .ok value' m'' ∧ m'.Retains m'' ∧
        value'.print m''.heap = value.print m'.heap ∧
        value.print m''.heap = value.print m'.heap := by
  intro eval
  have hretains : Eval.Retaining eval := retaining_eval _ he
  have hmirrors (f : ListId ↪ ListId) (cap : Nat) : Eval.Mirrors f cap (Value.rename f) eval eval :=
    mirrors_eval (Closure.mirrors_call f cap config free) e
  constructor
  · intro error m' hrun
    have hfirst := hretains.error hrun
    obtain ⟨m'', hrun', -⟩ :=
      (hmirrors _ m'.heap.size).exists_error (hfirst.renamed_shift hm _) hrun (Nat.le_refl _)
    exact ⟨hfirst, m'', hrun', hretains.error hrun'⟩
  · intro value m' hrun
    have hfirst := hretains.ok hrun
    obtain ⟨m'', hrun', hrelated⟩ :=
      (hmirrors _ m'.heap.size).exists_ok (hfirst.renamed_shift hm _) hrun (Nat.le_refl _)
    have hsecond := hretains.ok hrun'
    -- the first value has identities from before the second evaluation only, which stay
    obtain ⟨hm', hvalue⟩ := Eval.grounded_of_ok hmirrors hm hrun
    have hlater := (hsecond.renamed_shift hm' 0).heap.print value
    rw [hvalue.rename_eq fun id hid => Heap.shift_of_lt hid _] at hlater
    exact ⟨hfirst, _, m'', hrun', hsecond, hrelated.heap.print value, hlater⟩

/-- A text that the session stores, joined with a new one: the two lists that the joining makes each
time are others the second time, and the value prints the same. -/
theorem readOnly_repeatable_joined :
    let session : Session := ((Session.start {}).evaluate
      (.shift ⟨0, 9⟩ (.string ⟨0, 4⟩ "ab") (.identifier ⟨8, 1⟩ "s"))).2
    let e : Expr := .binary ⟨0, 7⟩ .add (.identifier ⟨0, 1⟩ "s") (.string ⟨4, 3⟩ "c")
    let eval := e.eval ⟨{}, Closure.call {} 0, session.scope⟩
    e.isReadOnly = true ∧ session.machine.Grounded ∧
    ∃ value m' value' m'', eval session.machine = .ok value m' ∧ session.machine.Retains m' ∧
      eval m' = .ok value' m'' ∧ m'.Retains m'' ∧
      value'.print m''.heap = value.print m'.heap ∧
      value.print m''.heap = value.print m'.heap := by
  intro session e eval
  have he : e.isReadOnly = true := by decide +kernel
  have hm : session.machine.Grounded := (Session.Reachable.evaluate (.start {}) _).grounded
  have hshown : (eval.run' session.machine).map Value.kind = some .list := by decide +kernel
  have hrepeats := (readOnly_repeatable {} 0 session.scope he hm).2
  cases hrun : eval session.machine with
  | error error m' =>
      delta EStateM.run' EStateM.run at hshown
      rw [hrun] at hshown
      cases hshown
  | ok value m' =>
      obtain ⟨hfirst, value', m'', hrun', hsecond, hprint, hlater⟩ := hrepeats value m' hrun
      exact ⟨he, hm, value, m', value', m'', rfl, hfirst, hrun', hsecond, hprint, hlater⟩

end Expr

end ListScript
