import ListScript.Proofs.Eval.Quiet
import ListScript.Proofs.Expr.Precedence
import ListScript.Proofs.Lists.Atomicity
import ListScript.Proofs.Lists.Conservation

/-!
# Updates and compound assignments

An update finds out its place once, reads it, and writes it. A compound assignment is read as an
assignment of a sum or a difference, so its place is evaluated twice: as a value, and again to be
written. For a plain place, a name or a name with a name or a number in brackets, nothing can happen
between the two, and both ways come to the same: `Expr.update_agrees`.
-/

namespace ListScript

open TokenStream (bare)

namespace Step

/-- The operator with which a compound assignment takes the step. -/
def operator : Step → Binary
  | increment => .add
  | decrement => .subtract

/-- The token of an update. -/
def token : Step → Symbol
  | increment => .plusPlus
  | decrement => .minusMinus

/-- The token of a compound assignment. -/
def compoundToken : Step → Symbol
  | increment => .plusEqual
  | decrement => .minusEqual

/-- The number after the step. -/
def next : Step → Number → Number
  | increment, x => x + 1
  | decrement, x => x - 1

theorem apply_number (step : Step) (x : Number) :
    step.apply (.number x) = .ok (.number (step.next x)) := by
  cases step <;> rfl

/-- Only numbers can be changed by one. -/
theorem exists_apply_eq_error (step : Step) {value : Value} (h : ∀ x, value ≠ .number x) :
    ∃ fault, step.apply value = .error fault := by
  cases value with
  | number x => exact absurd rfl (h x)
  | _ => exact ⟨_, rfl⟩

theorem binary_number (step : Step) (x : Number) (heap : Heap) :
    HeapM.binary step.operator (.number x) (.number 1) heap = .ok (.number (step.next x)) heap := by
  cases step <;> rfl

/-- Only to numbers can one be added. -/
theorem exists_binary_eq_error (step : Step) {value : Value} (h : ∀ x, value ≠ .number x)
    (heap : Heap) : ∃ fault, HeapM.binary step.operator value (.number 1) heap =
      .error fault heap := by
  cases value with
  | number x => exact absurd rfl (h x)
  | _ => cases step <;> exact ⟨_, rfl⟩

end Step

/-! ## Places that are evaluated already -/

/-- A number is read at one position, so no list is made. -/
theorem HeapM.eq_of_readIndex_number {target index : Value} {x : Number} {heap heap' : Heap}
    (h : readIndex target index heap = .ok (.number x) heap') : heap' = heap := by
  obtain ⟨id, heap₁, hlist, h⟩ := exists_of_run_bind h
  obtain ⟨items, heap₂, hitems, h⟩ := exists_of_run_bind h
  obtain ⟨positions, heap₃, hpositions, h⟩ := exists_of_run_bind h
  have hheap₁ : heap₁ = heap := by
    cases target with
    | list id =>
        cases hlist
        rfl
    | _ => cases hlist
  cases hitems
  obtain ⟨rfl, -⟩ := positions_cases hpositions
  cases positions with
  | single raw => exact (eq_ok_of_ofExcept h).2.trans hheap₁
  | several raws =>
      obtain ⟨values, heap₄, -, hnew⟩ := exists_of_run_bind h
      cases hnew

/-- Writing at positions yields what is written. -/
theorem HeapM.eq_of_writeIndex {target index value result : Value} {heap heap' : Heap}
    (h : writeIndex target index value heap = .ok result heap') : result = value := by
  have hany {α : Type} (x : HeapM α) : Keeps (fun _ => True) (fun _ => True) x := by
    intro heap _
    cases x heap <;> simp
  have hyields : Keeps (fun _ => True) (· = value) (writeIndex target index value) := by
    refine .bind (hany _) fun id _ => .bind (hany _) fun old _ => .bind (hany _) fun found _ => ?_
    split
    · exact .bind (hany _) fun _ _ => .pure rfl
    · exact .pure rfl
    · split
      · refine .bind (hany _) fun new _ => ?_
        split
        · exact .bind (hany _) fun _ _ => .bind (hany _) fun _ _ => .pure rfl
        · exact .bind (hany _) fun _ _ => .pure rfl
      · exact .bind (hany _) fun _ _ => .pure rfl
  exact (hyields.ok trivial h).2

/-- The result of an action, its fault being at a place of the source. -/
def Eval.located {α : Type} (span : Span) :
    EStateM.Result Fault Machine α → EStateM.Result RuntimeError Machine α
  | .ok a m => .ok a m
  | .error fault m => .error ⟨fault, span⟩ m

theorem Eval.exists_onHeap_eq {α : Type} (action : HeapM α) (m : Machine) :
    ∃ result, ∀ span, onHeap span action m = located span result := by
  simp only [onHeap]
  cases action m.heap with
  | ok a heap => exact ⟨.ok a _, fun _ => rfl⟩
  | error fault heap => exact ⟨.error fault _, fun _ => rfl⟩

namespace Place

variable (place : Place) (scope : ScopeId) (m : Machine)

/-- What is read does not depend on where the reading stands. -/
theorem exists_read_eq : ∃ result, ∀ span, place.read scope span m = Eval.located span result := by
  cases place with
  | named name =>
      simp only [read, Eval.lookup]
      cases m.scopes.lookup? scope name with
      | none => exact ⟨.error _ m, fun _ => rfl⟩
      | some value => exact ⟨.ok value m, fun _ => rfl⟩
  | element target index => exact Eval.exists_onHeap_eq _ m

/-- What is written does not depend on where the writing stands. -/
theorem exists_write_eq (value : Value) (mode : BindingMode) (limit : Option Nat) :
    ∃ result, ∀ span, place.write scope span value mode limit m = Eval.located span result := by
  cases place with
  | named name =>
      simp only [write, Eval.assign]
      cases m.scopes.assign scope name value mode limit with
      | ok scopes => exact ⟨.ok value _, fun _ => rfl⟩
      | error fault => exact ⟨.error fault _, fun _ => rfl⟩
  | element target index => exact Eval.exists_onHeap_eq _ m

/-- Reading changes nothing. -/
theorem retaining_read (span : Span) : Eval.Retaining (place.read scope span) := by
  cases place with
  | named name =>
      exact .of_after Eval.allowsLists_retains.refl fun m => Eval.after_lookup scope name span m
  | element target index =>
      exact .onHeap Eval.allowsLists_retains (HeapM.allocates_readIndex target index) span

variable {place scope m}

/-- Reading a number makes no list. -/
theorem eq_of_read_number {span : Span} {x : Number} {m' : Machine}
    (h : place.read scope span m = .ok (.number x) m') : m' = m := by
  cases place with
  | named name =>
      simp only [read, Eval.lookup] at h
      cases hvalue : m.scopes.lookup? scope name with
      | none =>
          rw [hvalue] at h
          cases h
      | some value =>
          rw [hvalue] at h
          cases h
          rfl
  | element target index =>
      simp only [read, Eval.onHeap] at h
      cases hrun : HeapM.readIndex target index m.heap with
      | error fault heap =>
          rw [hrun] at h
          cases h
      | ok value heap =>
          rw [hrun] at h
          cases h
          rw [HeapM.eq_of_readIndex_number hrun]

/-- Writing yields what is written. -/
theorem eq_of_write {span : Span} {value result : Value} {mode : BindingMode} {limit : Option Nat}
    {m' : Machine} (h : place.write scope span value mode limit m = .ok result m') :
    result = value := by
  cases place with
  | named name =>
      simp only [write, Eval.assign] at h
      cases hscopes : m.scopes.assign scope name value mode limit with
      | ok scopes =>
          rw [hscopes] at h
          cases h
          rfl
      | error fault =>
          rw [hscopes] at h
          cases h
  | element target index =>
      simp only [write, Eval.onHeap] at h
      cases hrun : HeapM.writeIndex target index value m.heap with
      | error fault heap =>
          rw [hrun] at h
          cases h
      | ok written heap =>
          rw [hrun] at h
          cases h
          exact HeapM.eq_of_writeIndex hrun

/-- Writing that fails changes nothing. -/
theorem retains_of_write {span : Span} {value : Value} {mode : BindingMode} {limit : Option Nat}
    {error : RuntimeError} {m' : Machine}
    (h : place.write scope span value mode limit m = .error error m') : m.Retains m' := by
  cases place with
  | named name =>
      simp only [write, Eval.assign] at h
      cases hscopes : m.scopes.assign scope name value mode limit with
      | ok scopes =>
          rw [hscopes] at h
          cases h
      | error fault =>
          rw [hscopes] at h
          cases h
          exact .refl m
  | element target index =>
      simp only [write, Eval.onHeap] at h
      cases hrun : HeapM.writeIndex target index value m.heap with
      | ok written heap =>
          rw [hrun] at h
          cases h
      | error fault heap =>
          rw [hrun] at h
          cases h
          exact ⟨rfl, rfl, rfl, rfl, HeapM.atomic_writeIndex target index value _ _ _ hrun⟩

end Place

/-! ## Plain places -/

namespace Expr

/-- The expression is a name or a number. -/
def isPlain : Expr → Bool
  | .identifier .. | .number .. => true
  | _ => false

/-- The expression is a name, or a name at a position that is a name or a number. -/
def isPlainPlace : Expr → Bool
  | .identifier .. => true
  | .index _ (.identifier ..) position => position.isPlain
  | _ => false

/-- The assignment of a place changed by one, at no place of the source. -/
def compound (step : Step) (place : Expr) : Expr :=
  .assign (.empty 0) place (.binary (.empty 0) step.operator place (.number (.empty 0) 1))
    (.number (.empty 0) (.ofInt (-1))) ⟨false, false⟩

section Inversion

variable {e a b c : Expr} {span : Span}

theorem eq_number_of_erase {x : Number} (h : e.erase = .number span x) :
    ∃ sp, e = .number sp x := by
  cases e with
  | branch _ _ _ failure => cases failure <;> simp at h
  | number sp y =>
      cases h
      exact ⟨sp, rfl⟩
  | _ => simp at h

theorem eq_identifier_of_erase {name : String} (h : e.erase = .identifier span name) :
    ∃ sp, e = .identifier sp name := by
  cases e with
  | branch _ _ _ failure => cases failure <;> simp at h
  | identifier sp other =>
      cases h
      exact ⟨sp, rfl⟩
  | _ => simp at h

theorem eq_index_of_erase (h : e.erase = .index span a b) :
    ∃ sp a' b', e = .index sp a' b' ∧ a'.erase = a ∧ b'.erase = b := by
  cases e with
  | branch _ _ _ failure => cases failure <;> simp at h
  | index sp a' b' =>
      cases h
      exact ⟨sp, a', b', rfl, rfl, rfl⟩
  | _ => simp at h

theorem eq_update_of_erase {step : Step} {after : Bool} (h : e.erase = .update span step after a) :
    ∃ sp a', e = .update sp step after a' ∧ a'.erase = a := by
  cases e with
  | branch _ _ _ failure => cases failure <;> simp at h
  | update sp step' after' a' =>
      cases h
      exact ⟨sp, a', rfl, rfl⟩
  | _ => simp at h

theorem eq_binary_of_erase {operator : Binary} (h : e.erase = .binary span operator a b) :
    ∃ sp a' b', e = .binary sp operator a' b' ∧ a'.erase = a ∧ b'.erase = b := by
  cases e with
  | branch _ _ _ failure => cases failure <;> simp at h
  | binary sp operator' a' b' =>
      cases h
      exact ⟨sp, a', b', rfl, rfl, rfl⟩
  | _ => simp at h

theorem eq_assign_of_erase {mode : BindingMode} (h : e.erase = .assign span a b c mode) :
    ∃ sp a' b' c', e = .assign sp a' b' c' mode ∧ a'.erase = a ∧ b'.erase = b ∧ c'.erase = c := by
  cases e with
  | branch _ _ _ failure => cases failure <;> simp at h
  | assign sp a' b' c' mode' =>
      cases h
      exact ⟨sp, a', b', c', rfl, rfl, rfl, rfl⟩
  | _ => simp at h

end Inversion

/-- The expression evaluates to a place without changing anything, and to the value that this place
holds. -/
def Denotes (ctx : Context) (m : Machine) (e : Expr) (place : Place) : Prop :=
  e.evalPlace ctx m = .ok place m ∧ e.eval ctx m = place.read ctx.scope e.span m

/-- The expression evaluates neither to a place nor to a value, and changes nothing. -/
def Fails (ctx : Context) (m : Machine) (e : Expr) : Prop :=
  (∃ error, e.evalPlace ctx m = .error error m) ∧ ∃ error, e.eval ctx m = .error error m

variable {ctx : Context} {m : Machine}

/-- A name denotes a place, whether it is bound or not. -/
theorem denotes_identifier (span : Span) (name : String) :
    Denotes ctx m (.identifier span name) (.named name) := by
  refine ⟨?_, ?_⟩
  · rw [evalPlace]
    rfl
  · rw [eval]
    rfl

/-- An index expression denotes a place if its parts have values. -/
theorem denotes_index {span : Span} {target position : Expr} {list index : Value}
    (htarget : target.eval ctx m = .ok list m) (hposition : position.eval ctx m = .ok index m) :
    Denotes ctx m (.index span target position) (.element list index) := by
  refine ⟨?_, ?_⟩
  · rw [evalPlace, Eval.run_bind_ok htarget, Eval.run_bind_ok hposition]
    rfl
  · rw [eval, Eval.run_bind_ok htarget]
    cases list with
    | list id => exact Eval.run_bind_ok hposition _
    | _ => rfl

theorem fails_of_target {span : Span} {target position : Expr} {error : RuntimeError}
    (htarget : target.eval ctx m = .error error m) :
    Fails ctx m (.index span target position) := by
  refine ⟨⟨error, ?_⟩, error, ?_⟩
  · rw [evalPlace, Eval.run_bind, htarget]
  · rw [eval, Eval.run_bind, htarget]

theorem fails_of_position {span : Span} {target position : Expr} {list : Value}
    {error : RuntimeError} (htarget : target.eval ctx m = .ok list m)
    (hposition : position.eval ctx m = .error error m) :
    Fails ctx m (.index span target position) := by
  refine ⟨⟨error, ?_⟩, ?_⟩
  · rw [evalPlace, Eval.run_bind_ok htarget, Eval.run_bind, hposition]
  · rw [eval, Eval.run_bind_ok htarget]
    -- What is no list fails before the position is evaluated.
    cases list with
    | list id =>
        refine ⟨error, ?_⟩
        show (position.eval ctx >>= _) m = _
        rw [Eval.run_bind, hposition]
    | _ => exact ⟨_, rfl⟩

/-- A name or a number has the same value wherever it stands, or none. -/
theorem eval_cases_of_isPlain {e : Expr} (he : e.isPlain = true) (ctx : Context) (m : Machine) :
    (∃ value, ∀ e' : Expr, e'.erase = e.erase → e'.eval ctx m = .ok value m) ∨
      ∀ e' : Expr, e'.erase = e.erase → ∃ error, e'.eval ctx m = .error error m := by
  unfold isPlain at he
  split at he
  · next span name =>
    cases hvalue : m.scopes.lookup? ctx.scope name with
    | some value =>
        refine .inl ⟨value, fun e' h => ?_⟩
        obtain ⟨sp, rfl⟩ := eq_identifier_of_erase h
        rw [eval, Eval.lookup, hvalue]
    | none =>
        refine .inr fun e' h => ?_
        obtain ⟨sp, rfl⟩ := eq_identifier_of_erase h
        rw [eval, Eval.lookup, hvalue]
        exact ⟨_, rfl⟩
  · next span x =>
    refine .inl ⟨.number x, fun e' h => ?_⟩
    obtain ⟨sp, rfl⟩ := eq_number_of_erase h
    rw [eval]
    rfl
  · cases he

/-- A plain place denotes the same place wherever it stands, or none. -/
theorem denotes_or_fails {t : Expr} (ht : t.isPlainPlace = true) (ctx : Context) (m : Machine) :
    (∃ place, ∀ t' : Expr, t'.erase = t.erase → Denotes ctx m t' place) ∨
      ∀ t' : Expr, t'.erase = t.erase → Fails ctx m t' := by
  unfold isPlainPlace at ht
  split at ht
  · next span name =>
    refine .inl ⟨.named name, fun t' h => ?_⟩
    obtain ⟨sp, rfl⟩ := eq_identifier_of_erase h
    exact denotes_identifier sp name
  · next span sp name position =>
    have hname : (Expr.identifier sp name).isPlain = true := rfl
    obtain ⟨list, hlist⟩ | hlist := eval_cases_of_isPlain hname ctx m
    · obtain ⟨index, hindex⟩ | hindex := eval_cases_of_isPlain ht ctx m
      · refine .inl ⟨.element list index, fun t' h => ?_⟩
        obtain ⟨sp', target, position', rfl, htarget, hposition⟩ := eq_index_of_erase h
        exact denotes_index (hlist target htarget) (hindex position' hposition)
      · refine .inr fun t' h => ?_
        obtain ⟨sp', target, position', rfl, htarget, hposition⟩ := eq_index_of_erase h
        obtain ⟨error, herror⟩ := hindex position' hposition
        exact fails_of_position (hlist target htarget) herror
    · refine .inr fun t' h => ?_
      obtain ⟨sp', target, position', rfl, htarget, -⟩ := eq_index_of_erase h
      obtain ⟨error, herror⟩ := hlist target htarget
      exact fails_of_target herror
  · cases ht

/-- Being a plain place does not depend on where the place stands. -/
theorem isPlace_of_erase {t t' : Expr} (ht : t.isPlainPlace = true) (h : t'.erase = t.erase) :
    t'.isPlace = true := by
  unfold isPlainPlace at ht
  split at ht
  · obtain ⟨sp, rfl⟩ := eq_identifier_of_erase h
    rfl
  · obtain ⟨sp, a, b, rfl, -⟩ := eq_index_of_erase h
    rfl
  · cases ht

/-! ## Both ways of changing a place by one -/

section Runs

variable {t t' : Expr} {place : Place} (step : Step) {span : Span} (sp sp' sp'' : Span) {x : Number}

/-- An update of a place that holds a number writes the next one. -/
theorem eval_update_of_number (hisPlace : t.isPlace = true) (ht : Denotes ctx m t place)
    (hread : place.read ctx.scope span m = .ok (.number x) m) (after : Bool) :
    (Expr.update span step after t).eval ctx m =
      match place.write ctx.scope span (.number (step.next x)) ⟨false, false⟩ none m with
      | .ok _ m' => .ok (if after then .number x else .number (step.next x)) m'
      | .error error m' => .error error m' := by
  have hnext : Eval.ofExcept span (step.apply (.number x)) m = .ok (.number (step.next x)) m := by
    rw [step.apply_number]
    rfl
  rw [eval, hisPlace]
  show (t.evalPlace ctx >>= _) m = _
  rw [Eval.run_bind_ok ht.1, Place.update, Eval.run_bind, Eval.run_bind_ok hread,
    Eval.run_bind_ok hnext, Eval.run_bind, Place.overwrite]
  cases place.write ctx.scope span (.number (step.next x)) ⟨false, false⟩ none m <;> rfl

/-- An update of a place that holds no number fails. -/
theorem eval_update_of_not_number (hisPlace : t.isPlace = true) (ht : Denotes ctx m t place)
    {old : Value} {m' : Machine} (hread : place.read ctx.scope span m = .ok old m')
    (hold : ∀ x, old ≠ .number x) (after : Bool) :
    ∃ error, (Expr.update span step after t).eval ctx m = .error error m' := by
  obtain ⟨fault, hfault⟩ := step.exists_apply_eq_error hold
  refine ⟨⟨fault, span⟩, ?_⟩
  rw [eval, hisPlace]
  show (t.evalPlace ctx >>= _) m = _
  rw [Eval.run_bind_ok ht.1, Place.update, Eval.run_bind, Eval.run_bind_ok hread, hfault]
  rfl

/-- An update of a place that holds nothing fails. -/
theorem eval_update_of_error (hisPlace : t.isPlace = true) (ht : Denotes ctx m t place)
    {error : RuntimeError} {m' : Machine} (hread : place.read ctx.scope span m = .error error m')
    (after : Bool) : (Expr.update span step after t).eval ctx m = .error error m' := by
  rw [eval, hisPlace]
  show (t.evalPlace ctx >>= _) m = _
  rw [Eval.run_bind_ok ht.1, Place.update, Eval.run_bind, Eval.run_bind, hread]

theorem eval_update_of_fails (hisPlace : t.isPlace = true) (ht : Fails ctx m t) (span : Span)
    (after : Bool) :
    ∃ error, (Expr.update span step after t).eval ctx m = .error error m := by
  obtain ⟨⟨error, herror⟩, -⟩ := ht
  refine ⟨error, ?_⟩
  rw [eval, hisPlace]
  show (t.evalPlace ctx >>= _) m = _
  rw [Eval.run_bind, herror]

/-- The limit that a compound assignment has is none. -/
theorem limitOfNumber_absent : Scopes.limitOfNumber (.ofInt (-1)) = none := by
  decide +kernel

/-- A compound assignment to a place that holds a number writes the next one. -/
theorem eval_compound_of_number (hisPlace : t.isPlace = true) (ht : Denotes ctx m t place)
    (hvalue : t'.eval ctx m = .ok (.number x) m) (span : Span) :
    (Expr.assign span t (.binary sp step.operator t' (.number sp' 1))
        (.number sp'' (.ofInt (-1))) ⟨false, false⟩).eval ctx m =
      place.write ctx.scope span (.number (step.next x)) ⟨false, false⟩ none m := by
  have hone : (Expr.number sp' 1).eval ctx m = .ok (.number 1) m := by
    rw [eval]
    rfl
  have hsum : (Expr.binary sp step.operator t' (.number sp' 1)).eval ctx m =
      .ok (.number (step.next x)) m := by
    rw [eval, Eval.run_bind_ok hvalue, Eval.run_bind_ok hone, Eval.onHeap, step.binary_number]
  have hlimit : (Expr.number sp'' (.ofInt (-1))).eval ctx m = .ok (.number (.ofInt (-1))) m := by
    rw [eval]
    rfl
  have hnone : Eval.limit sp'' (.number (.ofInt (-1))) m = .ok none m := by
    rw [← limitOfNumber_absent]
    rfl
  have hsettle (sp : Span) (y : Number) : Eval.settle sp (.number y) m = .ok (.number y) m := rfl
  rw [eval, hisPlace]
  show (eval ctx _ >>= _) m = _
  rw [Eval.run_bind_ok hsum, Eval.run_bind_ok (hsettle _ _), Eval.run_bind_ok hlimit]
  show (Eval.limit sp'' _ >>= _) m = _
  rw [Eval.run_bind_ok hnone, Eval.run_bind_ok ht.1]

/-- A compound assignment fails where its sum does. -/
theorem eval_compound_of_error (hisPlace : t.isPlace = true) {value limit : Expr}
    {error : RuntimeError} {m' : Machine} (hvalue : value.eval ctx m = .error error m')
    (mode : BindingMode) :
    (Expr.assign span t value limit mode).eval ctx m = .error error m' := by
  rw [eval, hisPlace]
  show (eval ctx value >>= _) m = _
  rw [Eval.run_bind, hvalue]

/-- One cannot be added to what is no number. -/
theorem eval_binary_of_not_number {old : Value} {m' : Machine}
    (hvalue : t'.eval ctx m = .ok old m') (hold : ∀ x, old ≠ .number x) :
    ∃ error, (Expr.binary sp step.operator t' (.number sp' 1)).eval ctx m = .error error m' := by
  obtain ⟨fault, hfault⟩ := step.exists_binary_eq_error hold m'.heap
  have hone : (Expr.number sp' 1).eval ctx m' = .ok (.number 1) m' := by
    rw [eval]
    rfl
  refine ⟨⟨fault, sp⟩, ?_⟩
  rw [eval, Eval.run_bind_ok hvalue, Eval.run_bind_ok hone, Eval.onHeap, hfault]

/-- A sum fails where its first operand does. -/
theorem eval_binary_of_error {error : RuntimeError} {m' : Machine}
    (hvalue : t'.eval ctx m = .error error m') (operator : Binary) (rhs : Expr) :
    (Expr.binary sp operator t' rhs).eval ctx m = .error error m' := by
  rw [eval, Eval.run_bind, hvalue]

end Runs

/-- The three ways of changing a place by one agree: the update before the place, the compound
assignment and the update after the place lead to the same machine, the first two yield the value
that the place then holds, and the third the value that it held, or all of them fail and have
changed nothing. -/
def StepsAgree (ctx : Context) (m : Machine) (place before compound after : Expr) : Prop :=
  (∃ old new m', place.eval ctx m = .ok old m ∧ before.eval ctx m = .ok new m' ∧
    compound.eval ctx m = .ok new m' ∧ after.eval ctx m = .ok old m') ∨
  (∃ e e' e'' m', before.eval ctx m = .error e m' ∧ compound.eval ctx m = .error e' m' ∧
    after.eval ctx m = .error e'' m' ∧ m.Retains m')

/-- Changing a plain place by one comes to the same in all three ways, wherever they stand. -/
theorem stepsAgree_of_isPlainPlace {step : Step} {t before compound after : Expr}
    (ht : t.isPlainPlace = true) (hbefore : before.erase = .update (.empty 0) step false t.erase)
    (hcompound : compound.erase = t.erase.compound step)
    (hafter : after.erase = .update (.empty 0) step true t.erase) (ctx : Context) (m : Machine) :
    StepsAgree ctx m t before compound after := by
  obtain ⟨sp₁, t₁, rfl, h₁⟩ := eq_update_of_erase hbefore
  obtain ⟨sp₃, t₃, rfl, h₃⟩ := eq_update_of_erase hafter
  obtain ⟨sp₂, t₂, sum, limit, rfl, h₂, hsum, hlimit⟩ := eq_assign_of_erase hcompound
  obtain ⟨sp₄, t₄, one, rfl, h₄, hone⟩ := eq_binary_of_erase hsum
  obtain ⟨sp₅, rfl⟩ := eq_number_of_erase hone
  obtain ⟨sp₆, rfl⟩ := eq_number_of_erase hlimit
  have hp₁ := isPlace_of_erase ht h₁
  have hp₂ := isPlace_of_erase ht h₂
  have hp₃ := isPlace_of_erase ht h₃
  obtain ⟨place, hplace⟩ | hfails := denotes_or_fails ht ctx m
  · obtain ⟨result, hread⟩ := place.exists_read_eq ctx.scope m
    have hvalue := (hplace t₄ h₄).2.trans (hread t₄.span)
    have hretains := place.retaining_read ctx.scope sp₁ m
    rw [Eval.after, hread] at hretains
    cases result with
    | error fault m' =>
        have hsum := eval_binary_of_error sp₄ hvalue step.operator (.number sp₅ 1)
        exact .inr ⟨_, _, _, m', eval_update_of_error step hp₁ (hplace t₁ h₁) (hread sp₁) false,
          eval_compound_of_error hp₂ hsum _,
          eval_update_of_error step hp₃ (hplace t₃ h₃) (hread sp₃) true, hretains⟩
    | ok old m' =>
        by_cases hold : ∃ x, old = .number x
        · obtain ⟨x, rfl⟩ := hold
          obtain rfl : m' = m := Place.eq_of_read_number (hread sp₁)
          -- From here on all three write the same number to the same place.
          obtain ⟨written, hwrite⟩ :=
            place.exists_write_eq ctx.scope m' (.number (step.next x)) ⟨false, false⟩ none
          have hbefore := eval_update_of_number step hp₁ (hplace t₁ h₁) (hread sp₁) false
          have hafter := eval_update_of_number step hp₃ (hplace t₃ h₃) (hread sp₃) true
          have hcompound :=
            eval_compound_of_number step sp₄ sp₅ sp₆ hp₂ (hplace t₂ h₂) hvalue sp₂
          rw [hwrite] at hbefore hafter hcompound
          cases written with
          | ok value m'' =>
              obtain rfl : value = .number (step.next x) := Place.eq_of_write (hwrite sp₂)
              refine .inl ⟨_, _, m'', ?_, hbefore, hcompound, hafter⟩
              exact (hplace t rfl).2.trans (hread t.span)
          | error fault m'' =>
              exact .inr ⟨_, _, _, m'', hbefore, hcompound, hafter,
                Place.retains_of_write (hwrite sp₂)⟩
        · have hold (x : Number) : old ≠ .number x := fun heq => hold ⟨x, heq⟩
          obtain ⟨e, he⟩ :=
            eval_update_of_not_number step hp₁ (hplace t₁ h₁) (hread sp₁) hold false
          obtain ⟨e', he'⟩ := eval_binary_of_not_number step sp₄ sp₅ hvalue hold
          obtain ⟨e'', he''⟩ :=
            eval_update_of_not_number step hp₃ (hplace t₃ h₃) (hread sp₃) hold true
          exact .inr ⟨e, e', e'', m', he, eval_compound_of_error hp₂ he' _, he'', hretains⟩
  · obtain ⟨e, he⟩ := eval_update_of_fails step hp₁ (hfails t₁ h₁) sp₁ false
    obtain ⟨-, e', he'⟩ := hfails t₄ h₄
    obtain ⟨e'', he''⟩ := eval_update_of_fails step hp₃ (hfails t₃ h₃) sp₃ true
    have hsum := eval_binary_of_error sp₄ he' step.operator (.number sp₅ 1)
    exact .inr ⟨e, e', e'', m, he, eval_compound_of_error hp₂ hsum _, he'', .refl m⟩

end Expr

/-! ## Reading -/

/-- The source is one line of the given words, each one a token with its kind. -/
def Token.IsLine (source : String) (words : List (Kind × String)) : Prop :=
  (tokens? source).map (List.map gist) = some (words.map fun word => (word.1, word.2, false))

instance (source : String) (words : List (Token.Kind × String)) :
    Decidable (Token.IsLine source words) :=
  inferInstanceAs (Decidable (_ = _))

/-- What a line is read as depends on its words only, up to places. -/
theorem Block.parse_of_isLine {source : String} {words : List (Token.Kind × String)} {tree : Expr}
    {span : Span} {s : TokenStream} (hline : Token.IsLine source words)
    (hread : Parser.program (bare words) = .ok ⟨[tree], span⟩ s) :
    ∃ e sp, Block.parse source = .ok ⟨[e], sp⟩ ∧ e.erase = tree.erase := by
  obtain ⟨tokens, htokens, hgist⟩ := Option.map_eq_some_iff.1 hline
  have halike := TokenStream.alike_bare (Token.mapM_toOption htokens) hgist
  have hmeets := Parser.program_alike halike
  rw [hread] at hmeets
  unfold Block.parse
  cases hrun : Parser.program (.ofSource source) with
  | error error s' =>
      rw [hrun] at hmeets
      exact hmeets.elim
  | ok block s' =>
      rw [hrun] at hmeets
      obtain ⟨body, sp⟩ := block
      have herase : Expr.eraseAll body = [tree.erase] := hmeets.1.1
      obtain ⟨e, rfl⟩ : ∃ e, body = [e] := by
        rw [← List.length_eq_one_iff, ← Expr.length_eraseAll, herase, List.length_singleton]
      exact ⟨e, sp, rfl, (List.cons.inj herase).1⟩

namespace Expr

/-- The words of a plain place. -/
inductive SpelledBy : Expr → List (Token.Kind × String) → Prop where
  | name (name : String) : SpelledBy (.identifier (.empty 0) name) [(.identifier, name)]
  | atName (list index : String) :
      SpelledBy (.index (.empty 0) (.identifier (.empty 0) list) (.identifier (.empty 0) index))
        [(.identifier, list), (.symbol .leftBracket, "["), (.identifier, index),
          (.symbol .rightBracket, "]")]
  | atNumber (list literal : String) :
      SpelledBy
        (.index (.empty 0) (.identifier (.empty 0) list) (.number (.empty 0) (.ofLiteral literal)))
        [(.identifier, list), (.symbol .leftBracket, "["), (.number, literal),
          (.symbol .rightBracket, "]")]

namespace SpelledBy

variable {place : Expr} {words : List (Token.Kind × String)} (h : place.SpelledBy words)
include h

theorem isPlainPlace : place.isPlainPlace = true := by
  cases h <;> rfl

theorem program_before (step : Step) :
    Parser.program (bare ((.symbol step.token, step.token.spelling) :: words)) =
      .ok ⟨[.update (.empty 0) step false place], ⟨0, 0⟩⟩ (bare []) := by
  cases h <;> cases step <;> rfl

theorem program_after (step : Step) :
    Parser.program (bare (words ++ [(.symbol step.token, step.token.spelling)])) =
      .ok ⟨[.update (.empty 0) step true place], ⟨0, 0⟩⟩ (bare []) := by
  cases h <;> cases step <;> rfl

theorem program_compound (step : Step) :
    Parser.program (bare (words ++
        [(.symbol step.compoundToken, step.compoundToken.spelling), (.number, "1")])) =
      .ok ⟨[place.compound step], ⟨0, 0⟩⟩ (bare []) := by
  have hone : Number.ofLiteral "1" = 1 := by decide +kernel
  rw [compound, ← hone]
  cases h <;> cases step <;> rfl

end SpelledBy

/-- Updates and compound assignments agree. Let `t` be a plain place: a name, or a name at a
position that is a name or a number. Whatever the state, the update before `t`, the assignment of
`t` changed by one, and the update after `t` agree, wherever in a source they stand. Written out
with the words of a place, on one line, they are read as these three expressions. -/
theorem update_agrees (step : Step) :
    (∀ t before compound after : Expr, t.isPlainPlace = true →
      before.erase = .update (.empty 0) step false t.erase →
      compound.erase = t.erase.compound step →
      after.erase = .update (.empty 0) step true t.erase →
      ∀ (ctx : Context) (m : Machine), StepsAgree ctx m t before compound after) ∧
    ∀ (t : Expr) (words : List (Token.Kind × String)), t.SpelledBy words →
      ∀ source source' source'' : String,
      Token.IsLine source ((.symbol step.token, step.token.spelling) :: words) →
      Token.IsLine source' (words ++
        [(.symbol step.compoundToken, step.compoundToken.spelling), (.number, "1")]) →
      Token.IsLine source'' (words ++ [(.symbol step.token, step.token.spelling)]) →
      ∃ before compound after sp sp' sp'', Block.parse source = .ok ⟨[before], sp⟩ ∧
        Block.parse source' = .ok ⟨[compound], sp'⟩ ∧
        Block.parse source'' = .ok ⟨[after], sp''⟩ ∧
        ∀ (ctx : Context) (m : Machine), StepsAgree ctx m t before compound after := by
  constructor
  · intro t before compound after ht hbefore hcompound hafter ctx m
    exact stepsAgree_of_isPlainPlace ht hbefore hcompound hafter ctx m
  · intro t words ht source source' source'' hsource hsource' hsource''
    obtain ⟨before, sp, hparse, hbefore⟩ :=
      Block.parse_of_isLine hsource (ht.program_before step)
    obtain ⟨compound, sp', hparse', hcompound⟩ :=
      Block.parse_of_isLine hsource' (ht.program_compound step)
    obtain ⟨after, sp'', hparse'', hafter⟩ :=
      Block.parse_of_isLine hsource'' (ht.program_after step)
    refine ⟨before, compound, after, sp, sp', sp'', hparse, hparse', hparse'', fun ctx m => ?_⟩
    exact stepsAgree_of_isPlainPlace ht.isPlainPlace hbefore hcompound hafter ctx m

/-- The one element of a list, the number one, is changed in all three ways, and these can be
written without blanks. -/
theorem update_agrees_element :
    let m : Machine := ⟨⟨#[[.number 1]]⟩,
      (Scopes.none.newScope []).2.bind 0 "l" (.list 0) ⟨false, false⟩ none, #[], 0, 0⟩
    let ctx : Context := ⟨{}, Closure.call {} 0, 0⟩
    let t : Expr := .index (.empty 0) (.identifier (.empty 0) "l") (.number (.empty 0) 0)
    (∃ old new m', t.eval ctx m = .ok old m ∧
      (Expr.update ⟨0, 6⟩ .increment false t).eval ctx m = .ok new m' ∧
      (t.compound .increment).eval ctx m = .ok new m' ∧
      (Expr.update ⟨0, 6⟩ .increment true t).eval ctx m = .ok old m') ∧
    ∃ before compound after sp sp' sp'', Block.parse "++l[0]" = .ok ⟨[before], sp⟩ ∧
      Block.parse "l[0]+=1" = .ok ⟨[compound], sp'⟩ ∧ Block.parse "l[0]++" = .ok ⟨[after], sp''⟩ ∧
      StepsAgree ctx m (.index (.empty 0) (.identifier (.empty 0) "l")
        (.number (.empty 0) (.ofLiteral "0"))) before compound after := by
  intro m ctx t
  obtain ⟨htrees, htexts⟩ := update_agrees .increment
  constructor
  · have hshown : (((Expr.update ⟨0, 6⟩ .increment false t).eval ctx).run' m).map Value.kind =
        some .number := by
      decide +kernel
    obtain hagree | ⟨e, e', e'', m', hbefore, -⟩ :=
      htrees t (.update ⟨0, 6⟩ .increment false t) (t.compound .increment)
        (.update ⟨0, 6⟩ .increment true t) rfl rfl rfl rfl ctx m
    · exact hagree
    · delta EStateM.run' EStateM.run at hshown
      rw [hbefore] at hshown
      cases hshown
  · obtain ⟨before, compound, after, sp, sp', sp'', hbefore, hcompound, hafter, hagree⟩ :=
      htexts _ _ (.atNumber "l" "0") "++l[0]" "l[0]+=1" "l[0]++" (by decide +kernel)
        (by decide +kernel) (by decide +kernel)
    exact ⟨before, compound, after, sp, sp', sp'', hbefore, hcompound, hafter, hagree ctx m⟩

end Expr

end ListScript
