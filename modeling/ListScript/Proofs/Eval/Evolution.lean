import ListScript.Proofs.Eval.Congruence
import ListScript.Proofs.Scope.Sharing

/-!
# What evaluation does to the machine

However an evaluation ends, it has changed the scopes by operations on its own scope and on scopes
that it opened itself, it has only added to the output, and all calls that it opened are closed
again. `Eval.congruence_evolving` says so of everything that evaluations are made up of, and
`Closure.call_evolving` of calls, which have no scope of their own among those that existed before.
-/

namespace ListScript

/-- The machine that an action leaves, also when it fails. -/
def Eval.after {α : Type} (action : Eval α) (machine : Machine) : Machine :=
  match action machine with
  | .ok _ machine => machine
  | .error _ machine => machine

/-- `Evolves own m m'` says that `m'` comes from `m` by changes to `own` scopes and to scopes that
`m` does not have, with more output perhaps, and with the same calls open. -/
structure Machine.Evolves (own : ScopeId → Prop) (m m' : Machine) : Prop where
  scopes : Scopes.Changes (fun id => own id ∨ m.scopes.scopes.size ≤ id) m.scopes m'.scopes
  output : m.output.toList <+: m'.output.toList
  depth : m'.depth = m.depth

/-- The action lets every machine evolve. -/
def Eval.Evolving (own : ScopeId → Prop) {α : Type} (action : Eval α) : Prop :=
  ∀ m, Machine.Evolves own m (action.after m)

namespace Machine.Evolves

variable {own : ScopeId → Prop} {m m' m'' : Machine}

/-- A machine with another heap only evolves. -/
theorem of_heap (own : ScopeId → Prop) (m : Machine) (heap : Heap) :
    Evolves own m { m with heap } :=
  ⟨.refl, List.prefix_rfl, rfl⟩

/-- Staying as it is counts as evolving. -/
theorem refl (own : ScopeId → Prop) (m : Machine) : Evolves own m m := of_heap own m m.heap

/-- A machine with one permitted change of scopes evolves. -/
theorem of_change {scopes : Scopes}
    (h : Scopes.Change (fun id => own id ∨ m.scopes.scopes.size ≤ id) m.scopes scopes) :
    Evolves own m { m with scopes } :=
  ⟨.single h, List.prefix_rfl, rfl⟩

/-- Evolving goes on, since the scopes opened first stay older than those opened later. -/
theorem trans (h : Evolves own m m') (h' : Evolves own m' m'') : Evolves own m m'' where
  scopes := by
    refine h.scopes.trans (Relation.ReflTransGen.mono (fun _ _ hchange => hchange.mono ?_) _ _
      h'.scopes)
    intro id hid
    exact hid.imp_right (Nat.le_trans h.scopes.size_le)
  output := h.output.trans h'.output
  depth := h'.depth.trans h.depth

/-- With more scopes of its own, a machine evolves all the more. -/
theorem mono {own' : ScopeId → Prop} (hle : ∀ id, own id → own' id) (h : Evolves own m m') :
    Evolves own' m m' where
  scopes := Relation.ReflTransGen.mono
    (fun _ _ hchange => hchange.mono fun id hid => hid.imp_left (hle id)) _ _ h.scopes
  output := h.output
  depth := h.depth

end Machine.Evolves

namespace Eval

/-- A sequence stops at the first failure. -/
theorem run_bind {α β : Type} (x : Eval α) (f : α → Eval β) (m : Machine) :
    (x >>= f) m =
      match x m with
      | .ok a m' => f a m'
      | .error error m' => .error error m' := by
  simp only [bind, EStateM.bind]
  cases x m <;> rfl

/-- A sequence goes on from what its first part yields. -/
theorem run_bind_ok {α β : Type} {x : Eval α} {m m' : Machine} {a : α} (h : x m = .ok a m')
    (f : α → Eval β) : (x >>= f) m = f a m' := by
  rw [run_bind, h]

/-- The machine after a sequence. -/
theorem after_bind {α β : Type} (x : Eval α) (f : α → Eval β) (m : Machine) :
    (x >>= f).after m =
      match x m with
      | .ok a m' => (f a).after m'
      | .error _ m' => m' := by
  rw [after, run_bind]
  cases x m <;> rfl

/-- The relation holds of every machine and the one that the action leaves, also when it fails. -/
def Leads (R : Machine → Machine → Prop) {α : Type} (x : Eval α) : Prop := ∀ m, R m (x.after m)

namespace Leads

variable {R : Machine → Machine → Prop} {α β : Type}

/-- An action that leaves the machine alone. -/
theorem of_after (hrefl : ∀ m, R m m) {x : Eval α} (h : ∀ m, x.after m = m) : Leads R x := by
  intro m
  rw [h]
  exact hrefl m

/-- Where the action succeeds, the relation holds of the machine that it leaves. -/
theorem ok {x : Eval α} (hx : Leads R x) {m m' : Machine} {a : α} (hrun : x m = .ok a m') :
    R m m' := by
  have hafter := hx m
  rwa [after, hrun] at hafter

/-- Where the action fails, the relation holds of the machine that it leaves. -/
theorem error {x : Eval α} (hx : Leads R x) {m m' : Machine} {e : RuntimeError}
    (hrun : x m = .error e m') : R m m' := by
  have hafter := hx m
  rwa [after, hrun] at hafter

/-- A transitive relation passes through sequences. -/
theorem bind (htrans : ∀ ⦃m m' m''⦄, R m m' → R m' m'' → R m m'') {x : Eval α} {f : α → Eval β}
    (hx : Leads R x) (hf : ∀ a, Leads R (f a)) : Leads R (x >>= f) := by
  intro m
  rw [after_bind]
  cases hrun : x m with
  | error error m' => exact hx.error hrun
  | ok a m' => exact htrans (hx.ok hrun) (hf a m')

end Leads

variable {own : ScopeId → Prop}

/-- A sequence of evolving actions is evolving. -/
theorem Evolving.bind {α β : Type} {x : Eval α} {f : α → Eval β} (hx : Evolving own x)
    (hf : ∀ a, Evolving own (f a)) : Evolving own (x >>= f) :=
  Leads.bind (fun _ _ _ => .trans) hx hf

/-- An action that evolves some scopes evolves more. -/
theorem Evolving.mono {own' : ScopeId → Prop} (hle : ∀ id, own id → own' id) {α : Type}
    {x : Eval α} (hx : Evolving own x) : Evolving own' x :=
  fun m => (hx m).mono hle

/-- The machine after an action on the heap has the same scopes, output and open calls. -/
theorem after_onHeap {α : Type} (span : Span) (action : HeapM α) (m : Machine) :
    ∃ heap, (onHeap span action).after m = { m with heap } := by
  simp only [after, onHeap]
  cases action m.heap with
  | ok a heap => exact ⟨heap, rfl⟩
  | error fault heap => exact ⟨heap, rfl⟩

/-- Looking a name up leaves the machine alone. -/
theorem after_lookup (scope : ScopeId) (name : String) (span : Span) (m : Machine) :
    (lookup scope name span).after m = m := by
  simp only [after, lookup]
  cases m.scopes.lookup? scope name <;> rfl

/-- The machine after an assignment has the scopes after it, if it is permitted. -/
theorem after_assign (scope : ScopeId) (name : String) (value : Value) (mode : BindingMode)
    (limit : Option Nat) (span : Span) (m : Machine) :
    (assign scope name value mode limit span).after m =
      match m.scopes.assign scope name value mode limit with
      | .ok scopes => { m with scopes }
      | .error _ => m := by
  simp only [after, assign]
  cases m.scopes.assign scope name value mode limit <;> rfl

/-- A call of a function of the host lets the machine evolve, whatever its scopes. -/
theorem evolving_callNative (own : ScopeId → Prop) (now : Clock) (native : Native)
    (arguments : List Value) (span : Span) :
    Evolving own (callNative now native arguments span) := by
  intro m
  have hperform : m.Evolves own (after (callNative.perform now native arguments span) m) := by
    simp only [after, callNative.perform]
    cases native.call (fun i => now (m.readings + i)) m.heap arguments with
    | error fault => exact .refl own m
    | ok result =>
        obtain ⟨value, line⟩ := result
        refine ⟨.refl, ?_, rfl⟩
        cases line with
        | none => exact List.prefix_rfl
        | some line => simp
  simp only [after, callNative] at hperform ⊢
  cases native.arity? with
  | none => exact hperform
  | some expected =>
      by_cases harity : expected = arguments.length
      · simpa only [if_pos harity] using hperform
      · simpa only [if_neg harity] using Machine.Evolves.refl own m

/-- Reading a place is evolving. -/
theorem evolving_read (own : ScopeId → Prop) (scope : ScopeId) (place : Place) (span : Span) :
    Evolving own (place.read scope span) := by
  intro m
  cases place with
  | named name =>
      rw [Place.read, after_lookup]
      exact .refl own m
  | element target index =>
      obtain ⟨heap, heq⟩ := after_onHeap span (HeapM.readIndex target index) m
      rw [Place.read, heq]
      exact .of_heap own m heap

/-- The elementary actions of an evaluation are evolving. -/
theorem Basic.evolving {now : Clock} {scope : ScopeId} {α : Type} {x : Eval α}
    (h : Basic now scope x) : Evolving (· = scope) x := by
  intro m
  cases h with
  | pure | fail | state => exact .refl _ m
  | onHeap span action =>
      obtain ⟨heap, heq⟩ := after_onHeap span action m
      rw [heq]
      exact .of_heap _ m heap
  | lookup name span => exact evolving_read _ scope (.named name) span m
  | assign name value mode limit span =>
      rw [after_assign]
      cases hs : m.scopes.assign scope name value mode limit with
      | ok scopes => exact .of_change (.assign (.inl rfl) hs)
      | error fault => exact .refl _ m
  | release name => exact .of_change (.release _ name (.inl rfl))
  | noteOutput value => exact .of_change (.noteOutput _ value (.inl rfl))
  | callNative native arguments span => exact evolving_callNative _ now native arguments span m
  | peek place span =>
      have h := evolving_read (· = scope) scope place span m
      have heq : (orElse (place.read scope span) .null).after m =
          (place.read scope span).after m := by
        simp only [after, orElse]
        cases place.read scope span m <;> rfl
      rw [heq]
      exact h

/-- Releasing a name when an action fails keeps the action evolving. -/
theorem Evolving.onFailure {α : Type} {x : Eval α} {scope : ScopeId}
    (hx : Evolving (· = scope) x) (name : String) :
    Evolving (· = scope) (onFailure x fun machine =>
      { machine with scopes := machine.scopes.release scope name }) := by
  intro m
  have h := hx m
  simp only [after, Eval.onFailure] at h ⊢
  cases hresult : x m with
  | ok a m' =>
      rw [hresult] at h
      exact h
  | error error m' =>
      rw [hresult] at h
      exact h.trans (.of_change (.release _ name (.inl rfl)))

/-- Making a value ready to be stored leaves the machine alone. -/
theorem after_bind_settle (x : Eval Value) (span : Span) (m : Machine) :
    (x >>= settle span).after m = x.after m := by
  rw [after_bind, after]
  cases x m with
  | error error m' => rfl
  | ok value m' =>
      show (ofExcept span value.settle).after m' = m'
      cases value.settle <;> rfl

/-- The machine after an action that is followed by a change. -/
theorem after_afterwards {α : Type} (x : Eval α) (cleanup : Machine → Machine) (m : Machine) :
    (afterwards x cleanup).after m = cleanup (x.after m) := by
  simp only [after, afterwards]
  cases x m <;> rfl

/-- Evaluation in a scope evolves that scope if calls evolve none. -/
theorem Evolving.congruence {ctx : Context}
    (hcall : ∀ closure arguments span,
      Evolving (fun _ => False) (ctx.call closure arguments span)) :
    Congruence ctx ctx fun x _ => Evolving (· = ctx.scope) x where
  scope_eq := rfl
  now_eq := rfl
  basic h := h.evolving
  bind hx hf := hx.bind hf
  release name hx := hx.onFailure name
  loop span hholds hbody hstep := by
    refine loop_of_bind ?_ ?_ (fun hx hf => hx.bind hf) hholds hbody hstep _ span _ 0
    · exact fun value => (Basic.pure value : Basic ctx.config.now ctx.scope _).evolving
    · exact fun fault span => (Basic.fail fault span : Basic ctx.config.now ctx.scope _).evolving
  call closure arguments span := (hcall closure arguments span).mono fun _ => False.elim

end Eval

namespace Closure

/-- A call's frame is a scope that did not exist before. -/
theorem openFrame_fst (closure : Closure) (arguments : List Value) (s : Scopes) :
    (closure.openFrame arguments s).1 = s.scopes.size := by
  simp only [openFrame, Scopes.newFrame, Scopes.newScope]
  rw [(Scopes.extends_inherit s _).scopes]

/-- Opening a call's frame changes that frame only. -/
theorem changes_openFrame (closure : Closure) (arguments : List Value) (s : Scopes) :
    Scopes.Changes (fun id => s.scopes.size ≤ id) s (closure.openFrame arguments s).2 := by
  have hframe : s.scopes.size ≤ (s.newFrame closure.scope).1 :=
    Nat.le_of_eq (closure.openFrame_fst arguments s).symm
  exact .head (.newFrame s closure.scope)
    (Scopes.changes_foldl_declare hframe Prod.fst Prod.snd _ _)

/-- A call with the wrong number of arguments fails before anything happens. -/
theorem call_of_ne {config : Config} {closure : Closure} {arguments : List Value}
    (h : arguments.length ≠ closure.parameters.length) (free : Nat) (span : Span) :
    call config free closure arguments span =
      Eval.fail (.invalidArgumentCount arguments.length closure.parameters.length) span := by
  cases free <;> rw [call, if_pos h]

/-- A call fails before anything happens if no more calls may be nested. -/
theorem call_zero {config : Config} {closure : Closure} {arguments : List Value}
    (h : arguments.length = closure.parameters.length) (span : Span) :
    call config 0 closure arguments span =
      Eval.fail (.callDepthExceeded config.maxCallDepth) span := by
  rw [call, if_neg (not_not_intro h)]

/-- What a function's body does in a call: it is evaluated in its frame, and then the call is
closed. -/
def evalBody (config : Config) (free : Nat) (closure : Closure) (frame : ScopeId) : Eval Value :=
  Eval.afterwards (Expr.evalBlock ⟨config, call config free, frame⟩ false .nothing closure.body)
    fun machine => { machine with depth := machine.depth - 1 }

/-- Any other call evaluates the body in a new frame. -/
theorem call_succ {config : Config} {closure : Closure} {arguments : List Value}
    (h : arguments.length = closure.parameters.length) (free : Nat) (span : Span) (m : Machine) :
    call config (free + 1) closure arguments span m =
      (closure.evalBody config free m.scopes.scopes.size >>= Eval.settle span)
        { m with scopes := (closure.openFrame arguments m.scopes).2, depth := m.depth + 1 } := by
  rw [call, if_neg (not_not_intro h), ← closure.openFrame_fst arguments m.scopes]
  rfl

/-- If calls evolve no scope that existed before them, nor does a call that makes such calls. -/
theorem call_succ_evolving {config : Config} {free : Nat}
    (hcall : ∀ closure arguments span,
      Eval.Evolving (fun _ => False) (call config free closure arguments span))
    (closure : Closure) (arguments : List Value) (span : Span) :
    Eval.Evolving (fun _ => False) (call config (free + 1) closure arguments span) := by
  by_cases harity : arguments.length = closure.parameters.length
  · intro m
    have hopen := closure.changes_openFrame arguments m.scopes
    have hbody := (Eval.Evolving.congruence hcall :
        Eval.Congruence ⟨config, call config free, m.scopes.scopes.size⟩ _ _).evalBlock
      false .nothing closure.body
      { m with scopes := (closure.openFrame arguments m.scopes).2, depth := m.depth + 1 }
    rw [Eval.after, call_succ harity, ← Eval.after, Eval.after_bind_settle, evalBody,
      Eval.after_afterwards]
    -- The frame is new, so changes to it and to scopes newer than it are changes to new scopes.
    refine ⟨?_, hbody.output, ?_⟩
    · refine (Relation.ReflTransGen.mono (fun _ _ h => h.mono fun _ => Or.inr) _ _ hopen).trans
        (Relation.ReflTransGen.mono (fun _ _ h => h.mono fun id hid => ?_) _ _ hbody.scopes)
      rcases hid with rfl | hid
      · exact .inr (Nat.le_refl _)
      · exact .inr (Nat.le_trans hopen.size_le hid)
    · show _ - 1 = m.depth
      rw [hbody.depth]
      rfl
  · rw [call_of_ne harity]
    exact fun m => .refl _ m

/-- A call evolves no scope that existed before it. -/
theorem call_evolving (config : Config) (free : Nat) (closure : Closure) (arguments : List Value)
    (span : Span) : Eval.Evolving (fun _ => False) (call config free closure arguments span) := by
  induction free generalizing closure arguments span with
  | zero =>
      by_cases harity : arguments.length = closure.parameters.length
      · rw [call_zero harity]
        exact fun m => .refl _ m
      · rw [call_of_ne harity]
        exact fun m => .refl _ m
  | succ free ih => exact call_succ_evolving ih closure arguments span

end Closure

/-- Evaluation evolves no scope that existed before it but its own. -/
theorem Eval.congruence_evolving (config : Config) (free : Nat) (scope : ScopeId) :
    Congruence ⟨config, Closure.call config free, scope⟩ ⟨config, Closure.call config free, scope⟩
      fun x _ => Evolving (· = scope) x :=
  Evolving.congruence (Closure.call_evolving config free)

namespace Session

/-- A session that programs and expressions have led to from the start, whether they failed or
not. -/
inductive Reachable : Session → Prop where
  | start (config : Config) : Reachable (start config)
  | run {session : Session} (h : Reachable session) (program : Block) :
      Reachable (session.run program).2
  | evaluate {session : Session} (h : Reachable session) (e : Expr) :
      Reachable (session.evaluate e).2

/-- What is performed in a session leaves the machine that it leaves outside of one. -/
theorem machine_perform (session : Session) (action : Context → Eval Value) :
    (session.perform action).2.machine = (action session.context).after session.machine := by
  simp only [perform, Eval.after]
  cases action session.context session.machine <;> rfl

/-- A program lets the machine evolve. -/
theorem run_evolves (session : Session) (program : Block) :
    session.machine.Evolves (· = session.scope) (session.run program).2.machine := by
  rw [run, machine_perform, Eval.after_bind_settle]
  exact (Eval.congruence_evolving _ _ _).evalBlock true .nothing program.body session.machine

/-- An expression lets the machine evolve. -/
theorem evaluate_evolves (session : Session) (e : Expr) :
    session.machine.Evolves (· = session.scope) (session.evaluate e).2.machine := by
  rw [evaluate, machine_perform]
  exact (Eval.congruence_evolving _ _ _).eval e session.machine

/-- The scopes of a session are built up by operations on scopes. -/
theorem Reachable.scopes {session : Session} (h : session.Reachable) :
    session.machine.scopes.Reachable := by
  induction h with
  | start config => exact Scopes.reachable_newGlobal .refl
  | run h program ih => exact ih.changes (run_evolves _ program).scopes
  | evaluate h e ih => exact ih.changes (evaluate_evolves _ e).scopes

end Session

end ListScript
