import ListScript.Proofs.Eval.Quiet
import ListScript.Proofs.Eval.Walking
import ListScript.Proofs.Scope.Assignment

/-!
# What a loop over items does to other scopes

The name of a loop over items is bound by an ordinary assignment. If the loop's scope binds the name
already, the items are stored in the slot of that binding, and other scopes that share the slot see
them. `Expr.forEach_effect_elsewhere` says that a loop with a quiet body does nothing else to other
scopes, and what they see: the item of the last round.
-/

namespace ListScript

namespace Scopes

/-- What may become of scopes as long as, in one of them, allowed names are bound to items and
released, and nothing else happens. -/
structure Walked (scope : ScopeId) (allowed : String → Bool) (s s' : Scopes) : Prop where
  sound : s'.Sound
  elsewhere : ∀ id ≠ scope, s'.bindings id = s.bindings id
  binding : ∀ x, allowed x = false → s'.binding? scope x = s.binding? scope x
  origin : ∀ x b, s'.binding? scope x = some b →
    s.binding? scope x = some b ∨ s.slots.size ≤ b.slot
  slots : s.slots.size ≤ s'.slots.size
  read : ∀ slot < s.slots.size, s'.read slot = s.read slot ∨
    ∃ x b, allowed x = true ∧ s.binding? scope x = some b ∧ b.isConst = false ∧ b.slot = slot

namespace Walked

variable {scope : ScopeId} {allowed : String → Bool} {s s' s'' : Scopes}

theorem refl (hs : s.Sound) : Walked scope allowed s s :=
  ⟨hs, fun _ _ => rfl, fun _ _ => rfl, fun _ _ h => .inl h, Nat.le_refl _, fun _ _ => .inl rfl⟩

theorem trans (h : Walked scope allowed s s') (h' : Walked scope allowed s' s'') :
    Walked scope allowed s s'' where
  sound := h'.sound
  elsewhere id hid := (h'.elsewhere id hid).trans (h.elsewhere id hid)
  binding x hx := (h'.binding x hx).trans (h.binding x hx)
  origin x b hb := by
    obtain hb | hnew := h'.origin x b hb
    · exact h.origin x b hb
    · exact .inr (Nat.le_trans h.slots hnew)
  slots := Nat.le_trans h.slots h'.slots
  read slot hslot := by
    obtain hread | ⟨x, b, hx, hb, hconst, rfl⟩ :=
      h'.read slot (Nat.lt_of_lt_of_le hslot h.slots)
    · rw [hread]
      exact h.read slot hslot
    · -- a binding made on the way has a slot of its own
      obtain hb | hnew := h.origin x b hb
      · exact .inr ⟨x, b, hx, hb, hconst, rfl⟩
      · exact absurd hslot (Nat.not_lt.2 hnew)

theorem mono {more : String → Bool} (hle : ∀ x, allowed x = true → more x = true)
    (h : Walked scope allowed s s') : Walked scope more s s' where
  sound := h.sound
  elsewhere := h.elsewhere
  binding x hx := by
    refine h.binding x ?_
    rw [← Bool.not_eq_true] at hx ⊢
    exact fun hallowed => hx (hle x hallowed)
  origin := h.origin
  slots := h.slots
  read slot hslot := by
    obtain hread | ⟨x, b, hx, hb, hconst, hslot⟩ := h.read slot hslot
    · exact .inl hread
    · exact .inr ⟨x, b, hle x hx, hb, hconst, hslot⟩

/-- Another scope sees another value only through a slot that a loop's name shares. -/
theorem lookup?_of_not_shared (hs : s.Sound) (h : Walked scope allowed s s') {id : ScopeId}
    (hid : id ≠ scope) {x : String}
    (hx : ¬ (allowed x = true ∧ s.SharesSlot scope id x ∧ ¬ s.IsConstant scope x)) :
    s'.lookup? id x = s.lookup? id x := by
  have hsame : s'.binding? id x = s.binding? id x := by
    rw [binding?, h.elsewhere id hid, ← binding?]
  rw [lookup?, lookup?, hsame]
  cases hc : s.binding? id x with
  | none => rfl
  | some c =>
      obtain hread | ⟨y, b, hy, hb, hconst, hslot⟩ := h.read c.slot (hs.bound hc)
      · rw [Option.map_some, Option.map_some, hread]
      · obtain ⟨heq, -⟩ | ⟨rfl, -⟩ := hs.shared hb hc hslot
        · exact absurd heq.symm hid
        · refine absurd ⟨hy, ⟨b, c, hb, hc, hslot⟩, ?_⟩ hx
          rintro ⟨b', hb', hconst'⟩
          rw [hb] at hb'
          cases hb'
          rw [hconst] at hconst'
          cases hconst'

/-- The value of a name that is not allowed stays. -/
theorem read_of_not_allowed (hs : s.Sound) (h : Walked scope allowed s s') {x : String}
    {b : Binding} (hx : allowed x = false) (hb : s.binding? scope x = some b) :
    s'.read b.slot = s.read b.slot := by
  obtain hread | ⟨y, c, hy, hc, -, hslot⟩ := h.read b.slot (hs.bound hb)
  · exact hread
  · have heq : y = x := by
      obtain ⟨-, heq⟩ | ⟨heq, -⟩ := hs.shared hc hb hslot <;> exact heq
    rw [heq, hx] at hy
    cases hy

end Walked

/-- An assignment that asks for nothing leaves the binding as it is. -/
theorem remark_plain (b : Binding) : remark b ⟨false, false⟩ Option.none = b := by
  simp [remark]

/-- Storing under an allowed name is within what may happen. -/
theorem walked_assign {scope : ScopeId} {allowed : String → Bool} {s s' : Scopes} (hs : s.Sound)
    {name : String} (hname : allowed name = true) {value : Value}
    (h : s.assign scope name value ⟨false, false⟩ Option.none = .ok s') :
    Walked scope allowed s s' := by
  have hsound := hs.assign h
  obtain ⟨b, hb, hconst, rfl⟩ | ⟨hnone, rfl⟩ := assign_cases h
  · rw [remark_plain] at hsound ⊢
    -- the name keeps its binding, whose slot is written
    have hsame (x : String) : ((s.withBindings scope (.insert name b)).write b.slot value).binding?
        scope x = s.binding? scope x := by
      show (s.withBindings scope (.insert name b)).binding? scope x = _
      rw [binding?_insert]
      split
      · next hx => rw [hx.2.1, hb]
      · rfl
    refine ⟨hsound, ?_, fun x _ => hsame x, fun x c hc => .inl (by rwa [hsame] at hc), ?_, ?_⟩
    · intro id hid
      show (s.withBindings scope (.insert name b)).bindings id = _
      rw [bindings_withBindings, if_neg fun h => hid h.1]
    · simp [write, withBindings]
    · intro slot _
      by_cases hslot : b.slot = slot
      · exact .inr ⟨name, b, hname, hb, hconst, hslot⟩
      · left
        rw [read_write, if_neg fun h => hslot h.1.symm]
        rfl
  · refine ⟨hsound, ?_, ?_, ?_, ?_, ?_⟩
    · intro id hid
      rw [bind, bindings_withBindings, if_neg fun h => hid h.1]
      rfl
    · intro x hx
      rw [binding?_bind, if_neg]
      rintro ⟨-, rfl, -⟩
      rw [hname] at hx
      cases hx
    · intro x c hc
      rw [binding?_bind] at hc
      split at hc
      · cases hc
        exact .inr (Nat.le_refl _)
      · exact .inl hc
    · exact (extends_newSlot s value).slots
    · intro slot hslot
      left
      rw [read_bind, if_neg (Nat.ne_of_lt hslot)]

/-- Releasing an allowed name is within what may happen. -/
theorem walked_release {scope : ScopeId} {allowed : String → Bool} {s : Scopes} (hs : s.Sound)
    {name : String} (hname : allowed name = true) :
    Walked scope allowed s (s.release scope name) := by
  refine ⟨hs.release scope name, ?_, ?_, ?_, Nat.le_refl _, fun _ _ => .inl rfl⟩
  · intro id hid
    rw [release, bindings_withBindings, if_neg fun h => hid h.1]
  · intro x hx
    rw [binding?_release, if_neg]
    rintro ⟨-, rfl⟩
    rw [hname] at hx
    cases hx
  · intro x b hb
    rw [binding?_release] at hb
    split at hb
    · cases hb
    · exact .inl hb

end Scopes

namespace Eval

/-- The action does nothing to sound scopes but to bind allowed names of one of them to items and to
release them, and nothing to lists but to make new ones. -/
def Walks (scope : ScopeId) (allowed : String → Bool) {α : Type} (x : Eval α) : Prop :=
  Leads (fun m m' => m.scopes.Sound →
    Scopes.Walked scope allowed m.scopes m'.scopes ∧ m.heap.Extends m'.heap) x

/-- New lists are within what may happen. -/
theorem allowsLists_walked (scope : ScopeId) (allowed : String → Bool) :
    AllowsLists (fun m m' => m.scopes.Sound →
      Scopes.Walked scope allowed m.scopes m'.scopes ∧ m.heap.Extends m'.heap) where
  refl m hm := ⟨.refl hm, .refl m.heap⟩
  trans _ _ _ h h' hm := by
    obtain ⟨hscopes, hheap⟩ := h hm
    obtain ⟨hscopes', hheap'⟩ := h' hscopes.sound
    exact ⟨hscopes.trans hscopes', hheap.trans hheap'⟩
  heap h hm := ⟨.refl hm, h⟩

namespace Walks

variable {scope : ScopeId} {allowed : String → Bool} {α : Type}

theorem release {name : String} (hname : allowed name = true) :
    Walks scope allowed (changeScopes (·.release scope name)) :=
  fun m hm => ⟨Scopes.walked_release hm hname, .refl m.heap⟩

theorem assign {name : String} (hname : allowed name = true) (value : Value) (span : Span) :
    Walks scope allowed (assign scope name value ⟨false, false⟩ none span) := by
  intro m hm
  rw [after_assign]
  cases hassign : m.scopes.assign scope name value ⟨false, false⟩ none with
  | ok scopes => exact ⟨Scopes.walked_assign hm hname hassign, .refl m.heap⟩
  | error fault => exact ⟨.refl hm, .refl m.heap⟩

theorem onFailure {x : Eval α} (hx : Walks scope allowed x) {name : String}
    (hname : allowed name = true) :
    Walks scope allowed (onFailure x fun machine =>
      { machine with scopes := machine.scopes.release scope name }) := by
  intro m hm
  have hxm := hx m hm
  rw [after] at hxm
  rw [after, Eval.onFailure]
  cases hrun : x m with
  | ok a m' =>
      rw [hrun] at hxm
      exact hxm
  | error error m' =>
      rw [hrun] at hxm
      exact ⟨hxm.1.trans (Scopes.walked_release hxm.1.sound hname), hxm.2⟩

theorem forEach {name : String} (hname : allowed name = true) {body : Eval Value}
    (hbody : Walks scope allowed body) (span : Span) (total : Value) (items : List Value) :
    Walks scope allowed (forEach scope name span body total items) := by
  have hR := allowsLists_walked scope allowed
  have hend (value : Value) : Walks scope allowed (do
      changeScopes (·.release scope name)
      return value) :=
    .bind hR.trans (release hname) fun _ => .of_after hR.refl fun _ => rfl
  induction items with
  | nil => exact hend total
  | cons item rest ih =>
      refine .bind hR.trans (assign hname item span) fun _ =>
        .bind hR.trans (hbody.onFailure hname) fun value => ?_
      cases Flow.ofValue value with
      | next => exact ih
      | stop => exact hend total
      | escape signal => exact hend (.control signal)

theorem mono {more : String → Bool} (hle : ∀ x, allowed x = true → more x = true) {x : Eval α}
    (hx : Walks scope allowed x) : Walks scope more x :=
  fun m hm => ⟨(hx m hm).1.mono hle, (hx m hm).2⟩

end Walks

/-- What quiet evaluations are made up of does no more than walks may do. -/
theorem respected_walks (scope : ScopeId) (allowed : String → Bool) :
    Quiet.Respected scope allowed (Walks scope allowed) :=
  (allowsLists_walked scope allowed).respected fun span total items hname hbody =>
    Walks.forEach hname hbody span total items

/-- A walk binds its own name and those that its body binds. -/
theorem Walks.walkValue {ctx : Context} {allowed : String → Bool} {body : Eval Value}
    (hbody : Walks ctx.scope allowed body) (kind : Walk) (name : String) (span bodySpan : Span)
    (value : Value) :
    Walks ctx.scope (fun x => x == name || allowed x)
      (walkValue ctx kind name span bodySpan body value) := by
  have hname : (name == name || allowed name) = true := by simp
  have hle (x : String) (hx : allowed x = true) : (x == name || allowed x) = true := by simp [hx]
  exact (respected_walks ctx.scope fun x => x == name || allowed x).walkValue kind hname span
    bodySpan (hbody.mono hle) value

/-- Storing under a name that is bound and not constant writes the slot of its binding. -/
theorem assign_through {scope : ScopeId} {name : String} {m : Machine} (hm : m.scopes.Sound)
    {b : Binding} (hb : m.scopes.binding? scope name = some b) (hconst : b.isConst = false)
    (value : Value) (span : Span) :
    ∃ m', assign scope name value ⟨false, false⟩ none span m = .ok value m' ∧ m'.scopes.Sound ∧
      m'.scopes.binding? scope name = some b ∧ m'.scopes.read b.slot = value := by
  have hassign : m.scopes.assign scope name value ⟨false, false⟩ none =
      .ok ((m.scopes.withBindings scope (.insert name b)).write b.slot value) := by
    rw [Scopes.assign, hb]
    dsimp only
    rw [hconst, if_neg Bool.false_ne_true, Scopes.remark_plain]
  refine ⟨{ m with scopes := _ }, ?_, hm.assign hassign, ?_, ?_⟩
  · simp only [assign, hassign]
    rfl
  · show (m.scopes.withBindings scope (.insert name b)).binding? scope name = some b
    rw [Scopes.binding?_insert, if_pos ⟨rfl, rfl, Scopes.lt_size_of_binding? hb⟩]
  · exact (Scopes.read_write _ _ _ _).trans (if_pos ⟨rfl, hm.bound hb⟩)

/-- A loop over a name that is bound and not constant leaves, in the slot of that binding, the item
of its last round, if the body does not touch the name. -/
theorem forEach_leaves_last {scope : ScopeId} {name : String} {allowed : String → Bool}
    {body : Eval Value} (hbody : Walks scope allowed body) (hname : allowed name = false)
    {b : Binding} (hconst : b.isConst = false) (span : Span) (total item : Value)
    (rest : List Value) {m : Machine} (hm : m.scopes.Sound)
    (hb : m.scopes.binding? scope name = some b) :
    ∃ done last left m₁ m₂, item :: rest = done ++ last :: left ∧
      Rounds scope name span body done m m₁ ∧
      assign scope name last ⟨false, false⟩ none span m₁ = .ok last m₂ ∧
      (left = [] ∨ ∀ value m₃, body m₂ = .ok value m₃ → Flow.ofValue value ≠ .next) ∧
      ((forEach scope name span body total (item :: rest)).after m).scopes.read b.slot = last := by
  obtain ⟨m₁, hassign, hm₁, hb₁, hread₁⟩ := assign_through hm hb hconst item span
  have hafter := (hbody m₁ hm₁).1
  have hread := (hafter.read_of_not_allowed hm₁ hname hb₁).trans hread₁
  rw [after] at hread hafter
  rw [after, forEach_cons hassign]
  -- whether this round is the last one is up to the body, unless no items are left
  cases hrun : body m₁ with
  | error error m₂ =>
      rw [hrun] at hread
      exact ⟨[], item, rest, m, m₁, rfl, ⟨_, .nil m⟩, hassign, .inr (by simp [hrun]), hread⟩
  | ok value m₂ =>
      rw [hrun] at hread hafter
      dsimp only
      cases hflow : Flow.ofValue value with
      | stop | escape signal =>
          refine ⟨[], item, rest, m, m₁, rfl, ⟨_, .nil m⟩, hassign, .inr ?_, hread⟩
          intro value' m₃ hrun'
          rw [hrun] at hrun'
          cases hrun'
          simp [hflow]
      | next =>
          cases rest with
          | nil => exact ⟨[], item, [], m, m₁, rfl, ⟨_, .nil m⟩, hassign, .inl rfl, hread⟩
          | cons next rest =>
              have hb₂ := (hafter.binding name hname).trans hb₁
              obtain ⟨done, last, left, m₃, m₄, hsplit, ⟨_, hrounds⟩, hlast⟩ :=
                forEach_leaves_last hbody hname hconst span total next rest hafter.sound hb₂
              refine ⟨item :: done, last, left, m₃, m₄, ?_, ?_, hlast⟩
              · rw [hsplit, List.cons_append]
              · exact ⟨_, .cons hassign hrun hflow hrounds⟩

end Eval

/-- What a loop over items with a quiet body does to another scope than its own, once the value
that it walks over is known. The scope keeps its bindings, and all lists keep their elements. The
value of a name changes only if the name is that of the loop or of a loop inside it, and the loop's
scope has bound it to the same slot, not as a constant. If the name is that of the loop alone, there
are items, and the slot is shared in this way, then the other scope sees the item of the last round:
the one with which the body was last evaluated. -/
theorem Expr.forEach_effect_elsewhere (ctx : Context) (span : Span) (kind : Walk) (name : String)
    (enumerable body : Expr) (allowed : String → Bool) (hbody : body.quiet allowed = true)
    {m m₀ : Machine} {value : Value} (hvalue : enumerable.eval ctx m = .ok value m₀)
    (hm : m₀.scopes.Reachable) (id : ScopeId) (hid : id ≠ ctx.scope) :
    let m' := ((Expr.forEach span kind name enumerable body).eval ctx).after m
    m'.scopes.bindings id = m₀.scopes.bindings id ∧
    (∀ list < m₀.heap.size, m'.heap.items list = m₀.heap.items list) ∧
    (∀ x, ¬ ((x = name ∨ allowed x = true) ∧ m₀.scopes.SharesSlot ctx.scope id x ∧
        ¬ m₀.scopes.IsConstant ctx.scope x) →
      m'.scopes.lookup? id x = m₀.scopes.lookup? id x) ∧
    ∀ item rest, kind.items? value m₀.heap = some (item :: rest) → allowed name = false →
      m₀.scopes.SharesSlot ctx.scope id name → ¬ m₀.scopes.IsConstant ctx.scope name →
      ∃ done last left m₁ m₂, item :: rest = done ++ last :: left ∧
        Eval.Rounds ctx.scope name body.span (body.eval ctx) done m₀ m₁ ∧
        Eval.assign ctx.scope name last ⟨false, false⟩ none body.span m₁ = .ok last m₂ ∧
        (left = [] ∨ ∀ value m₃, body.eval ctx m₂ = .ok value m₃ → Flow.ofValue value ≠ .next) ∧
        m'.scopes.lookup? id name = some last := by
  intro m'
  have hwalks : Eval.Walks ctx.scope allowed (body.eval ctx) :=
    (Eval.respected_walks ctx.scope allowed).eval body hbody
  have hloop : m' = (Eval.walkValue ctx kind name enumerable.span body.span (body.eval ctx)
      value).after m₀ := by
    show Eval.after _ m = _
    rw [Eval.after, Expr.eval, Eval.run_bind_ok hvalue, ← Eval.after]
  obtain ⟨hscopes, hheap⟩ :=
    hwalks.walkValue kind name enumerable.span body.span value m₀ hm.sound
  rw [← hloop] at hscopes hheap
  refine ⟨hscopes.elsewhere id hid, hheap.items, ?_, ?_⟩
  · intro x hx
    refine hscopes.lookup?_of_not_shared hm.sound hid ?_
    simpa using hx
  · rintro item rest hitems hfree ⟨b, c, hb, hc, hslot⟩ hconst
    have hconst : b.isConst = false := by
      rw [← Bool.not_eq_true]
      exact fun hisConst => hconst ⟨b, hb, hisConst⟩
    rw [Eval.after, Eval.walkValue_of_items hitems, Eval.walk_cons, ← Eval.after] at hloop
    obtain ⟨done, last, left, m₁, m₂, hsplit, hrounds, hassign, hlast, hread⟩ :=
      Eval.forEach_leaves_last hwalks hfree hconst body.span
        (.number (.ofNat (item :: rest).length)) item rest hm.sound hb
    refine ⟨done, last, left, m₁, m₂, hsplit, hrounds, hassign, hlast, ?_⟩
    have hsame : m'.scopes.binding? id name = some c := by
      rw [Scopes.binding?, hscopes.elsewhere id hid, ← Scopes.binding?, hc]
    rw [Scopes.lookup?, hsame, Option.map_some, ← hslot, hloop, hread]

/-- A frame that inherits a shared name can be reached. -/
theorem Scopes.reachable_sharedFrame (name : String) (value : Value) :
    (((none.newScope []).2.bind 0 name value ⟨false, true⟩
      Option.none).newFrame 0).2.Reachable := by
  have hassign : (none.newScope []).2.assign 0 name value ⟨false, true⟩ Option.none =
      .ok ((none.newScope []).2.bind 0 name value ⟨false, true⟩ Option.none) := rfl
  exact ((Relation.ReflTransGen.single (.newScope none)).tail (.assign trivial hassign)).tail
    (.newFrame _ 0)

/-- A loop in a frame that shares its name with the scope below leaves there the one item that it
walks over, and no other name has another value. -/
theorem Expr.forEach_effect_elsewhere_shared :
    let scopes :=
      (((Scopes.none.newScope []).2.bind 0 "i" .null ⟨false, true⟩ none).newFrame 0).2
    let m : Machine := ⟨.empty, scopes, #[], 0, 0⟩
    let m' := ((Expr.forEach ⟨0, 19⟩ .elements "i" (.list ⟨9, 6⟩ [.boolean ⟨10, 4⟩ true])
      (.block ⟨16, 3⟩ [.identifier ⟨17, 1⟩ "i"])).eval ⟨{}, Closure.call {} 0, 1⟩).after m
    m'.scopes.bindings 0 = m.scopes.bindings 0 ∧
    (∀ x ≠ "i", m'.scopes.lookup? 0 x = m.scopes.lookup? 0 x) ∧
    m'.scopes.lookup? 0 "i" = some (.boolean true) := by
  intro scopes m m'
  have hvalue : (Expr.list ⟨9, 6⟩ [.boolean ⟨10, 4⟩ true]).eval ⟨{}, Closure.call {} 0, 1⟩ m =
      .ok (.list 0) { m with heap := ⟨#[[.boolean true]]⟩ } := rfl
  obtain ⟨hbindings, -, hothers, hlast⟩ := Expr.forEach_effect_elsewhere
    ⟨{}, Closure.call {} 0, 1⟩ ⟨0, 19⟩ .elements "i" _ (.block ⟨16, 3⟩ [.identifier ⟨17, 1⟩ "i"])
    (fun _ => false) rfl hvalue (Scopes.reachable_sharedFrame "i" .null) 0 (by decide)
  refine ⟨hbindings, fun x hx => hothers x (by simp [hx]), ?_⟩
  have hconst : ¬ m.scopes.IsConstant 1 "i" := by
    rintro ⟨b, hb, hisConst⟩
    cases hb
    cases hisConst
  obtain ⟨done, last, left, m₁, m₂, hsplit, -, -, -, hlookup⟩ :=
    hlast (.boolean true) [] rfl rfl ⟨_, _, rfl, rfl, rfl⟩ hconst
  cases done with
  | nil =>
      cases hsplit
      exact hlookup
  | cons first done => cases done <;> cases hsplit

/-- The name of a loop is not always fresh to its scope: where it is shared with another scope, the
items show there. -/
theorem Expr.forEach_name_not_fresh :
    ¬ ∀ (ctx : Context) (span : Span) (kind : Walk) (name : String) (enumerable body : Expr)
      (m m₀ : Machine) (value : Value), body.quiet (fun _ => true) = true →
      enumerable.eval ctx m = .ok value m₀ → m₀.scopes.Reachable → ∀ id ≠ ctx.scope, ∀ x,
      (((Expr.forEach span kind name enumerable body).eval ctx).after m).scopes.lookup? id x =
        m₀.scopes.lookup? id x := by
  intro h
  let scopes := (((Scopes.none.newScope []).2.bind 0 "i" .null ⟨false, true⟩ none).newFrame 0).2
  let m : Machine := ⟨.empty, scopes, #[], 0, 0⟩
  have hvalue : (Expr.list ⟨9, 6⟩ [.boolean ⟨10, 4⟩ true]).eval ⟨{}, Closure.call {} 0, 1⟩ m =
      .ok (.list 0) { m with heap := ⟨#[[.boolean true]]⟩ } := rfl
  have hsame := h ⟨{}, Closure.call {} 0, 1⟩ ⟨0, 19⟩ .elements "i" _
    (.block ⟨16, 3⟩ [.identifier ⟨17, 1⟩ "i"]) m _ _ rfl hvalue
    (Scopes.reachable_sharedFrame "i" .null) 0 (by decide) "i"
  have hshown : ((((Expr.forEach ⟨0, 19⟩ .elements "i" (.list ⟨9, 6⟩ [.boolean ⟨10, 4⟩ true])
      (.block ⟨16, 3⟩ [.identifier ⟨17, 1⟩ "i"])).eval ⟨{}, Closure.call {} 0, 1⟩).after
      m).scopes.lookup? 0 "i").map Value.kind = some .boolean := by
    decide +kernel
  rw [hsame] at hshown
  cases hshown

end ListScript
