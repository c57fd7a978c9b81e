import ListScript.Proofs.Scope.Constants

/-!
# Frames within frames

A limit counts the frames that inherit a binding. What a scope tells about a name is its
`Scopes.view?`: the value, the marks and the limit. `Entry.after` says what is left of an entry
after a number of frames, each of them opened from the one before, and `Scopes.Sound.view?_nest`
that the frames tell just that. Whether two of the scopes share the slot of a name is settled when
the later one is opened, and no operation that keeps their bindings changes it
(`Scopes.Sound.sharesSlot_performAll`), so assignments to a shared name reach all the scopes that
still have it: `Scopes.frames_count_down`.
-/

namespace ListScript

/-- What a scope tells about a name that it binds. -/
structure Entry where
  /-- The value. -/
  value : Value
  /-- The binding cannot be written again. -/
  isConst : Bool
  /-- Frames share the slot. -/
  isRef : Bool
  /-- How many more nested frames inherit the binding. -/
  limit : Option Nat

/-- What is left of an entry after a number of nested frames. -/
def Entry.after (entry : Entry) (frames : Nat) : Option Entry :=
  match entry.limit with
  | none => some entry
  | some n => if frames ≤ n then some { entry with limit := some (n - frames) } else none

/-- No frames leave an entry as it is. -/
theorem Entry.after_zero (entry : Entry) : entry.after 0 = some entry := by
  obtain ⟨value, isConst, isRef, limit⟩ := entry
  cases limit with
  | none => rfl
  | some n => rfl

/-- One more frame takes one more off the limit. -/
theorem Entry.after_succ (entry : Entry) (frames : Nat) :
    entry.after (frames + 1) = (entry.after frames).bind (·.after 1) := by
  obtain ⟨value, isConst, isRef, limit⟩ := entry
  cases limit with
  | none => rfl
  | some n =>
      by_cases hle : frames ≤ n
      · by_cases hlt : frames + 1 ≤ n
        · have hone : 1 ≤ n - frames := by omega
          simp [Entry.after, hle, hlt, hone, Nat.sub_sub]
        · have hone : ¬ 1 ≤ n - frames := by omega
          simp [Entry.after, hle, hlt, hone]
      · have hlt : ¬ frames + 1 ≤ n := by omega
        simp [Entry.after, hle, hlt]

/-- What is left of an entry is shared if the entry is. -/
theorem Entry.isRef_of_after {entry left : Entry} {frames : Nat}
    (h : entry.after frames = some left) : left.isRef = entry.isRef := by
  unfold Entry.after at h
  split at h
  · cases h
    rfl
  · split at h
    · cases h
      rfl
    · cases h

/-- A name that is not bound has no binding. -/
theorem Bindings.find?_eq_none {bindings : Bindings} {name : String}
    (h : name ∉ bindings.names) : bindings.find? name = none := by
  cases hb : bindings.find? name with
  | none => rfl
  | some b => exact absurd (List.mem_map.2 ⟨_, mem_of_find? hb, rfl⟩) h

namespace Scopes

/-- The entry that a binding makes. -/
def entry (s : Scopes) (b : Binding) : Entry := ⟨s.read b.slot, b.isConst, b.isRef, b.limit⟩

/-- What a scope tells about a name. -/
def view? (s : Scopes) (id : ScopeId) (name : String) : Option Entry :=
  (s.binding? id name).map s.entry

/-- The innermost of nested frames, each opened from the one before, and all scopes with them. -/
def nest (s : Scopes) (id : ScopeId) : (frames : Nat) → ScopeId × Scopes
  | 0 => (id, s)
  | frames + 1 => (s.nest id frames).2.newFrame (s.nest id frames).1

/-! ## One frame -/

/-- A binding makes the same entry after an extension. -/
theorem Extends.entry_eq {s s' : Scopes} (h : Extends s s') {b : Binding}
    (hb : b.slot < s.slots.size) : s'.entry b = s.entry b := by
  unfold entry
  rw [h.read b.slot hb]

/-- A binding whose limit is used up leaves nothing to a frame. -/
theorem entry_after_one_of_limit {s : Scopes} {b : Binding} (h : b.limit = some 0) :
    (s.entry b).after 1 = Option.none := by
  simp [entry, Entry.after, h]

/-- Otherwise a frame's binding leaves the entry with one frame less to go. -/
theorem entry_after_one {s s' : Scopes} {b : Binding} {slot : SlotId} (h : b.limit ≠ some 0)
    (hread : s'.read slot = s.read b.slot) :
    (s.entry b).after 1 = some (s'.entry { b with slot, limit := b.limit.map (· - 1) }) := by
  obtain ⟨old, isConst, isRef, limit⟩ := b
  unfold entry
  dsimp only at hread ⊢
  rw [hread]
  cases limit with
  | none => rfl
  | some n =>
      have hone : 1 ≤ n := Nat.one_le_iff_ne_zero.2 fun hn => h (congrArg some hn)
      simp [Entry.after, hone]

/-- The slot of an inherited binding holds the value of the binding that it comes from. -/
theorem inherit_slot_read {s s' : Scopes} {b : Binding} {slot : SlotId}
    (hb : b.slot < s.slots.size)
    (h : (if b.isRef = true then (b.slot, s) else s.newSlot (s.read b.slot)) = (slot, s')) :
    slot < s'.slots.size ∧ s'.read slot = s.read b.slot := by
  cases href : b.isRef with
  | true =>
      rw [href, if_pos rfl] at h
      cases h
      exact ⟨hb, rfl⟩
  | false =>
      rw [href, if_neg Bool.false_ne_true] at h
      cases h
      refine ⟨by simp, ?_⟩
      exact (read_newSlot s _ _).trans (if_pos rfl)

/-- The inherited bindings make the entries that one frame leaves. -/
theorem entry_inherit {s : Scopes} {bindings : Bindings} (hnodup : bindings.names.Nodup)
    (hbound : ∀ name b, (name, b) ∈ bindings → b.slot < s.slots.size) (x : String) :
    ((s.inherit bindings).1.find? x).map (s.inherit bindings).2.entry =
      (bindings.find? x).bind fun b => (s.entry b).after 1 := by
  fun_induction inherit s bindings with
  | case1 => rfl
  | case2 s name b rest hlimit ih =>
      obtain ⟨hname, hrest⟩ := List.nodup_cons.1 hnodup
      rw [Bindings.find?_cons]
      split
      · next heq =>
        subst heq
        have hnone := Bindings.find?_eq_none
          fun hmem => hname ((names_inherit_sublist s rest).subset hmem)
        rw [hnone, Option.bind_some, entry_after_one_of_limit hlimit]
        rfl
      · exact ih hrest fun other c hmem => hbound other c (List.mem_cons_of_mem _ hmem)
  | case3 s name b rest hlimit limit slot s' hslot rest' s'' hinherit ih =>
      obtain ⟨hname, hrest⟩ := List.nodup_cons.1 hnodup
      have hextends := (inherit_slot hslot).1
      have hold (other : String) (c : Binding) (hmem : (other, c) ∈ rest) :
          c.slot < s.slots.size := hbound other c (List.mem_cons_of_mem _ hmem)
      rw [Bindings.find?_cons, Bindings.find?_cons]
      split
      · obtain ⟨hlt, hread⟩ := inherit_slot_read (hbound name b List.mem_cons_self) hslot
        have hlast := extends_inherit s' rest
        rw [hinherit] at hlast
        rw [Option.bind_some, entry_after_one hlimit ((hlast.read slot hlt).trans hread)]
        rfl
      · have hrec := ih hrest fun other c hmem =>
          Nat.lt_of_lt_of_le (hold other c hmem) hextends.slots
        rw [hinherit] at hrec
        rw [hrec]
        cases hc : Bindings.find? rest x with
        | none => rfl
        | some c =>
            rw [Option.bind_some, Option.bind_some,
              hextends.entry_eq (hold x c (Bindings.mem_of_find? hc))]

theorem newFrame_fst (s : Scopes) (id : ScopeId) : (s.newFrame id).1 = s.scopes.size :=
  congrArg Array.size (extends_inherit s (s.bindings id)).scopes

theorem size_newFrame (s : Scopes) (id : ScopeId) :
    (s.newFrame id).2.scopes.size = s.scopes.size + 1 := by
  simp [newFrame, newScope, (extends_inherit s (s.bindings id)).scopes]

/-- A frame tells about each name what one frame leaves of what the outer scope tells. -/
theorem Sound.view?_newFrame {s : Scopes} (hs : s.Sound) (id : ScopeId) (x : String) :
    (s.newFrame id).2.view? (s.newFrame id).1 x = (s.view? id x).bind (·.after 1) := by
  have hbound (name : String) (b : Binding) (hmem : (name, b) ∈ s.bindings id) :
      b.slot < s.slots.size := hs.bound (Bindings.find?_of_mem (hs.unique id) hmem)
  have hinherit := entry_inherit (hs.unique id) hbound x
  unfold view?
  rw [binding?_newFrame, newFrame_fst, if_pos rfl, Option.bind_map]
  exact hinherit

/-- The scopes that there were tell what they told. -/
theorem Sound.view?_newFrame_of_lt {s : Scopes} (hs : s.Sound) (id : ScopeId) {other : ScopeId}
    (hother : other < s.scopes.size) (x : String) :
    (s.newFrame id).2.view? other x = s.view? other x := by
  unfold view?
  rw [binding?_newFrame, if_neg (Nat.ne_of_lt hother)]
  cases hb : s.binding? other x with
  | none => rfl
  | some b => exact congrArg some ((extends_inherit s (s.bindings id)).entry_eq (hs.bound hb))

/-! ## Nested frames -/

theorem nest_succ (s : Scopes) (id : ScopeId) (m : Nat) :
    s.nest id (m + 1) = (s.nest id m).2.newFrame (s.nest id m).1 := rfl

theorem size_nest (s : Scopes) (id : ScopeId) (m : Nat) :
    (s.nest id m).2.scopes.size = s.scopes.size + m := by
  induction m with
  | zero => rfl
  | succ m ih => rw [nest_succ, size_newFrame, ih, Nat.add_assoc]

theorem nest_succ_fst (s : Scopes) (id : ScopeId) (m : Nat) :
    (s.nest id (m + 1)).1 = s.scopes.size + m := by
  rw [nest_succ, newFrame_fst, size_nest]

/-- Each of the nested frames is one of the scopes from when it is opened. -/
theorem nest_fst_lt {s : Scopes} {id : ScopeId} (hid : id < s.scopes.size) {k m : Nat}
    (hle : k ≤ m) : (s.nest id k).1 < (s.nest id m).2.scopes.size := by
  rw [size_nest]
  cases k with
  | zero => exact Nat.lt_of_lt_of_le hid (Nat.le_add_right _ _)
  | succ k =>
      rw [nest_succ_fst]
      exact Nat.add_lt_add_left (Nat.lt_of_succ_le hle) _

/-- Each of the nested frames is a scope of its own. -/
theorem nest_fst_inj {s : Scopes} {id : ScopeId} (hid : id < s.scopes.size) {j k : Nat}
    (h : (s.nest id j).1 = (s.nest id k).1) : j = k := by
  have hnew (k : Nat) : id ≠ (s.nest id (k + 1)).1 := by
    rw [nest_succ_fst]
    exact Nat.ne_of_lt (Nat.lt_of_lt_of_le hid (Nat.le_add_right _ _))
  cases j with
  | zero =>
      cases k with
      | zero => rfl
      | succ k => exact absurd h (hnew k)
  | succ j =>
      cases k with
      | zero => exact absurd h.symm (hnew j)
      | succ k =>
          rw [nest_succ_fst, nest_succ_fst] at h
          exact congrArg (· + 1) (Nat.add_left_cancel h)

theorem Sound.nest {s : Scopes} (hs : s.Sound) (id : ScopeId) (m : Nat) :
    (s.nest id m).2.Sound := by
  induction m with
  | zero => exact hs
  | succ m ih => exact ih.newFrame _

/-- Nested frames tell about each name what they leave of what the outermost scope tells, and go on
telling it when more of them are opened. -/
theorem Sound.view?_nest {s : Scopes} (hs : s.Sound) {id : ScopeId} (hid : id < s.scopes.size)
    {k m : Nat} (hle : k ≤ m) (x : String) :
    (s.nest id m).2.view? (s.nest id k).1 x = (s.view? id x).bind (·.after k) := by
  induction m generalizing k with
  | zero =>
      obtain rfl : k = 0 := by omega
      show s.view? id x = _
      cases s.view? id x with
      | none => rfl
      | some entry => exact entry.after_zero.symm
  | succ m ih =>
      have hsound := hs.nest id m
      rw [nest_succ]
      rcases Nat.lt_or_eq_of_le hle with hlt | rfl
      · rw [hsound.view?_newFrame_of_lt _ (nest_fst_lt hid (Nat.le_of_lt_succ hlt))]
        exact ih (Nat.le_of_lt_succ hlt)
      · rw [nest_succ, hsound.view?_newFrame, ih (Nat.le_refl m)]
        cases s.view? id x with
        | none => rfl
        | some entry => exact (entry.after_succ m).symm

/-- Nested frames share the slot of a shared binding. -/
theorem Sound.slot_nest {s : Scopes} (hs : s.Sound) {id : ScopeId} {x : String} {b c : Binding}
    (hb : s.binding? id x = some b) (href : b.isRef = true) {k m : Nat} (hle : k ≤ m)
    (hc : (s.nest id m).2.binding? (s.nest id k).1 x = some c) :
    c.isRef = true ∧ c.slot = b.slot := by
  induction m generalizing k c with
  | zero =>
      obtain rfl : k = 0 := by omega
      cases hb.symm.trans hc
      exact ⟨href, rfl⟩
  | succ m ih =>
      rw [nest_succ, binding?_newFrame] at hc
      rcases Nat.lt_or_eq_of_le hle with hlt | rfl
      · have hold := nest_fst_lt (lt_size_of_binding? hb) (Nat.le_of_lt_succ hlt)
        rw [if_neg (Nat.ne_of_lt hold)] at hc
        exact ih (Nat.le_of_lt_succ hlt) hc
      · rw [nest_succ, newFrame_fst, if_pos rfl] at hc
        obtain ⟨origin, hmem, hmark, hshared, -⟩ := mem_inherit (Bindings.mem_of_find? hc)
        obtain ⟨horiginRef, hslot⟩ := ih (Nat.le_refl m)
          (Bindings.find?_of_mem ((hs.nest id m).unique _) hmem)
        exact ⟨hmark.trans horiginRef, (hshared horiginRef).trans hslot⟩

/-- Two of the nested scopes have the same slot for a name exactly if its binding is shared and both
still have it. -/
theorem Sound.sharesSlot_nest {s : Scopes} (hs : s.Sound) {id : ScopeId} {x : String} {b : Binding}
    (hb : s.binding? id x = some b) {j k m : Nat} (hj : j ≤ m) (hk : k ≤ m) (hne : j ≠ k) :
    (s.nest id m).2.SharesSlot (s.nest id k).1 (s.nest id j).1 x ↔
      b.isRef = true ∧ (s.nest id m).2.contains (s.nest id k).1 x = true ∧
        (s.nest id m).2.contains (s.nest id j).1 x = true := by
  have hid := lt_size_of_binding? hb
  constructor
  · rintro ⟨c, d, hc, hd, hslot⟩
    refine ⟨?_, by rw [contains, hc]; rfl, by rw [contains, hd]; rfl⟩
    rcases (hs.nest id m).shared hc hd hslot with ⟨hsame, -⟩ | ⟨-, hcref, -⟩
    · exact absurd (nest_fst_inj hid hsame).symm hne
    · have hentry := hs.view?_nest hid hk x
      rw [view?, view?, hc, hb] at hentry
      exact (Entry.isRef_of_after hentry.symm).symm.trans hcref
  · rintro ⟨href, hkbound, hjbound⟩
    obtain ⟨c, hc⟩ := Option.isSome_iff_exists.1 hkbound
    obtain ⟨d, hd⟩ := Option.isSome_iff_exists.1 hjbound
    exact ⟨c, d, hc, hd,
      (hs.slot_nest hb href hk hc).2.trans (hs.slot_nest hb href hj hd).2.symm⟩

/-! ## Later operations -/

/-- The slot that a scope has for a name. -/
def slot? (s : Scopes) (id : ScopeId) (name : String) : Option SlotId :=
  (s.binding? id name).map Binding.slot

theorem sharesSlot_iff {s : Scopes} {i j : ScopeId} {name : String} :
    s.SharesSlot i j name ↔ ∃ slot, s.slot? i name = some slot ∧ s.slot? j name = some slot := by
  unfold slot?
  constructor
  · rintro ⟨b, c, hb, hc, hslot⟩
    exact ⟨b.slot, by rw [hb]; rfl, by rw [hc, hslot]; rfl⟩
  · rintro ⟨slot, hi, hj⟩
    obtain ⟨b, hb, rfl⟩ := Option.map_eq_some_iff.1 hi
    obtain ⟨c, hc, hslot⟩ := Option.map_eq_some_iff.1 hj
    exact ⟨b, c, hb, hc, hslot.symm⟩

/-- A scope has only slots that exist. -/
theorem Sound.slot?_lt {s : Scopes} (hs : s.Sound) {id : ScopeId} {name : String} {slot : SlotId}
    (h : s.slot? id name = some slot) : slot < s.slots.size := by
  obtain ⟨b, hb, rfl⟩ := Option.map_eq_some_iff.1 h
  exact hs.bound hb

/-- An operation that does not replace a scope's binding of a name leaves its slot, or is an
assignment that gives the name a new one because it had none. -/
theorem slot?_perform {s : Scopes} {id : ScopeId} {name : String} (hid : id < s.scopes.size)
    {op : Operation} (hop : ¬ op.Replaces id name) :
    (s.perform op).slot? id name = s.slot? id name ∨
      s.slot? id name = Option.none ∧ (s.perform op).slot? id name = some s.slots.size ∧
        ∃ value mode limit, op = .assign id name value mode limit := by
  by_cases hassign : ∃ value mode limit, op = .assign id name value mode limit
  · obtain ⟨value, mode, limit, rfl⟩ := hassign
    rcases perform_assign_cases s id name value mode limit with hok | hfails
    · rcases assign_cases hok with ⟨b, hb, -, heq⟩ | ⟨hnone, heq⟩
      · left
        rw [heq]
        show ((s.withBindings id (.insert name (remark b mode limit))).binding? id name).map
          Binding.slot = _
        rw [binding?_insert, if_pos ⟨rfl, rfl, hid⟩, slot?, hb]
        rfl
      · refine .inr ⟨by rw [slot?, hnone]; rfl, ?_, value, mode, limit, rfl⟩
        rw [heq, slot?, binding?_bind, if_pos ⟨rfl, rfl, hid⟩]
        rfl
    · exact .inl (congrArg (slot? · id name) hfails)
  · left
    unfold slot?
    rw [binding?_perform hid hop fun value mode limit h => hassign ⟨value, mode, limit, h⟩]

/-- An operation that gives a scope a new slot for a name shares it with no other scope. -/
theorem Sound.not_sharesSlot_perform {s : Scopes} (hs : s.Sound) {i j : ScopeId} {name : String}
    (hj : j < s.scopes.size) (hne : i ≠ j) {op : Operation} (hop : ¬ op.Replaces j name)
    (hnew : (s.perform op).slot? i name = some s.slots.size)
    (hassign : ∃ value mode limit, op = .assign i name value mode limit) :
    ¬ (s.perform op).SharesSlot i j name := by
  rw [sharesSlot_iff]
  rintro ⟨slot, hi, hslot⟩
  cases hnew.symm.trans hi
  rcases slot?_perform hj hop with hsame | ⟨-, -, value, mode, limit, hassign'⟩
  · rw [hsame] at hslot
    exact absurd (hs.slot?_lt hslot) (Nat.lt_irrefl _)
  · obtain ⟨value', mode', limit', rfl⟩ := hassign
    cases hassign'
    exact hne rfl

theorem SharesSlot.symm {s : Scopes} {i j : ScopeId} {name : String} (h : s.SharesSlot i j name) :
    s.SharesSlot j i name := by
  obtain ⟨b, c, hb, hc, hslot⟩ := h
  exact ⟨c, b, hc, hb, hslot.symm⟩

/-- An operation that does not replace two scopes' bindings of a name neither makes them share a
slot nor separates them. -/
theorem Sound.sharesSlot_perform {s : Scopes} (hs : s.Sound) {i j : ScopeId} {name : String}
    (hi : i < s.scopes.size) (hj : j < s.scopes.size) (hne : i ≠ j) {op : Operation}
    (hiop : ¬ op.Replaces i name) (hjop : ¬ op.Replaces j name) :
    (s.perform op).SharesSlot i j name ↔ s.SharesSlot i j name := by
  rcases slot?_perform hi hiop with hisame | ⟨hinone, hinew, hiassign⟩
  · rcases slot?_perform hj hjop with hjsame | ⟨hjnone, hjnew, hjassign⟩
    · rw [sharesSlot_iff, sharesSlot_iff, hisame, hjsame]
    · refine iff_of_false ?_ ?_
      · exact fun h => hs.not_sharesSlot_perform hi hne.symm hiop hjnew hjassign h.symm
      · rw [sharesSlot_iff]
        simp [hjnone]
  · refine iff_of_false (hs.not_sharesSlot_perform hj hne hjop hinew hiassign) ?_
    rw [sharesSlot_iff]
    simp [hinone]

/-- Operations that do not replace two scopes' bindings of a name neither make them share a slot nor
separate them. -/
theorem Sound.sharesSlot_performAll {s : Scopes} (hs : s.Sound) {i j : ScopeId} {name : String}
    (hi : i < s.scopes.size) (hj : j < s.scopes.size) (hne : i ≠ j) {operations : List Operation}
    (hkept : ∀ op ∈ operations, ¬ op.Replaces i name ∧ ¬ op.Replaces j name) :
    (s.performAll operations).SharesSlot i j name ↔ s.SharesSlot i j name := by
  induction operations generalizing s with
  | nil => exact Iff.rfl
  | cons op rest ih =>
      obtain ⟨hiop, hjop⟩ := hkept op List.mem_cons_self
      have hchanges := s.changes_perform op
      have hsize := hchanges.size_le
      refine (ih (hchanges.sound hs) (Nat.lt_of_lt_of_le hi hsize) (Nat.lt_of_lt_of_le hj hsize)
        fun other hother => hkept other (List.mem_cons_of_mem op hother)).trans ?_
      exact hs.sharesSlot_perform hi hj hne hiop hjop

/-- An assignment to a name in one of the nested scopes, after operations that keep their bindings
of it, is seen in that scope and in those that share its slot from the beginning. -/
theorem Sound.lookup?_assign_nest {s u : Scopes} (hs : s.Sound) {id : ScopeId}
    (hid : id < s.scopes.size) {x : String} {j k m : Nat} (hj : j ≤ m) (hk : k ≤ m)
    {operations : List Operation}
    (hkept : ∀ op ∈ operations, ∀ j ≤ m, ¬ op.Replaces (s.nest id j).1 x) {value : Value}
    {mode : BindingMode} {limit : Option Nat}
    (h : ((s.nest id m).2.performAll operations).assign (s.nest id k).1 x value mode limit =
      .ok u) :
    (j = k ∨ (s.nest id m).2.SharesSlot (s.nest id k).1 (s.nest id j).1 x →
      u.lookup? (s.nest id j).1 x = some value) ∧
    (¬ (j = k ∨ (s.nest id m).2.SharesSlot (s.nest id k).1 (s.nest id j).1 x) →
      u.lookup? (s.nest id j).1 x =
        ((s.nest id m).2.performAll operations).lookup? (s.nest id j).1 x) := by
  have hchanges := (s.nest id m).2.changes_performAll operations
  have hlater := hchanges.sound (hs.nest id m)
  have hscope : (s.nest id k).1 < ((s.nest id m).2.performAll operations).scopes.size :=
    Nat.lt_of_lt_of_le (nest_fst_lt hid hk) hchanges.size_le
  by_cases hsame : j = k
  · subst hsame
    refine ⟨fun _ => ?_, fun hnot => absurd (.inl rfl) hnot⟩
    exact hlater.lookup?_assign_of_shares h hscope (.inl rfl)
  · have hne : (s.nest id k).1 ≠ (s.nest id j).1 := fun heq => hsame (nest_fst_inj hid heq).symm
    have hshares := (hs.nest id m).sharesSlot_performAll (nest_fst_lt hid hk) (nest_fst_lt hid hj)
      hne fun op hop => ⟨hkept op hop k hk, hkept op hop j hj⟩
    refine ⟨fun hseen => ?_, fun hnot => ?_⟩
    · exact hlater.lookup?_assign_of_shares h hscope
        (.inr (hshares.2 (hseen.resolve_left hsame)))
    · refine hlater.lookup?_assign_of_not h ?_
      rintro ⟨-, heq | hshared⟩
      · exact hne heq.symm
      · exact hnot (.inr (hshares.1 hshared))

/-- An assignment changes nothing about other names. -/
theorem Sound.view?_assign_of_ne {s s' : Scopes} (hs : s.Sound) {id : ScopeId} {name : String}
    {value : Value} {mode : BindingMode} {limit : Option Nat}
    (h : s.assign id name value mode limit = .ok s') (other : ScopeId) {y : String}
    (hy : y ≠ name) : s'.view? other y = s.view? other y := by
  have hbinding : s'.binding? other y = s.binding? other y := by
    rcases assign_cases h with ⟨b, -, -, rfl⟩ | ⟨-, rfl⟩
    · show (s.withBindings id (.insert name (remark b mode limit))).binding? other y = _
      rw [binding?_insert, if_neg fun hsame => hy hsame.2.1]
    · rw [binding?_bind, if_neg fun hsame => hy hsame.2.1]
  have hlookup : s'.lookup? other y = s.lookup? other y :=
    hs.lookup?_assign_of_not h fun hsame => hy hsame.1
  unfold lookup? at hlookup
  unfold view?
  rw [hbinding] at hlookup ⊢
  cases hc : s.binding? other y with
  | none => rfl
  | some c =>
      rw [hc] at hlookup
      have hread : s'.read c.slot = s.read c.slot := Option.some.inj hlookup
      show some (s'.entry c) = some (s.entry c)
      unfold entry
      rw [hread]

/-- Removing a name changes nothing about other names. -/
theorem view?_release_of_ne (s : Scopes) (id : ScopeId) (name : String) (other : ScopeId)
    {y : String} (hy : y ≠ name) : (s.release id name).view? other y = s.view? other y := by
  unfold view?
  rw [binding?_release, if_neg fun hsame => hy hsame.2]
  rfl

/-- Nested frames tell about a name what they leave of its binding in the outermost scope. An
assignment to the name in one of the scopes, after any operations that keep their bindings of it, is
seen in that scope; if the binding is shared and the scope still has it, also in all the others that
still have it; and nowhere else among them. Other names are not concerned: an assignment leaves them
alone, and frames tell the same about them if the outermost scope does not have the name. -/
theorem frames_count_down {s : Scopes} (hs : s.Reachable) {id : ScopeId} {x : String} {b : Binding}
    (hb : s.binding? id x = some b) (m : Nat) :
    (∀ k ≤ m, (s.nest id m).2.view? (s.nest id k).1 x = (s.entry b).after k) ∧
    (∀ operations k value mode limit u, k ≤ m →
      (∀ op ∈ operations, ∀ j ≤ m, ¬ op.Replaces (s.nest id j).1 x) →
      ((s.nest id m).2.performAll operations).assign (s.nest id k).1 x value mode limit = .ok u →
      (∀ j ≤ m, u.lookup? (s.nest id j).1 x =
        if j = k ∨ b.isRef = true ∧ (s.nest id m).2.contains (s.nest id k).1 x = true ∧
            (s.nest id m).2.contains (s.nest id j).1 x = true
        then some value
        else ((s.nest id m).2.performAll operations).lookup? (s.nest id j).1 x) ∧
      ∀ other y, y ≠ x →
        u.view? other y = ((s.nest id m).2.performAll operations).view? other y) ∧
    ∀ y, y ≠ x → ∀ k ≤ m,
      ((s.release id x).nest id m).2.view? ((s.release id x).nest id k).1 y =
        (s.nest id m).2.view? (s.nest id k).1 y := by
  have hid := lt_size_of_binding? hb
  have hsound := hs.sound
  refine ⟨fun k hk => ?_, ?_, fun y hy k hk => ?_⟩
  · rw [hsound.view?_nest hid hk, view?, hb]
    rfl
  · intro operations k value mode limit u hk hkept hassign
    have hlater := ((s.nest id m).2.changes_performAll operations).sound (hsound.nest id m)
    refine ⟨fun j hj => ?_, fun other y hy => hlater.view?_assign_of_ne hassign other hy⟩
    obtain ⟨hseen, hunseen⟩ := hsound.lookup?_assign_nest hid hj hk hkept hassign
    by_cases hsame : j = k
    · rw [if_pos (.inl hsame)]
      exact hseen (.inl hsame)
    · have hshares := hsound.sharesSlot_nest hb hj hk hsame
      split
      · next h => exact hseen (h.imp_right hshares.2)
      · next h => exact hunseen fun hor => h (hor.imp_right hshares.1)
  · have hsize : id < (s.release id x).scopes.size := by simpa [release, withBindings] using hid
    rw [(hsound.release id x).view?_nest hsize hk, hsound.view?_nest hid hk,
      view?_release_of_ne s id x id hy]

/-- An assignment that succeeds leads to the scopes that performing it leads to. -/
theorem assign_eq_perform {s : Scopes} {id : ScopeId} {name : String} {value : Value}
    {mode : BindingMode} {limit : Option Nat}
    (h : (s.assign id name value mode limit).isOk = true) :
    s.assign id name value mode limit = .ok (s.perform (.assign id name value mode limit)) := by
  simp only [perform]
  cases hs : s.assign id name value mode limit with
  | ok s' => rfl
  | error fault =>
      rw [hs] at h
      cases h

/-- A shared name with a limit of one reaches one frame and not the frame within. An assignment in
the first frame is seen outside. -/
theorem frames_count_down_one :
    let s := none.performAll [.newScope, .assign 0 "x" .null ⟨false, true⟩ (some 1)]
    s.Reachable ∧ s.binding? 0 "x" = some ⟨0, false, true, some 1⟩ ∧
      (s.nest 0 2).2.view? (s.nest 0 1).1 "x" = some ⟨s.read 0, false, true, some 0⟩ ∧
      (s.nest 0 2).2.view? (s.nest 0 2).1 "x" = Option.none ∧
      ∃ u, (s.nest 0 2).2.assign (s.nest 0 1).1 "x" (.boolean true) ⟨false, false⟩ Option.none =
          .ok u ∧
        u.lookup? (s.nest 0 0).1 "x" = some (.boolean true) := by
  intro s
  have hs : s.Reachable := changes_performAll none _
  have hb : s.binding? 0 "x" = some ⟨0, false, true, some 1⟩ := by decide
  have hok : ((s.nest 0 2).2.assign (s.nest 0 1).1 "x" (.boolean true) ⟨false, false⟩
      Option.none).isOk = true := by decide +kernel
  have hfirst : (s.nest 0 2).2.contains (s.nest 0 1).1 "x" = true := by decide +kernel
  have houter : (s.nest 0 2).2.contains (s.nest 0 0).1 "x" = true := by decide +kernel
  obtain ⟨hviews, hassigned, -⟩ := frames_count_down hs hb 2
  refine ⟨hs, hb, hviews 1 (by decide), hviews 2 (by decide), _, assign_eq_perform hok, ?_⟩
  have hseen := (hassigned [] 1 (.boolean true) ⟨false, false⟩ Option.none _ (by decide) (by simp)
    (assign_eq_perform hok)).1 0 (by decide)
  exact hseen.trans (if_pos (.inr ⟨rfl, hfirst, houter⟩))

/-- An assignment to a shared name is not always seen in all the scopes that still have it: where
the limit is used up, the assignment makes a binding of its own. -/
theorem expired_name_assigned_apart :
    ¬ ∀ (s : Scopes) (id : ScopeId) (x : String) (b : Binding) (m : Nat), s.Reachable →
      s.binding? id x = some b → b.isRef = true →
      ∀ k value mode limit u, k ≤ m →
        (s.nest id m).2.assign (s.nest id k).1 x value mode limit = .ok u →
        ∀ j ≤ m, (s.nest id m).2.contains (s.nest id j).1 x = true →
          u.lookup? (s.nest id j).1 x = some value := by
  intro h
  let s := none.performAll [.newScope, .assign 0 "x" .null ⟨false, true⟩ (some 0)]
  let op : Operation := .assign (s.nest 0 1).1 "x" (.boolean true) ⟨false, false⟩ Option.none
  have hs : s.Reachable := changes_performAll none _
  have hb : s.binding? 0 "x" = some ⟨0, false, true, some 0⟩ := by decide
  have hok : ((s.nest 0 1).2.assign (s.nest 0 1).1 "x" (.boolean true) ⟨false, false⟩
      Option.none).isOk = true := by decide +kernel
  have houter : (s.nest 0 1).2.contains (s.nest 0 0).1 "x" = true := by decide +kernel
  have hseen := h s 0 "x" _ 1 hs hb rfl 1 (.boolean true) ⟨false, false⟩ Option.none _ (by decide)
    (assign_eq_perform hok) 0 (by decide) houter
  have hkept : (((s.nest 0 1).2.perform op).lookup? (s.nest 0 0).1 "x").map Value.kind =
      some .null := by decide +kernel
  cases (congrArg (Option.map Value.kind) hseen).symm.trans hkept

end Scopes

end ListScript
