import ListScript.Proofs.Expr.Composition
import ListScript.Proofs.Token.Tiling

/-!
# Spans nest

Reading goes forward through a source text: between the offset at which a reader begins and the one
at which it ends stands what it has read (`Parser.Reads`). Every expression of a text that can be
read stands between character boundaries and holds its children, those that the reader fills in and
those that it takes from another node included: `Parser.reads_expressionWithin`, and for whole
programs `Block.row_of_parse`. `Block.spans_nest` spells out what that says of the spans of a tree.
-/

namespace ListScript

open Token (Tiled)

/-- The first span lies within the second. -/
def Span.isWithin (inner outer : Span) : Bool :=
  outer.start ≤ inner.start && inner.stop ≤ outer.stop

theorem Span.isWithin_iff {inner outer : Span} :
    inner.isWithin outer = true ↔ outer.start ≤ inner.start ∧ inner.stop ≤ outer.stop := by
  simp [isWithin]

/-- What is within a span is within those around it. -/
theorem Span.isWithin_trans {inner middle outer : Span} (h : inner.isWithin middle = true)
    (h' : middle.isWithin outer = true) : inner.isWithin outer = true := by
  rw [isWithin_iff] at *
  omega

namespace Expr

/-- Where the children of an expression stand: those of a function in the span of its body, others
in the span of the expression. -/
def childSpan : Expr → Span
  | .function _ _ _ bodySpan => bodySpan
  | e => e.span

/-- The expression stands between character boundaries of the source, and its children stand within
it. -/
def placed (source : String) (e : Expr) : Bool :=
  (e.span.text? source).isSome && (e.childSpan.text? source).isSome &&
    e.childSpan.isWithin e.span && e.children.all (·.span.isWithin e.childSpan)

/-- Between the two offsets stands the expression, and everything inside it is in its place. -/
structure Fits (source : String) (start : Nat) (e : Expr) (stop : Nat) : Prop where
  start_le : start ≤ e.span.start
  stop_le : e.span.stop ≤ stop
  placed : e.every (placed source) = true

/-- The expression was read between the two offsets, and its last token is the last one read. -/
structure Spanned (source : String) (start : Nat) (e : Expr) (stop : Nat) : Prop where
  start_le : start ≤ e.span.start
  start_lt : e.span.start < stop
  stop_eq : e.span.stop = stop
  placed : e.every (Expr.placed source) = true

variable {source : String} {start stop : Nat} {e : Expr}

/-- An expression in its place between two offsets is so between offsets further apart. -/
theorem Fits.mono (h : Fits source start e stop) {start' stop' : Nat} (hstart : start' ≤ start)
    (hstop : stop ≤ stop') : Fits source start' e stop' :=
  ⟨Nat.le_trans hstart h.start_le, Nat.le_trans h.stop_le hstop, h.placed⟩

/-- What it is for an expression to be placed, with boundaries in place of texts. -/
theorem placed_iff : e.placed source = true ↔
    (Boundary source e.span.start ∧ Boundary source e.span.stop) ∧
      (Boundary source e.childSpan.start ∧ Boundary source e.childSpan.stop) ∧
      e.childSpan.isWithin e.span = true ∧
      ∀ child ∈ e.children, child.span.isWithin e.childSpan = true := by
  simp only [Expr.placed, Bool.and_eq_true, List.all_eq_true, Boundary.text?_isSome_iff, and_assoc]

/-- An expression that is placed starts and ends at boundaries. -/
theorem boundary_of_placed (h : e.placed source = true) :
    Boundary source e.span.start ∧ Boundary source e.span.stop :=
  (placed_iff.1 h).1

/-- An expression in its place starts and ends at boundaries. -/
theorem Fits.boundary (h : Fits source start e stop) :
    Boundary source e.span.start ∧ Boundary source e.span.stop :=
  boundary_of_placed (every_iff_children.1 h.placed).1

/-- The children of an expression in its place stand within the expression. -/
theorem Fits.child (h : Fits source start e stop) {child : Expr} (hchild : child ∈ e.children) :
    Fits source e.childSpan.start child e.childSpan.stop := by
  obtain ⟨hplaced, hchildren⟩ := every_iff_children.1 h.placed
  obtain ⟨-, -, -, hwithin⟩ := placed_iff.1 hplaced
  obtain ⟨hstart, hstop⟩ := Span.isWithin_iff.1 (hwithin child hchild)
  exact ⟨hstart, hstop, hchildren child hchild⟩

/-- An expression that was read between two offsets is in its place between them. -/
theorem Spanned.fits (h : Spanned source start e stop) : Fits source start e stop :=
  ⟨h.start_le, Nat.le_of_eq h.stop_eq, h.placed⟩

/-- An expression that was read is in its place from its own start on. -/
theorem Spanned.fits_self (h : Spanned source start e stop) {stop' : Nat} (hle : stop ≤ stop') :
    Fits source e.span.start e stop' :=
  ⟨Nat.le_refl _, Nat.le_trans (Nat.le_of_eq h.stop_eq) hle, h.placed⟩

/-- An expression read after an offset was read after any earlier one. -/
theorem Spanned.mono (h : Spanned source start e stop) {start' : Nat} (hstart : start' ≤ start) :
    Spanned source start' e stop :=
  ⟨Nat.le_trans hstart h.start_le, h.start_lt, h.stop_eq, h.placed⟩

/-- An expression is in its place if its children fit into the span in which they stand. -/
theorem every_placed_of_children
    (hspan : Boundary source e.span.start ∧ Boundary source e.span.stop)
    (hbody : Boundary source e.childSpan.start ∧ Boundary source e.childSpan.stop)
    (hwithin : e.childSpan.isWithin e.span = true)
    (hchildren : ∀ child ∈ e.children,
      Fits source e.childSpan.start child e.childSpan.stop) :
    e.every (Expr.placed source) = true := by
  refine every_iff_children.2 ⟨?_, fun child hchild => (hchildren child hchild).placed⟩
  refine placed_iff.2 ⟨hspan, hbody, hwithin, fun child hchild => ?_⟩
  have hfits := hchildren child hchild
  exact Span.isWithin_iff.2 ⟨hfits.start_le, hfits.stop_le⟩

/-- A node from one boundary to another whose children stand between the two. -/
theorem every_placed_of_between (hspan : e.span = .between start stop)
    (hbody : e.childSpan = e.span) (hle : start ≤ stop) (hstart : Boundary source start)
    (hstop : Boundary source stop)
    (hchildren : ∀ child ∈ e.children, Fits source start child stop) :
    e.every (Expr.placed source) = true := by
  have hend : e.span.stop = stop := by rw [hspan, Span.stop_between hle]
  have hends : Boundary source e.span.start ∧ Boundary source e.span.stop := by
    rw [hend, hspan]
    exact ⟨hstart, hstop⟩
  refine every_placed_of_children hends (hbody ▸ hends) ?_ fun child hchild => ?_
  · rw [hbody]
    exact Span.isWithin_iff.2 ⟨Nat.le_refl _, Nat.le_refl _⟩
  · rw [hbody, hend, hspan]
    exact hchildren child hchild

/-- Expressions read one after the other between two offsets. -/
inductive Row (source : String) : Nat → List Expr → Nat → Prop where
  | nil {start stop : Nat} (hle : start ≤ stop) : Row source start [] stop
  | cons {start middle stop : Nat} {e : Expr} {rest : List Expr}
      (he : Spanned source start e middle) (hrest : Row source middle rest stop) :
      Row source start (e :: rest) stop

namespace Row

variable {es : List Expr}

/-- Expressions read between two offsets were read between offsets further apart. -/
theorem mono (h : Row source start es stop) {start' stop' : Nat} (hstart : start' ≤ start)
    (hstop : stop ≤ stop') : Row source start' es stop' := by
  induction h generalizing start' with
  | nil hle => exact .nil (by omega)
  | cons he _ ih => exact .cons (he.mono hstart) (ih (Nat.le_refl _) hstop)

/-- Reading expressions does not go back. -/
theorem le (h : Row source start es stop) : start ≤ stop := by
  induction h with
  | nil hle => exact hle
  | cons he _ ih =>
      have hstart := he.start_le
      have hlt := he.start_lt
      omega

/-- Each of the expressions is in its place. -/
theorem fits (h : Row source start es stop) {e : Expr} (he : e ∈ es) :
    Fits source start e stop := by
  induction h with
  | nil => cases he
  | cons hfirst hrest ih =>
      obtain rfl | he := List.mem_cons.1 he
      · exact hfirst.fits.mono (Nat.le_refl _) hrest.le
      · have hstart := hfirst.start_le
        have hlt := hfirst.start_lt
        exact (ih he).mono (by omega) (Nat.le_refl _)

/-- Each of the expressions takes up something. -/
theorem length_pos (h : Row source start es stop) {e : Expr} (he : e ∈ es) :
    0 < e.span.length := by
  induction h with
  | nil => cases he
  | cons hfirst _ ih =>
      obtain rfl | he := List.mem_cons.1 he
      · have hlt := hfirst.start_lt
        rw [← hfirst.stop_eq, Span.stop] at hlt
        omega
      · exact ih he

/-- Each of the expressions ends before the next ones begin. -/
theorem pairwise (h : Row source start es stop) :
    es.Pairwise fun a b => a.span.stop ≤ b.span.start := by
  induction h with
  | nil => exact .nil
  | cons hfirst hrest ih =>
      refine .cons (fun e he => ?_) ih
      rw [hfirst.stop_eq]
      exact (hrest.fits he).start_le

end Row

end Expr

namespace Parser

open ListScript.Expr (Fits Spanned Row)

variable {α β : Type} {source : String} {start first stop : Nat}

/-! ## Going forward -/

/-- The last token taken ended at the offset, and what is pending is what the source holds after
it. -/
structure At (source : String) (offset : Nat) (s : TokenStream) : Prop where
  previousStop_eq : s.previousStop = offset
  size_eq : s.size = source.utf8ByteSize
  tiled : Tiled source offset s.pending

/-- Beginning after the offset, a reader that succeeds goes forward, and what it yields is related
to where it ends. -/
def Reads (source : String) (start : Nat) (post : α → Nat → Prop) (p : Parser α) : Prop :=
  ∀ ⦃s a s'⦄, At source start s → p s = .ok a s' →
    ∃ stop, At source stop s' ∧ start ≤ stop ∧ post a stop

namespace Reads

variable {post : α → Nat → Prop} {post' : β → Nat → Prop}

/-- Reading goes on where the first part stopped. -/
theorem bind {p : Parser α} {f : α → Parser β} (hp : Reads source start post p)
    (hf : ∀ a middle, start ≤ middle → post a middle → Reads source middle post' (f a)) :
    Reads source start post' (p >>= f) := by
  intro s b s'' hs hrun
  obtain ⟨a, s', hps, hrun⟩ := exists_of_bind hrun
  obtain ⟨middle, hs', hle, ha⟩ := hp hs hps
  obtain ⟨stop, hs'', hle', hb⟩ := hf a middle hle ha hs' hrun
  exact ⟨stop, hs'', Nat.le_trans hle hle', hb⟩

/-- Yielding a value reads nothing. -/
theorem pure {a : α} (h : post a start) : Reads source start post (Pure.pure a) := by
  intro s b s' hs hrun
  cases hrun
  exact ⟨start, hs, Nat.le_refl _, h⟩

/-- What is known of a result may be weakened. -/
theorem mono {post' : α → Nat → Prop} {p : Parser α} (h : Reads source start post p)
    (hpost : ∀ a stop, post a stop → post' a stop) : Reads source start post' p := by
  intro s a s' hs hrun
  obtain ⟨stop, hs', hle, ha⟩ := h hs hrun
  exact ⟨stop, hs', hle, hpost a stop ha⟩

/-- A reader that fails yields nothing that could be out of place. -/
theorem throw (e : ParseError) : Reads source start post (MonadExcept.throw e : Parser α) := by
  intro s a s' _ hrun
  cases hrun

/-- A reader that gives up yields nothing that could be out of place. -/
theorem exhausted : Reads source start post (Parser.exhausted : Parser α) := by
  intro s a s' _ hrun
  cases hrun

/-- Looking at a token does not go forward. -/
theorem peek_bind {f : Token → Parser α} (h : ∀ token, Reads source start post (f token)) :
    Reads source start post (peek >>= f) := by
  intro s a s'' hs hrun
  obtain ⟨token, s', hpeek, hrun⟩ := exists_of_bind hrun
  unfold peek at hpeek
  split at hpeek
  · cases hpeek
    exact h _ hs hrun
  · cases hpeek
    exact h _ hs hrun
  · cases hpeek

end Reads

/-- A construct that began between two offsets, at a character boundary. -/
structure Opens (source : String) (start first stop : Nat) : Prop where
  start_le : start ≤ first
  first_lt : first < stop
  boundary : Boundary source first

/-- A construct that began before an offset began before any later one. -/
theorem Opens.mono (h : Opens source start first stop) {stop' : Nat} (hle : stop ≤ stop') :
    Opens source start first stop' :=
  ⟨h.start_le, Nat.lt_of_lt_of_le h.first_lt hle, h.boundary⟩

/-- Where an expression was read a construct began. -/
theorem opens_of_spanned {e : Expr} (h : Spanned source start e stop) :
    Opens source start e.span.start stop :=
  ⟨h.start_le, h.start_lt, h.fits.boundary.1⟩

/-- The token is the last one taken, and was taken after the offset. -/
structure Taken (source : String) (start : Nat) (token : Token) (stop : Nat) : Prop where
  stop_eq : token.span.stop = stop
  opens : token.kind ≠ .endOfText → Opens source start token.span.start stop

/-- A token stands after what was read before it. -/
theorem reads_take : Reads source start (Taken source start) take := by
  intro s token s' hs hrun
  unfold take at hrun
  have htiled := hs.tiled
  split at hrun
  · next hpending =>
      cases hrun
      rw [hpending] at htiled
      have hle := htiled.offset_le
      rw [← hs.size_eq] at hle
      have hend : Tiled source s.size s.pending := by
        rw [hpending, hs.size_eq]
        exact .nil (Token.gap_self (.size source))
      exact ⟨s.size, ⟨rfl, hs.size_eq, hend⟩, hle, rfl, fun hkind => (hkind rfl).elim⟩
  · next token rest hpending =>
      cases hrun
      rw [hpending] at htiled
      cases htiled with
      | cons hgap hlt htext hlexeme hitems =>
          refine ⟨_, ⟨rfl, hs.size_eq, hitems⟩, ?_, rfl, fun _ => ⟨hgap.1, hlt, hgap.boundary.2⟩⟩
          exact Nat.le_trans hgap.1 (Nat.le_of_lt hlt)
  · cases hrun

/-- A reader that yields nothing of importance. -/
theorem reads_expect (kind : Token.Kind) :
    Reads source start (fun _ _ => True) (expect kind) := by
  refine .bind reads_take fun token stop _ _ => ?_
  split
  · exact .pure trivial
  · split <;> exact .throw _

/-- Accepting a token does not go back. -/
theorem reads_accept (kind : Token.Kind) :
    Reads source start (fun _ _ => True) (accept kind) := by
  refine .peek_bind fun token => ?_
  split
  · exact .bind reads_take fun _ _ _ _ => .pure trivial
  · exact .pure trivial

/-- Skipping semicolons goes forward. -/
theorem reads_skipSemicolons : Reads source start (fun _ _ => True) skipSemicolons := by
  intro s _ t hs hrun
  refine skipSemicolons_induction (P := fun s t => ∀ start, At source start s →
    ∃ stop, At source stop t ∧ start ≤ stop ∧ True) ?_ ?_ hrun start hs
  · exact fun s _ start hs => ⟨start, hs, Nat.le_refl start, trivial⟩
  · intro token rest size previous t _ ih start hs
    cases hs.tiled with
    | cons hgap hlt htext hlexeme hitems =>
        obtain ⟨stop, ht, hle, -⟩ := ih _ ⟨rfl, hs.size_eq, hitems⟩
        exact ⟨stop, ht, Nat.le_trans hgap.1 (Nat.le_trans (Nat.le_of_lt hlt) hle), trivial⟩

/-- Reading how many loops a signal leaves does not go back. -/
theorem reads_carry : Reads source start (fun _ _ => True) carry := by
  refine .peek_bind fun token => ?_
  split
  · refine .bind reads_take fun _ _ _ _ => ?_
    dsimp only
    split
    · exact .pure trivial
    · exact .throw _
  · exact .pure trivial

/-! ## Nodes -/

/-- A node from where its construct began to where it ends. -/
theorem reads_of_placed {node : Span → Expr} (hspan : ∀ span, (node span).span = span)
    (hopens : Opens source start first stop)
    (hplaced : Boundary source stop →
      (node (.between first stop)).every (Expr.placed source) = true) :
    Reads source stop (Spanned source start) (do return node (← spanFrom first)) := by
  intro s e s' hs hrun
  cases hrun
  rw [hs.previousStop_eq]
  refine ⟨stop, hs, Nat.le_refl _, ?_, ?_, ?_, hplaced hs.tiled.boundary⟩ <;> rw [hspan]
  · exact hopens.start_le
  · exact hopens.first_lt
  · exact Span.stop_between (Nat.le_of_lt hopens.first_lt)

/-- A node whose children stand between where its construct began and where it ends. -/
theorem reads_node {node : Span → Expr} (hspan : ∀ span, (node span).span = span)
    (hbody : ∀ span, (node span).childSpan = span) (hopens : Opens source start first stop)
    (hchildren : ∀ span, ∀ child ∈ (node span).children, Fits source first child stop) :
    Reads source stop (Spanned source start) (do return node (← spanFrom first)) := by
  refine reads_of_placed hspan hopens fun hboundary => ?_
  exact Expr.every_placed_of_between (hspan _) ((hbody _).trans (hspan _).symm)
    (Nat.le_of_lt hopens.first_lt) hopens.boundary hboundary (hchildren _)

/-- A node that is the token last taken. -/
theorem reads_leaf {token : Token} {e : Expr} (hopens : Opens source start token.span.start stop)
    (hstop : token.span.stop = stop) (hspan : e.span = token.span) (hbody : e.childSpan = e.span)
    (hchildren : e.children = []) : Reads source stop (Spanned source start) (pure e) := by
  intro s e' s' hs hrun
  cases hrun
  have hbetween : e.span = .between token.span.start stop := by
    rw [hspan, ← hstop, Span.between_start_stop]
  have hplaced : e.every (Expr.placed source) = true :=
    Expr.every_placed_of_between hbetween hbody (Nat.le_of_lt hopens.first_lt) hopens.boundary
      hs.tiled.boundary (by simp [hchildren])
  exact ⟨stop, hs, Nat.le_refl _, hspan ▸ hopens.start_le, hspan ▸ hopens.first_lt, hspan ▸ hstop,
    hplaced⟩

/-- A number that a text leaves out stands at a boundary. -/
theorem fits_absent (h : Boundary source stop) (value : Number) :
    Fits source stop (.number (.empty stop) value) stop := by
  have hspan : Span.empty stop = .between stop stop := by simp [Span.empty, Span.between]
  refine ⟨Nat.le_refl _, Nat.le_refl _, ?_⟩
  exact Expr.every_placed_of_between hspan rfl (Nat.le_refl _) h h (by simp [Expr.children])

/-- A number that was left out stands where reading had got to. -/
theorem reads_absentNumber (value : Int) :
    Reads source start (Fits source start) (absentNumber value) := by
  intro s e s' hs hrun
  cases hrun
  rw [hs.previousStop_eq]
  exact ⟨start, hs, Nat.le_refl _, fits_absent hs.tiled.boundary _⟩

/-- A node with an optional last part. -/
theorem reads_withOptional {p d : Parser α} {kind : Token.Kind} {node : α → Span → Expr}
    {post : Nat → α → Nat → Prop}
    (hp : ∀ middle, stop ≤ middle → Reads source middle (post middle) p)
    (hd : ∀ middle, stop ≤ middle → Reads source middle (post middle) d)
    (hnode : ∀ a middle stop', stop ≤ middle → middle ≤ stop' → post middle a stop' →
      Reads source stop' (Spanned source start) (do return node a (← spanFrom first))) :
    Reads source stop (Spanned source start) (withOptional kind p d first node) := by
  refine .bind (reads_accept kind) fun accepted middle hle _ => ?_
  split
  · exact .bind (hp middle hle) fun a stop' hle' ha => hnode a middle stop' hle hle' ha
  · exact .bind (hd middle hle) fun a stop' hle' ha => hnode a middle stop' hle hle' ha

/-! ## Productions -/

section

variable {x : Nat → Parser Expr}
  (hx : ∀ start least, Reads source start (Spanned source start) (x least))

include hx

/-- The expressions of a sequence are read one after the other. -/
theorem reads_sequence (closing : Token.Kind) (rounds start : Nat) :
    Reads source start (Row source start) (sequence x closing rounds) := by
  induction rounds generalizing start with
  | zero => exact .exhausted
  | succ rounds ih =>
      unfold sequence
      refine .bind reads_skipSemicolons fun _ middle hle _ => ?_
      refine .peek_bind fun token => ?_
      split
      · exact .pure (.nil hle)
      · split
        · exact .throw _
        · refine .bind (hx middle 0) fun first stop _ hfirst => ?_
          refine .bind (ih stop) fun rest _ _ hrest => ?_
          exact .pure (.cons (hfirst.mono hle) hrest)

/-- Arguments are read one after the other. -/
theorem reads_arguments (closing : Symbol) (rounds start : Nat) :
    Reads source start (Row source start) (arguments x closing rounds) := by
  induction rounds generalizing start with
  | zero => exact .exhausted
  | succ rounds ih =>
      unfold arguments
      refine .bind (reads_accept _) fun closed middle hle _ => ?_
      split
      · exact .pure (.nil hle)
      · refine .bind (hx middle 0) fun first stop _ hfirst => ?_
        have hfirst := hfirst.mono hle
        refine .bind (reads_accept _) fun more stop' hle' _ => ?_
        split
        · refine .bind (ih stop') fun rest _ _ hrest => ?_
          exact .pure (.cons hfirst (hrest.mono hle' (Nat.le_refl _)))
        · refine .bind (reads_expect _) fun _ stop'' hle'' _ => ?_
          exact .pure (.cons hfirst (.nil (Nat.le_trans hle' hle'')))

/-- Reading expressions between commas goes forward. -/
theorem reads_commaSeparated (rounds start : Nat) :
    Reads source start (fun _ _ => True) (commaSeparated x rounds) := by
  induction rounds generalizing start with
  | zero => exact .exhausted
  | succ rounds ih =>
      unfold commaSeparated
      refine .bind (hx start 0) fun first _ _ _ => ?_
      refine .bind (reads_accept _) fun more middle _ _ => ?_
      split
      · exact .bind (ih middle) fun rest _ _ _ => .pure trivial
      · exact .pure trivial

omit hx in
/-- What an assignment stores stands where its two sides stand. -/
theorem fits_assignedValue {target value : Expr} {middle : Nat}
    (htarget : Fits source first target middle) (hvalue : Fits source middle value stop)
    (operator : AssignOp) : Fits source first (assignedValue operator target value) stop := by
  have htarget_le := target.span.start_le_stop
  have hvalue_le := value.span.start_le_stop
  have hfirst := htarget.start_le
  have hmiddle := htarget.stop_le
  have hmiddle' := hvalue.start_le
  cases operator with
  | plain | const => exact hvalue.mono (by omega) (Nat.le_refl _)
  | compound operator =>
      have hspan : target.span.merge value.span = .between target.span.start value.span.stop := by
        rw [Span.merge, Nat.min_eq_left (by omega), Nat.max_eq_right (by omega)]
      have hle : target.span.start ≤ value.span.stop := by omega
      refine ⟨?_, ?_, ?_⟩
      · show first ≤ (target.span.merge value.span).start
        rw [hspan]
        exact hfirst
      · show (target.span.merge value.span).stop ≤ stop
        rw [hspan, Span.stop_between hle]
        exact hvalue.stop_le
      · refine Expr.every_placed_of_between hspan rfl hle htarget.boundary.1 hvalue.boundary.2 ?_
        have hleft : Fits source target.span.start target value.span.stop :=
          ⟨Nat.le_refl _, by omega, htarget.placed⟩
        have hright : Fits source target.span.start value value.span.stop :=
          ⟨by omega, Nat.le_refl _, hvalue.placed⟩
        simpa [assignedValue, Expr.children] using ⟨hleft, hright⟩

/-- The list and the position that a push or a pop takes from its target. -/
def listAndPosition : Expr → Expr × Expr
  | .index _ list position => (list, position)
  | list => (list, .number (.empty list.span.stop) (.ofInt (-1)))

omit hx in
/-- A push is into the list and at the position that its target names. -/
theorem pushInto_eq (span : Span) (target value : Expr) : pushInto span target value =
    .push span (listAndPosition target).1 (listAndPosition target).2 value := by
  cases target <;> rfl

omit hx in
/-- A pop is from the list and at the position that its target names. -/
theorem popFrom_eq (span : Span) (target : Expr) : popFrom span target =
    .pop span (listAndPosition target).1 (listAndPosition target).2 := by
  cases target <;> rfl

omit hx in
/-- The list and the position that a target names are in their places if it is. -/
theorem fits_listAndPosition {target : Expr} (h : Fits source first target stop) :
    Fits source first (listAndPosition target).1 stop ∧
      Fits source first (listAndPosition target).2 stop := by
  cases target with
  | index span list position =>
      have hchild {child : Expr} (hchild : child ∈ [list, position]) :
          Fits source first child stop :=
        (h.child hchild).mono h.start_le h.stop_le
      exact ⟨hchild List.mem_cons_self, hchild (List.mem_cons_of_mem _ List.mem_cons_self)⟩
  | _ =>
      refine ⟨h, (fits_absent h.boundary.2 _).mono ?_ h.stop_le⟩
      exact Nat.le_trans h.start_le (Span.start_le_stop _)

/-- An assignment spans from its target to the value assigned. -/
theorem reads_assignment (operator : AssignOp) {target : Expr} {middle : Nat}
    (htarget : Spanned source start target middle) (hle : middle ≤ stop) :
    Reads source stop (Spanned source start) (assignment x operator target) := by
  have hopens := (opens_of_spanned htarget).mono hle
  have hfirst : target.span.start ≤ stop := Nat.le_of_lt hopens.first_lt
  unfold assignment
  refine .bind (hx stop _) fun value stop' hle' hvalue => ?_
  have hvalue := fits_assignedValue (htarget.fits_self hle) hvalue.fits operator
  have hlimit : ∀ middle, stop' ≤ middle →
      Reads source middle (Fits source middle) (x Power.transfer.left) :=
    fun middle _ => (hx middle _).mono fun _ _ h => h.fits
  refine reads_withOptional hlimit (fun _ _ => reads_absentNumber _) ?_
  intro limit middle' stop'' hmiddle' hstop'' hlimit
  have hle'' : stop' ≤ stop'' := Nat.le_trans hmiddle' hstop''
  have hopens := hopens.mono (Nat.le_trans hle' hle'')
  refine reads_node (fun _ => rfl) (fun _ => rfl) hopens fun _ => ?_
  have htarget := htarget.fits_self (Nat.le_trans hle (Nat.le_trans hle' hle''))
  have hvalue := hvalue.mono (Nat.le_refl _) hle''
  have hlimit := hlimit.mono (Nat.le_trans hfirst (Nat.le_trans hle' hmiddle')) (Nat.le_refl _)
  simpa [Expr.children] using ⟨htarget, hvalue, hlimit⟩

/-- What a continuation makes of an expression begins where that does. -/
theorem reads_extend (rounds : Nat) {lhs : Expr} {middle : Nat}
    (hlhs : Spanned source start lhs middle) (hle : middle ≤ stop) (continuation : Continuation) :
    Reads source stop (Spanned source start) (extend x rounds lhs continuation) := by
  have hopens := (opens_of_spanned hlhs).mono hle
  have hfirst : lhs.span.start ≤ stop := Nat.le_of_lt hopens.first_lt
  have hself {stop' : Nat} (hle' : stop ≤ stop') : Fits source lhs.span.start lhs stop' :=
    hlhs.fits_self (Nat.le_trans hle hle')
  cases continuation with
  | call =>
      refine .bind (reads_arguments hx _ _ _) fun items stop' hle' hitems => ?_
      refine reads_node (fun _ => rfl) (fun _ => rfl) (hopens.mono hle') fun _ => ?_
      refine List.forall_mem_cons.2 ⟨hself hle', fun item hitem => ?_⟩
      exact (hitems.fits hitem).mono hfirst (Nat.le_refl _)
  | index =>
      refine .bind (hx stop _) fun position stop' hle' hposition => ?_
      refine .bind (reads_expect _) fun _ stop'' hle'' _ => ?_
      have hle' := Nat.le_trans hle' hle''
      refine reads_node (fun _ => rfl) (fun _ => rfl) (hopens.mono hle') fun _ => ?_
      simpa [Expr.children] using ⟨hself hle', hposition.fits.mono hfirst hle''⟩
  | method =>
      refine .bind (reads_expect _) fun name stop₁ hle₁ _ => ?_
      refine .bind (reads_expect _) fun _ stop₂ hle₂ _ => ?_
      refine .bind (reads_arguments hx _ _ _) fun items stop₃ hle₃ hitems => ?_
      have hle' : stop ≤ stop₃ := by omega
      refine reads_node (fun _ => rfl) (fun _ => rfl) (hopens.mono hle') fun _ => ?_
      refine List.forall_mem_cons.2 ⟨hself hle', fun item hitem => ?_⟩
      exact (hitems.fits hitem).mono (by omega) (Nat.le_refl _)
  | update step =>
      refine reads_node (fun _ => rfl) (fun _ => rfl) hopens fun _ => ?_
      simpa [Expr.children] using hself (Nat.le_refl _)
  | binary operator | shift =>
      refine .bind (hx stop _) fun rhs stop' hle' hrhs => ?_
      refine reads_node (fun _ => rfl) (fun _ => rfl) (hopens.mono hle') fun _ => ?_
      simpa [Expr.children] using ⟨hself hle', hrhs.fits.mono hfirst (Nat.le_refl _)⟩
  | assign operator => exact reads_assignment hx operator hlhs hle
  | range inclusive =>
      refine .bind (hx stop _) fun last stop' hle' hlast => ?_
      have hstep : ∀ middle, stop' ≤ middle →
          Reads source middle (Fits source middle) (x Power.range.right) :=
        fun middle _ => (hx middle _).mono fun _ _ h => h.fits
      refine reads_withOptional hstep (fun _ _ => reads_absentNumber _) ?_
      intro step middle' stop'' hmiddle' hstop'' hstep
      refine reads_node (fun _ => rfl) (fun _ => rfl) (hopens.mono (by omega)) fun _ => ?_
      have hlast := hlast.fits.mono hfirst (Nat.le_trans hmiddle' hstop'')
      have hstep : Fits source lhs.span.start step stop'' :=
        hstep.mono (by omega) (Nat.le_refl _)
      simpa [Expr.children] using ⟨hself (by omega), hlast, hstep⟩
  | push =>
      refine .bind (hx stop _) fun value stop' hle' hvalue => ?_
      simp only [pushInto_eq]
      refine reads_node (fun _ => rfl) (fun _ => rfl) (hopens.mono hle') fun _ => ?_
      obtain ⟨hlist, hposition⟩ := fits_listAndPosition (hself hle')
      have hvalue := hvalue.fits.mono hfirst (Nat.le_refl _)
      simpa [Expr.children] using ⟨hlist, hposition, hvalue⟩

/-- An expression that goes on spans from its first operand to its last token. -/
theorem reads_continued (room least rounds : Nat) {lhs : Expr}
    (hlhs : Spanned source start lhs stop) :
    Reads source stop (Spanned source start) (continued x room least rounds lhs) := by
  induction rounds generalizing lhs stop with
  | zero => exact .exhausted
  | succ rounds ih =>
      unfold continued
      refine .peek_bind fun token => ?_
      split
      · exact .pure hlhs
      · split
        · exact .pure hlhs
        · refine .bind reads_take fun _ middle hle _ => ?_
          exact .bind (reads_extend hx room hlhs hle _) fun lhs' stop' _ hlhs' => ih hlhs'

omit hx in
/-- A function literal holds its body, and the body its expressions. -/
theorem every_placed_functionOf {body : Expr} (hbody : Fits source first body stop)
    (hfirst : Boundary source first) (hstop : Boundary source stop) (parameters : List String) :
    (functionOf (.between first stop) parameters body).every (Expr.placed source) = true := by
  have hle : first ≤ stop :=
    Nat.le_trans hbody.start_le (Nat.le_trans body.span.start_le_stop hbody.stop_le)
  have hspan : (functionOf (.between first stop) parameters body).span = .between first stop := by
    cases body <;> rfl
  have hchildSpan : (functionOf (.between first stop) parameters body).childSpan = body.span := by
    cases body <;> rfl
  refine Expr.every_placed_of_children ?_ (hchildSpan ▸ hbody.boundary) ?_ fun child hchild => ?_
  · rw [hspan, Span.stop_between hle]
    exact ⟨hfirst, hstop⟩
  · rw [hspan, hchildSpan, Span.isWithin_iff, Span.stop_between hle]
    exact ⟨hbody.start_le, hbody.stop_le⟩
  · rw [hchildSpan]
    cases body with
    | block bodySpan items => exact hbody.child hchild
    | _ =>
        obtain rfl := List.mem_singleton.1 hchild
        exact ⟨Nat.le_refl _, Nat.le_refl _, hbody.placed⟩

/-- A function spans from its first token to the end of its body. -/
theorem reads_functionBody (hopens : Opens source start first stop) (parameters : List String) :
    Reads source stop (Spanned source start) (functionBody x first parameters) := by
  rw [functionBody_eq]
  refine .bind (hx stop 0) fun body stop' hle hbody => ?_
  have hspan (span : Span) : (functionOf span parameters body).span = span := by cases body <;> rfl
  refine reads_of_placed hspan (hopens.mono hle) fun hboundary => ?_
  have hbody := hbody.fits.mono (Nat.le_of_lt hopens.first_lt) (Nat.le_refl _)
  exact every_placed_functionOf hbody hopens.boundary hboundary parameters

omit hx in
/-- Making a parameter of an expression reads nothing. -/
theorem reads_parameter (e : Expr) : Reads source start (fun _ _ => True) (parameter e) := by
  unfold parameter
  split
  · exact .pure trivial
  · exact .throw _

omit hx in
/-- Making parameters of expressions reads nothing. -/
theorem reads_parameters (es : List Expr) :
    Reads source start (fun _ _ => True) (es.mapM parameter) := by
  induction es generalizing start with
  | nil => exact .pure trivial
  | cons e es ih =>
      rw [List.mapM_cons]
      refine .bind (reads_parameter e) fun name _ _ _ => ?_
      exact .bind ih fun names _ _ _ => .pure trivial

/-- What begins with a parenthesis spans from there on. -/
theorem reads_groupOrFunction (rounds : Nat) (hopens : Opens source start first stop) :
    Reads source stop (Spanned source start) (groupOrFunction x rounds first) := by
  unfold groupOrFunction
  refine .bind (reads_accept _) fun closed stop₁ hle₁ _ => ?_
  split
  · refine .bind (reads_expect _) fun _ stop₂ hle₂ _ => ?_
    exact reads_functionBody hx (hopens.mono (Nat.le_trans hle₁ hle₂)) []
  · refine .bind (hx stop₁ 0) fun inner stop₂ hle₂ hinner => ?_
    refine .bind (reads_accept _) fun more stop₃ hle₃ _ => ?_
    split
    · refine .bind (reads_commaSeparated hx _ _) fun rest stop₄ hle₄ _ => ?_
      refine .bind (reads_expect _) fun _ stop₅ hle₅ _ => ?_
      refine .bind (reads_expect _) fun _ stop₆ hle₆ _ => ?_
      refine .bind (reads_parameters _) fun parameters stop₇ hle₇ _ => ?_
      exact reads_functionBody hx (hopens.mono (by omega)) parameters
    · refine .bind (reads_expect _) fun _ stop₄ hle₄ _ => ?_
      refine .bind (reads_accept _) fun arrow stop₅ hle₅ _ => ?_
      split
      · refine .bind (reads_parameter inner) fun name stop₆ hle₆ _ => ?_
        exact reads_functionBody hx (hopens.mono (by omega)) [name]
      · refine reads_node (fun _ => rfl) (fun _ => rfl) (hopens.mono (by omega)) fun _ => ?_
        have hlt := hopens.first_lt
        simpa [Expr.children] using hinner.fits.mono (by omega) (by omega)

/-- A loop spans from its keyword to the end of its body. -/
theorem reads_loop (hopens : Opens source start first stop) :
    Reads source stop (Spanned source start) (loop x first) := by
  have hlt := hopens.first_lt
  unfold loop
  refine .bind (reads_accept _) fun opened stop₁ hle₁ _ => ?_
  split
  · refine .bind (hx stop₁ 0) fun initial stop₂ hle₂ hinitial => ?_
    refine .bind (reads_expect _) fun _ stop₃ hle₃ _ => ?_
    refine .bind (hx stop₃ 0) fun condition stop₄ hle₄ hcondition => ?_
    refine .bind (reads_expect _) fun _ stop₅ hle₅ _ => ?_
    refine .bind (hx stop₅ 0) fun step stop₆ hle₆ hstep => ?_
    refine .bind (reads_expect _) fun _ stop₇ hle₇ _ => ?_
    refine .bind (hx stop₇ 0) fun body stop₈ hle₈ hbody => ?_
    refine reads_node (fun _ => rfl) (fun _ => rfl) (hopens.mono (by omega)) fun _ => ?_
    have hinitial := hinitial.fits.mono (by omega : first ≤ _) (by omega : _ ≤ stop₈)
    have hcondition := hcondition.fits.mono (by omega : first ≤ _) (by omega : _ ≤ stop₈)
    have hstep := hstep.fits.mono (by omega : first ≤ _) (by omega : _ ≤ stop₈)
    have hbody := hbody.fits.mono (by omega : first ≤ _) (Nat.le_refl _)
    simpa [Expr.children] using ⟨hinitial, hcondition, hstep, hbody⟩
  · refine .bind (reads_expect _) fun name stop₂ hle₂ _ => ?_
    refine .bind reads_take fun keyword stop₃ hle₃ _ => ?_
    have hrest (walk : Walk) (stop₄ : Nat) (hle₄ : stop₃ ≤ stop₄) :
        Reads source stop₄ (Spanned source start) (do
          let enumerable ← x 0
          let body ← x 0
          return Expr.forEach (← spanFrom first) walk name.lexeme enumerable body) := by
      refine .bind (hx stop₄ 0) fun enumerable stop₅ hle₅ henumerable => ?_
      refine .bind (hx stop₅ 0) fun body stop₆ hle₆ hbody => ?_
      refine reads_node (fun _ => rfl) (fun _ => rfl) (hopens.mono (by omega)) fun _ => ?_
      have henumerable := henumerable.fits.mono (by omega : first ≤ _) hle₆
      have hbody := hbody.fits.mono (by omega : first ≤ _) (Nat.le_refl _)
      simpa [Expr.children] using ⟨henumerable, hbody⟩
    split
    · exact hrest _ _ (Nat.le_refl _)
    · exact hrest _ _ (Nat.le_refl _)
    · exact .bind (.throw _) fun walk stop₄ hle₄ (_ : True) => hrest walk stop₄ hle₄

/-- An operator before an operand spans from its token to the end of the operand. -/
theorem reads_unary (hopens : Opens source start first stop) (operator : Unary) :
    Reads source stop (Spanned source start) (unary x first operator) := by
  refine .bind (hx stop _) fun operand stop' hle hoperand => ?_
  refine reads_node (fun _ => rfl) (fun _ => rfl) (hopens.mono hle) fun _ => ?_
  simpa [Expr.children] using hoperand.fits.mono (Nat.le_of_lt hopens.first_lt) (Nat.le_refl _)

/-- A step spans from its token to the end of its operand. -/
theorem reads_update (hopens : Opens source start first stop) (step : Step) :
    Reads source stop (Spanned source start) (update x first step) := by
  refine .bind (hx stop _) fun operand stop' hle hoperand => ?_
  refine reads_node (fun _ => rfl) (fun _ => rfl) (hopens.mono hle) fun _ => ?_
  simpa [Expr.children] using hoperand.fits.mono (Nat.le_of_lt hopens.first_lt) (Nat.le_refl _)

/-- An operand that begins with a symbol spans from there on. -/
theorem reads_symbolOperand (rounds : Nat) {token : Token}
    (hopens : Opens source start token.span.start stop) (symbol : Symbol) :
    Reads source stop (Spanned source start) (symbolOperand x rounds token symbol) := by
  have hfirst : token.span.start ≤ stop := Nat.le_of_lt hopens.first_lt
  unfold symbolOperand
  split
  · refine .bind (reads_arguments hx _ _ _) fun items stop' hle hitems => ?_
    refine reads_node (fun _ => rfl) (fun _ => rfl) (hopens.mono hle) fun _ item hitem => ?_
    exact (hitems.fits hitem).mono hfirst (Nat.le_refl _)
  · refine .bind (reads_sequence hx _ _ _) fun body stop' hle hbody => ?_
    refine .bind (reads_expect _) fun _ stop'' hle' _ => ?_
    have hopens := hopens.mono (Nat.le_trans hle hle')
    refine reads_node (fun _ => rfl) (fun _ => rfl) hopens fun _ item hitem => ?_
    exact (hbody.fits hitem).mono hfirst hle'
  · exact reads_groupOrFunction hx _ hopens
  · exact reads_unary hx hopens _
  · exact reads_unary hx hopens _
  · exact reads_unary hx hopens _
  · exact reads_update hx hopens _
  · exact reads_update hx hopens _
  · refine .bind (hx stop _) fun target stop' hle htarget => ?_
    simp only [popFrom_eq]
    refine reads_node (fun _ => rfl) (fun _ => rfl) (hopens.mono hle) fun _ => ?_
    have hparts := fits_listAndPosition (htarget.fits.mono hfirst (Nat.le_refl _))
    simpa [Expr.children] using hparts
  · refine .bind (hx stop _) fun e stop' hle he => ?_
    split
    · refine reads_node (fun _ => rfl) (fun _ => rfl) (hopens.mono hle) fun _ child hchild => ?_
      -- The parts of the assignment stood within it, and now stand within a longer one.
      exact (he.fits.child hchild).mono (Nat.le_trans hfirst he.start_le) (Nat.le_of_eq he.stop_eq)
    · exact .throw _
  · exact .throw _

/-- An operand that begins with a keyword spans from there on. -/
theorem reads_keywordOperand {token : Token} (hopens : Opens source start token.span.start stop)
    (hstop : token.span.stop = stop) (keyword : Keyword) :
    Reads source stop (Spanned source start) (keywordOperand x token keyword) := by
  have hfirst : token.span.start ≤ stop := Nat.le_of_lt hopens.first_lt
  unfold keywordOperand
  split
  · exact reads_leaf hopens hstop rfl rfl rfl
  · exact reads_leaf hopens hstop rfl rfl rfl
  · exact reads_leaf hopens hstop rfl rfl rfl
  · refine .bind (hx stop 0) fun condition stop₁ hle₁ hcondition => ?_
    refine .bind (hx stop₁ 0) fun success stop₂ hle₂ hsuccess => ?_
    have hfailure : ∀ middle, stop₂ ≤ middle → Reads source middle
        (fun failure stop' => ∀ e ∈ failure, Fits source middle e stop') (some <$> x 0) := by
      intro middle _
      rw [map_eq_pure_bind]
      refine .bind (hx middle 0) fun failure stop' _ hfailure => .pure ?_
      simpa using hfailure.fits
    refine reads_withOptional hfailure (fun middle _ => .pure (by simp)) ?_
    intro failure middle stop' hmiddle hstop' hfailure
    refine reads_node (fun _ => rfl) (fun _ => rfl) (hopens.mono (by omega)) fun _ => ?_
    have hcondition := hcondition.fits.mono hfirst (by omega : _ ≤ stop')
    have hsuccess := hsuccess.fits.mono (Nat.le_trans hfirst hle₁) (by omega : _ ≤ stop')
    have hfailure (e : Expr) (he : failure = some e) : Fits source token.span.start e stop' :=
      (hfailure e he).mono (by omega) (Nat.le_refl _)
    simpa [Expr.children] using ⟨hcondition, hsuccess, hfailure⟩
  · refine .bind (hx stop 0) fun condition stop₁ hle₁ hcondition => ?_
    refine .bind (hx stop₁ 0) fun body stop₂ hle₂ hbody => ?_
    refine reads_node (fun _ => rfl) (fun _ => rfl) (hopens.mono (by omega)) fun _ => ?_
    have hcondition := hcondition.fits.mono hfirst hle₂
    have hbody := hbody.fits.mono (Nat.le_trans hfirst hle₁) (Nat.le_refl _)
    simpa [Expr.children] using ⟨hcondition, hbody⟩
  · exact reads_loop hx hopens
  · refine .bind reads_carry fun count stop' hle _ => ?_
    exact reads_node (fun _ => rfl) (fun _ => rfl) (hopens.mono hle) (by simp [Expr.children])
  · refine .bind reads_carry fun count stop' hle _ => ?_
    exact reads_node (fun _ => rfl) (fun _ => rfl) (hopens.mono hle) (by simp [Expr.children])
  · exact .throw _

/-- An operand spans from its first token to its last. -/
theorem reads_operand (rounds : Nat) :
    Reads source start (Spanned source start) (operand x rounds) := by
  refine .bind reads_take fun token stop _ htoken => ?_
  unfold operandOf
  have hopens (kind : Token.Kind) (hkind : token.kind = kind) (hne : kind ≠ .endOfText) :=
    htoken.opens (hkind ▸ hne)
  split
  · next hkind => exact reads_leaf (hopens _ hkind (by simp)) htoken.stop_eq rfl rfl rfl
  · next hkind => exact reads_leaf (hopens _ hkind (by simp)) htoken.stop_eq rfl rfl rfl
  · next hkind => exact reads_leaf (hopens _ hkind (by simp)) htoken.stop_eq rfl rfl rfl
  · next hkind => exact reads_leaf (hopens _ hkind (by simp)) htoken.stop_eq rfl rfl rfl
  · next hkind => exact reads_keywordOperand hx (hopens _ hkind (by simp)) htoken.stop_eq _
  · next hkind => exact reads_symbolOperand hx _ (hopens _ hkind (by simp)) _
  · exact .throw _

end

/-- An expression is read from where it begins to where it ends, and everything inside it is in its
place. -/
theorem reads_expressionWithin (source : String) (room least start : Nat) :
    Reads source start (Spanned source start) (expressionWithin room least) := by
  induction room generalizing least start with
  | zero => exact .exhausted
  | succ room ih =>
      have hx (start least : Nat) := ih least start
      unfold expressionWithin
      refine .bind (reads_operand hx room) fun lhs stop _ hlhs => ?_
      exact reads_continued hx room least room hlhs

end Parser

/-- The expressions of a program stand in its source one after the other, everything inside them is
in its place, and the program takes up the source. -/
theorem Block.row_of_parse {source : String} {program : Block}
    (h : Block.parse source = .ok program) :
    Expr.Row source 0 program.body source.utf8ByteSize ∧
      program.span = ⟨0, source.utf8ByteSize⟩ := by
  obtain ⟨s', hprogram⟩ := exists_of_parse h
  obtain ⟨body, hread, rfl⟩ := Parser.exists_of_program hprogram
  have hstart : Parser.At source 0 (.ofSource source) := ⟨rfl, rfl, Token.tiled_scan source⟩
  have hexpression (start least : Nat) := Parser.reads_expressionWithin source
    ((TokenStream.ofSource source).pending.length + 1) least start
  obtain ⟨stop, hs', -, hrow⟩ := Parser.reads_sequence hexpression _ _ 0 hstart hread
  exact ⟨hrow.mono (Nat.le_refl _) hs'.tiled.offset_le, rfl⟩

/-- The spans of a tree nest. The program takes up the source and holds its expressions, which are
not empty and stand in the source one after the other. Every expression inside them, filled in or
used twice as it may be, stands in the source between character boundaries and holds its children.
So does the body of a function, which stands within the function and holds the expressions of the
body. -/
theorem Block.spans_nest {source : String} {program : Block}
    (h : Block.parse source = .ok program) :
    (program.span = ⟨0, source.utf8ByteSize⟩ ∧
      ∀ e ∈ program.body, e.span.isWithin program.span = true) ∧
    (∀ e ∈ program.body, ∀ node, Expr.Node node e →
      (node.span.stop ≤ source.utf8ByteSize ∧ Boundary source node.span.start ∧
        Boundary source node.span.stop ∧
        ∀ child ∈ node.children, child.span.isWithin node.span = true) ∧
      ∀ span parameters body bodySpan, node = .function span parameters body bodySpan →
        Boundary source bodySpan.start ∧ Boundary source bodySpan.stop ∧
          bodySpan.isWithin span = true ∧
          ∀ child ∈ body, child.span.isWithin bodySpan = true) ∧
    (∀ e ∈ program.body, 0 < e.span.length) ∧
    program.body.Pairwise fun a b => a.span.stop ≤ b.span.start := by
  obtain ⟨hrow, hspan⟩ := Block.row_of_parse h
  refine ⟨⟨hspan, fun e he => ?_⟩, fun e he node hnode => ?_, fun e he => hrow.length_pos he,
    hrow.pairwise⟩
  · have hsize : (⟨0, source.utf8ByteSize⟩ : Span).stop = source.utf8ByteSize := Nat.zero_add _
    rw [hspan, Span.isWithin_iff, hsize]
    exact ⟨Nat.zero_le _, (hrow.fits he).stop_le⟩
  · have hplaced := Expr.every_iff.1 (hrow.fits he).placed node hnode
    obtain ⟨⟨hstart, hstop⟩, hbody, hwithin, hchildren⟩ := Expr.placed_iff.1 hplaced
    refine ⟨⟨hstop.le_size, hstart, hstop, fun child hchild => ?_⟩, ?_⟩
    · exact Span.isWithin_trans (hchildren child hchild) hwithin
    · rintro span parameters body bodySpan rfl
      exact ⟨hbody.1, hbody.2, hwithin, hchildren⟩

/-- A compound assignment, whose target stands in the tree twice, and a push, whose position is
filled in, of a character of two bytes. -/
theorem Block.spans_nest_push :
    ∃ program, Block.parse "x += 1\nl << @\u00e9" = .ok program ∧
      (∀ e ∈ program.body, ∀ node, Expr.Node node e →
        ∀ child ∈ node.children, child.span.isWithin node.span = true) ∧
      program.body.Pairwise fun a b => a.span.stop ≤ b.span.start := by
  obtain ⟨program, hparse⟩ :=
    Block.exists_parse (by decide +kernel : (Block.parse "x += 1\nl << @\u00e9").isOk = true)
  obtain ⟨-, hnodes, -, hpairwise⟩ := Block.spans_nest hparse
  exact ⟨program, hparse, fun e he node hnode => (hnodes e he node hnode).1.2.2.2, hpairwise⟩

end ListScript
