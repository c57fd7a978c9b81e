import ListScript.Proofs.Expr.Junction
import ListScript.Proofs.Expr.Reading
import ListScript.Proofs.Token.Tiling

/-!
# Reading ends and goes forward

Reading an expression takes the next item of its stream first, so that nested expressions and the
rounds of a loop read shorter streams, and room for one more than the pending items is never used up
(`Parser.ends_expressionWithin`). All that a reader does to its stream is to
take items from it (`Parser.closed_stepwise`), and however many are taken, the last token taken ends
before what is pending begins (`Parser.standsAt_takeMany`). `Parser.reading_progresses` says what
this means for a source text that is read expression by expression, errors or not.
-/

namespace ListScript.Parser

variable {α β : Type}

/-! ## Room -/

/-- From the stream the reader does not run out of room, and where it succeeds it leaves no more
pending than there was. -/
def EndsAt (p : Parser α) (s : TokenStream) : Prop :=
  match p s with
  | .ok _ s' => s'.pending.length ≤ s.pending.length
  | .error e _ => e.cause ≠ .outOfRoom

/-- The reader does not run out of room where fewer than so many items are pending. -/
def Ends (n : Nat) (p : Parser α) : Prop := ∀ s, s.pending.length < n → EndsAt p s

/-- The reader leaves less pending than there was, where it succeeds. -/
def Consumes (p : Parser α) : Prop :=
  ∀ ⦃s a s'⦄, p s = .ok a s' → s'.pending.length < s.pending.length

/-- A reader that takes a token whenever it succeeds leaves less pending. -/
theorem Takes.consumes {p : Parser α} (h : Takes Finished p) : Consumes p := by
  intro s a s' hrun
  obtain ⟨taken, hpending, htaken⟩ := h hrun
  obtain ⟨token, rest, rfl⟩ := htaken.exists_cons
  rw [hpending, List.length_append, List.length_map, List.length_cons]
  omega

/-- Taking leaves less pending unless nothing was. -/
theorem length_lt_of_take {s s' : TokenStream} {token : Token} (h : take s = .ok token s')
    (hs : s.pending ≠ []) : s'.pending.length < s.pending.length := by
  obtain ⟨hnil, -, -⟩ | hcons := of_take h
  · exact absurd hnil hs
  · rw [hcons]
    exact Nat.lt_succ_self _

namespace EndsAt

variable {s : TokenStream}

/-- A reader that succeeds leaves no more pending than there was. -/
theorem length_le {p : Parser α} (h : EndsAt p s) {a : α} {s' : TokenStream}
    (hrun : p s = .ok a s') : s'.pending.length ≤ s.pending.length := by
  rw [EndsAt, hrun] at h
  exact h

/-- What follows a reader only has to end where that one stopped. -/
theorem bind {p : Parser α} {f : α → Parser β} (hp : EndsAt p s)
    (hf : ∀ a s', p s = .ok a s' → EndsAt (f a) s') : EndsAt (p >>= f) s := by
  rw [EndsAt, run_bind]
  cases hrun : p s with
  | error e s' =>
      rw [EndsAt, hrun] at hp
      exact hp
  | ok a s' =>
      have hle := hp.length_le hrun
      have hrest := hf a s' hrun
      rw [EndsAt] at hrest
      dsimp only
      cases hrun' : f a s' with
      | error e s'' =>
          rw [hrun'] at hrest
          exact hrest
      | ok b s'' =>
          rw [hrun'] at hrest
          exact Nat.le_trans hrest hle

end EndsAt

namespace Ends

variable {n : Nat}

/-- Room for more is room for less. -/
theorem mono {m : Nat} {p : Parser α} (h : Ends n p) (hle : m ≤ n) : Ends m p :=
  fun s hs => h s (Nat.lt_of_lt_of_le hs hle)

/-- No stream has fewer than no items pending. -/
theorem zero (p : Parser α) : Ends 0 p := fun _ hs => (Nat.not_lt_zero _ hs).elim

/-- What follows a reader has no more items pending. -/
theorem bind {p : Parser α} {f : α → Parser β} (hp : Ends n p) (hf : ∀ a, Ends n (f a)) :
    Ends n (p >>= f) :=
  fun s hs => (hp s hs).bind fun a s' hrun =>
    hf a s' (Nat.lt_of_le_of_lt ((hp s hs).length_le hrun) hs)

/-- After something was taken, room for one item less is enough. -/
theorem bind_consuming {p : Parser α} {f : α → Parser β} (hp : Ends (n + 1) p)
    (hconsumes : Consumes p) (hf : ∀ a, Ends n (f a)) : Ends (n + 1) (p >>= f) :=
  fun s hs => (hp s hs).bind fun a s' hrun =>
    hf a s' (Nat.lt_of_lt_of_le (hconsumes hrun) (Nat.le_of_lt_succ hs))

/-- Looking at a token takes no room. -/
theorem peek : Ends n Parser.peek := by
  intro s _
  unfold EndsAt Parser.peek
  cases hpending : s.pending with
  | nil => exact Nat.le_of_eq (congrArg List.length hpending)
  | cons item rest =>
      cases item with
      | ok token => exact Nat.le_of_eq (congrArg List.length hpending)
      | error error => simp [ParseError.ofLexError]

/-- Taking a token takes no room. -/
theorem take : Ends n Parser.take := by
  intro s _
  unfold EndsAt Parser.take
  cases hpending : s.pending with
  | nil => exact Nat.le_refl _
  | cons item rest =>
      cases item with
      | ok token => exact Nat.le_succ _
      | error error => simp [ParseError.ofLexError]

/-- Passing over semicolons takes no room. -/
theorem skipSemicolons : Ends n Parser.skipSemicolons := by
  intro s _
  obtain ⟨taken, hpending, -⟩ := takes_skipSemicolons (s := s) rfl
  have hlength := congrArg List.length hpending
  rw [List.length_append] at hlength
  show List.length _ ≤ _
  omega

end Ends

/-- The elementary steps do not run out of room, and neither do sequences of them. -/
theorem sequential_ends (n : Nat) : Sequential (Ends n) where
  pure _ := fun s _ => Nat.le_refl s.pending.length
  bind := .bind
  throw _ hcause := fun _ _ => ParseError.Cause.ne_outOfRoom hcause
  peek := .peek
  take := .take
  skipSemicolons := .skipSemicolons
  spanFrom _ := fun s _ => Nat.le_refl s.pending.length
  absentNumber _ := fun s _ => Nat.le_refl s.pending.length

section

variable {n : Nat} {x : Nat → Parser Expr} (hx : ∀ least, Ends n (x least))
  (hconsumes : ∀ least, Consumes (x least))

include hx hconsumes

-- Each round of a loop reads an expression, after which room for one item less is enough. So the
-- rounds and the room go down together, and the round that gives up is left with no room at all.

/-- A sequence of expressions takes a token in each round. -/
theorem ends_sequence (closing : Token.Kind) {m : Nat} (hm : m ≤ n) :
    Ends m (sequence x closing m) := by
  induction m with
  | zero => exact .zero _
  | succ m ih =>
      have h := sequential_ends (m + 1)
      have hrest := ih (Nat.le_of_succ_le hm)
      unfold sequence
      refine h.bind h.skipSemicolons fun _ => h.bind h.peek fun token => ?_
      split
      · exact h.pure _
      · split
        · exact h.throw _ rfl
        · refine ((hx 0).mono hm).bind_consuming (hconsumes 0) fun first => ?_
          exact hrest.bind fun rest => (sequential_ends m).pure _

/-- Arguments take a token in each round. -/
theorem ends_arguments (closing : Symbol) {m : Nat} (hm : m ≤ n) :
    Ends m (arguments x closing m) := by
  induction m with
  | zero => exact .zero _
  | succ m ih =>
      have h := sequential_ends m
      have hrest := ih (Nat.le_of_succ_le hm)
      unfold arguments
      refine ((sequential_ends (m + 1)).accept _).bind fun closed => ?_
      split
      · exact (sequential_ends (m + 1)).pure _
      · refine ((hx 0).mono hm).bind_consuming (hconsumes 0) fun first => ?_
        refine h.bind (h.accept _) fun more => ?_
        split
        · exact h.bind hrest fun rest => h.pure _
        · exact h.bind (h.expect _) fun _ => h.pure _

/-- Expressions between commas take a token in each round. -/
theorem ends_commaSeparated {m : Nat} (hm : m ≤ n) : Ends m (commaSeparated x m) := by
  induction m with
  | zero => exact .zero _
  | succ m ih =>
      have h := sequential_ends m
      have hrest := ih (Nat.le_of_succ_le hm)
      unfold commaSeparated
      refine ((hx 0).mono hm).bind_consuming (hconsumes 0) fun first => ?_
      refine h.bind (h.accept _) fun more => ?_
      split
      · exact h.bind hrest fun rest => h.pure _
      · exact h.pure _

/-- The loops of the reader do not run out of rounds. -/
theorem loops_ends : Loops (Ends n) x n where
  sequence closing := ends_sequence hx hconsumes closing (Nat.le_refl n)
  arguments closing := ends_arguments hx hconsumes closing (Nat.le_refl n)
  commaSeparated := ends_commaSeparated hx hconsumes (Nat.le_refl n)

/-- Each round that continues an expression takes the token that does so first. -/
theorem ends_continued (least : Nat) {m : Nat} (hm : m ≤ n) (lhs : Expr) :
    Ends m (continued x n least m lhs) := by
  induction m generalizing lhs with
  | zero => exact .zero _
  | succ m ih =>
      have hpure : Ends (m + 1) (pure lhs : Parser Expr) := (sequential_ends (m + 1)).pure lhs
      have hextend (continuation : Continuation) : Ends n (extend x n lhs continuation) :=
        (sequential_ends n).extend hx (loops_ends hx hconsumes) lhs continuation
      have hrest (continuation : Continuation) :
          Ends m (extend x n lhs continuation >>= continued x n least m) :=
        ((hextend continuation).mono (Nat.le_of_succ_le hm)).bind fun lhs =>
          ih (Nat.le_of_succ_le hm) lhs
      intro s hs
      unfold continued
      refine (Ends.peek s hs).bind fun token s' hpeek => ?_
      obtain rfl : s' = s := eq_of_peek hpeek
      split
      · exact hpure s' hs
      · next continuation hcontinuation =>
          split
          · exact hpure s' hs
          · -- The end of the text continues nothing, so there is a token to take.
            have hpending : s'.pending ≠ [] := by
              intro hnil
              rw [peek_of_nil hnil] at hpeek
              cases hpeek
              cases hcontinuation
            refine (Ends.take s' hs).bind fun _ s'' htake => hrest continuation s'' ?_
            exact Nat.lt_of_lt_of_le (length_lt_of_take htake hpending) (Nat.le_of_lt_succ hs)

/-- An operand takes its first token before its parts are read, so they need room for one less. -/
theorem ends_operand : Ends (n + 1) (operand x n) := by
  intro s hs
  unfold operand
  refine (Ends.take s hs).bind fun token s' htake => ?_
  obtain ⟨-, -, hkind⟩ | hcons := of_take htake
  · unfold operandOf
    rw [hkind]
    exact (sequential_ends (s'.pending.length + 1)).throw _ rfl s' (Nat.lt_succ_self _)
  · have hlt := length_lt_of_take htake (by rw [hcons]; simp)
    exact (sequential_ends n).operandOf hx (loops_ends hx hconsumes) token s'
      (Nat.lt_of_lt_of_le hlt (Nat.le_of_lt_succ hs))

end

/-- Room for one more than the pending items is never used up. -/
theorem ends_expressionWithin (room least : Nat) : Ends room (expressionWithin room least) := by
  induction room generalizing least with
  | zero => exact .zero _
  | succ room ih =>
      have hconsumes (least : Nat) : Consumes (expressionWithin room least) :=
        (takes_expressionWithin room least).consumes
      have hoperand : Consumes (operand (expressionWithin room) room) :=
        (takes_operand (takes_expressionWithin room) room).consumes
      unfold expressionWithin
      refine (ends_operand ih hconsumes).bind_consuming hoperand fun lhs => ?_
      exact ends_continued ih hconsumes least (Nat.le_refl room) lhs

/-- An expression is read with room to spare. -/
theorem endsAt_expression (s : TokenStream) : EndsAt expression s :=
  ends_expressionWithin _ 0 s (Nat.lt_succ_self _)

/-- A program is read with room to spare. -/
theorem endsAt_program (s : TokenStream) : EndsAt program s := by
  have hloops := loops_ends (ends_expressionWithin (s.pending.length + 1))
    fun least => (takes_expressionWithin _ least).consumes
  have hbody := hloops.sequence .endOfText
  exact (sequential_ends _).map (Block.mk · ⟨0, s.size⟩) hbody s (Nat.lt_succ_self _)

/-! ## Steps -/

/-- The stream that a reader leaves, whether it succeeds or fails. -/
def remainder (p : Parser α) (s : TokenStream) : TokenStream :=
  match p s with
  | .ok _ s' => s'
  | .error _ s' => s'

/-- What a reader answers. -/
def answer (p : Parser α) (s : TokenStream) : Except ParseError α :=
  match p s with
  | .ok a _ => .ok a
  | .error e _ => .error e

/-- The stream after so many items are taken, be they tokens or lexical errors. -/
def takeMany : Nat → TokenStream → TokenStream
  | 0, s => s
  | n + 1, s => remainder take (takeMany n s)

/-- Items are taken one after the other. -/
theorem takeMany_add (m n : Nat) (s : TokenStream) :
    takeMany (m + n) s = takeMany n (takeMany m s) := by
  induction n with
  | zero => rfl
  | succ n ih => exact congrArg (remainder take) ih

/-- Taking removes the first item, if there is one. -/
theorem pending_remainder_take (s : TokenStream) :
    (remainder take s).pending = s.pending.tail := by
  unfold remainder take
  cases hpending : s.pending with
  | nil => rfl
  | cons item rest => cases item <;> rfl

/-- So many items are no longer pending. -/
theorem pending_takeMany (n : Nat) (s : TokenStream) :
    (takeMany n s).pending = s.pending.drop n := by
  induction n with
  | zero => rfl
  | succ n ih => rw [takeMany, pending_remainder_take, ih, List.tail_drop]

/-- All that the reader does to its stream is to take items from it. -/
def Stepwise (p : Parser α) : Prop := ∀ s, ∃ n, remainder p s = takeMany n s

namespace Stepwise

/-- A reader that leaves its stream as it is takes nothing. -/
theorem of_unchanged {p : Parser α} (h : ∀ s, remainder p s = s) : Stepwise p :=
  fun s => ⟨0, h s⟩

/-- What comes after a reader goes on taking where that one stopped. -/
theorem exists_remainder_bind {p : Parser α} {f : α → Parser β} {s : TokenStream} {m : Nat}
    (hp : remainder p s = takeMany m s) (hf : ∀ a, Stepwise (f a)) :
    ∃ n, remainder (p >>= f) s = takeMany (m + n) s := by
  unfold remainder at hp ⊢
  rw [run_bind]
  cases hrun : p s with
  | error e s' =>
      rw [hrun] at hp
      exact ⟨0, hp⟩
  | ok a s' =>
      rw [hrun] at hp
      obtain ⟨n, hn⟩ := hf a s'
      refine ⟨n, hn.trans ?_⟩
      rw [takeMany_add, ← hp]

/-- What two readers take is taken one after the other. -/
theorem bind {p : Parser α} {f : α → Parser β} (hp : Stepwise p) (hf : ∀ a, Stepwise (f a)) :
    Stepwise (p >>= f) := by
  intro s
  obtain ⟨m, hm⟩ := hp s
  obtain ⟨n, hn⟩ := exists_remainder_bind hm hf
  exact ⟨m + n, hn⟩

/-- Looking at a token leaves it there. -/
theorem peek : Stepwise Parser.peek := by
  refine .of_unchanged fun s => ?_
  unfold remainder Parser.peek
  cases s.pending with
  | nil => rfl
  | cons item rest => cases item <;> rfl

/-- Each semicolon that is skipped is taken. -/
theorem skipSemicolons : Stepwise Parser.skipSemicolons := by
  intro s
  refine skipSemicolons_induction (P := fun s t => ∃ n, t = takeMany n s)
    (fun s _ => ⟨0, rfl⟩) ?_ rfl
  rintro token rest size stop t _ ⟨n, rfl⟩
  refine ⟨1 + n, ?_⟩
  rw [takeMany_add]
  rfl

end Stepwise

/-- The elementary steps only take items, and so do sequences of them. -/
theorem closed_stepwise : Closed Stepwise where
  pure _ := .of_unchanged fun _ => rfl
  bind := .bind
  throw _ _ := .of_unchanged fun _ => rfl
  exhausted := .of_unchanged fun _ => rfl
  peek := .peek
  take := fun _ => ⟨1, rfl⟩
  skipSemicolons := .skipSemicolons
  spanFrom _ := .of_unchanged fun _ => rfl
  absentNumber _ := .of_unchanged fun _ => rfl

/-- Reading an expression only takes items. -/
theorem stepwise_expressionWithin (room least : Nat) : Stepwise (expressionWithin room least) :=
  closed_stepwise.expressionWithin room least

/-- Reading a sequence of expressions only takes items. -/
theorem stepwise_sequence (room : Nat) (closing : Token.Kind) (rounds : Nat) :
    Stepwise (sequence (expressionWithin room) closing rounds) :=
  closed_stepwise.sequence (stepwise_expressionWithin room) closing rounds

/-- Reading an operand only takes items. -/
theorem stepwise_operand (room rounds : Nat) :
    Stepwise (operand (expressionWithin room) rounds) := by
  have hx := stepwise_expressionWithin room
  unfold operand
  exact closed_stepwise.bind closed_stepwise.take fun token =>
    closed_stepwise.operandOf hx (closed_stepwise.loops hx rounds) token

/-- Going on with an expression only takes items. -/
theorem stepwise_extend (room rounds : Nat) (lhs : Expr) (continuation : Continuation) :
    Stepwise (extend (expressionWithin room) rounds lhs continuation) :=
  have hx := stepwise_expressionWithin room
  closed_stepwise.extend hx (closed_stepwise.loops hx rounds) lhs continuation

/-- At the end of the text there is no expression. -/
theorem answer_expression_of_nil {s : TokenStream} (h : s.pending = []) :
    answer expression s = .error ⟨.unexpectedEnd, .empty s.size⟩ := by
  unfold answer expression expressionWithin
  unfold operand
  rw [run_bind, run_bind, take_of_nil h]
  rfl

/-- An expression takes the next item at the least, even where it cannot be read. -/
theorem exists_remainder_expression (s : TokenStream) :
    ∃ n, remainder expression s = takeMany (1 + n) s := by
  have hx := stepwise_expressionWithin s.pending.length
  have hexpression : remainder expression s = remainder (take >>= fun token => do
      let lhs ← operandOf (expressionWithin s.pending.length) s.pending.length token
      continued (expressionWithin s.pending.length) s.pending.length 0 s.pending.length lhs) s := by
    rw [← bind_assoc]
    rfl
  rw [hexpression]
  refine Stepwise.exists_remainder_bind rfl fun token => closed_stepwise.bind ?_ fun lhs => ?_
  · exact closed_stepwise.operandOf hx (closed_stepwise.loops hx _) token
  · exact closed_stepwise.continued hx _ _ _ lhs

/-! ## The last token taken -/

/-- The token that is looked at is the first one pending, or the end of the source. -/
theorem peek_cases {s s' : TokenStream} {token : Token} (h : peek s = .ok token s') :
    (s.pending = [] ∧ token = .ending s.size) ∨ ∃ rest, s.pending = .ok token :: rest := by
  unfold peek at h
  split at h
  · cases h
    exact .inl ⟨‹_›, rfl⟩
  · cases h
    exact .inr ⟨_, ‹_›⟩
  · cases h

/-- The stream is what is left of the source at a place, and the last token taken ends at a
character boundary before it. -/
structure StandsAt (source : String) (cursor : Token.Cursor) (s : TokenStream) : Prop where
  within : cursor.Within source
  pending_eq : s.pending = cursor.items
  size_eq : s.size = source.utf8ByteSize
  boundary : Boundary source s.previousStop
  le_offset : s.previousStop ≤ cursor.offset

/-- Whether the token is on the line on which the last token taken ends: no newline stands in the
source between the two. There is no answer where that is not a text. -/
def sameLine? (source : String) (s : TokenStream) (token : Token) : Option Bool :=
  if s.previousStop ≤ token.span.start then
    ((Span.between s.previousStop token.span.start).text? source).map (!·.toList.contains '\n')
  else none

namespace StandsAt

variable {source : String} {cursor : Token.Cursor} {s : TokenStream}

/-- Before anything is taken, the stream stands at the start of its source. -/
theorem start (source : String) : StandsAt source (.start source) (.ofSource source) where
  within := Token.Cursor.within_start source
  pending_eq := rfl
  size_eq := rfl
  boundary := .zero source
  le_offset := Nat.le_refl 0

/-- What is taken is read at the place, and a token that is taken ends where the next one begins to
be looked for. -/
theorem run_take (h : StandsAt source cursor s) :
    match take s with
    | .ok _ s' => StandsAt source (cursor.read source).2 s' ∧
        s'.previousStop = (cursor.read source).2.offset
    | .error _ s' => StandsAt source (cursor.read source).2 s' := by
  have hpending := h.pending_eq
  rw [Token.Cursor.items_eq] at hpending
  unfold Token.Cursor.read
  cases hnext : cursor.next? with
  | none =>
      rw [hnext] at hpending
      rw [take_of_nil hpending]
      have hoffset := h.within.offset_advance_length
      have hitems : (cursor.advance cursor.rest.length).items = [] :=
        Token.Cursor.items_of_rest_eq_nil List.drop_length
      exact ⟨⟨h.within.advance _, hpending.trans hitems.symm, h.size_eq,
        h.size_eq ▸ Boundary.size source, Nat.le_of_eq (h.size_eq.trans hoffset.symm)⟩,
        h.size_eq.trans hoffset.symm⟩
  | some found =>
      obtain ⟨item, after⟩ := found
      rw [hnext] at hpending
      have hwithin := h.within.next? hnext
      cases item with
      | ok token =>
          have hstop := (Token.Cursor.span_of_next? hnext).2.1
          rw [take_of_cons hpending]
          exact ⟨⟨hwithin, rfl, h.size_eq, hstop ▸ hwithin.tiled.boundary, Nat.le_of_eq hstop⟩,
            hstop⟩
      | error error =>
          have hle : cursor.offset ≤ after.offset := by
            obtain ⟨first, rest, -, -, rfl⟩ := Token.Cursor.exists_of_next? hnext
            exact Nat.le_trans (Token.Cursor.le_offset_advance _ _)
              (Token.Cursor.le_offset_advance _ _)
          have htake : take s = .error (.ofLexError error) { s with pending := after.items } := by
            unfold take
            rw [hpending]
          rw [htake]
          exact ⟨hwithin, rfl, h.size_eq, h.boundary, Nat.le_trans h.le_offset hle⟩

/-- When an item is taken, the scanner has read one more piece. -/
theorem remainder_take (h : StandsAt source cursor s) :
    StandsAt source (cursor.read source).2 (remainder take s) := by
  have hrun := h.run_take
  unfold remainder
  cases htake : take s with
  | ok token s' =>
      rw [htake] at hrun
      exact hrun.1
  | error e s' =>
      rw [htake] at hrun
      exact hrun

/-- The next token begins after the last one taken, at a character boundary. -/
theorem of_peek (h : StandsAt source cursor s) {token : Token} (hpeek : peek s = .ok token s) :
    s.previousStop ≤ token.span.start ∧ Boundary source token.span.start := by
  obtain ⟨-, rfl⟩ | ⟨rest, hpending⟩ := peek_cases hpeek
  · show s.previousStop ≤ s.size ∧ Boundary source s.size
    rw [h.size_eq]
    exact ⟨h.boundary.le_size, .size source⟩
  · have htiled := h.within.tiled
    rw [← h.pending_eq, hpending] at htiled
    cases htiled with
    | cons hgap => exact ⟨Nat.le_trans h.le_offset hgap.1, hgap.boundary.2⟩

/-- So what stands between the two is a text. -/
theorem isSome_sameLine? (h : StandsAt source cursor s) {token : Token}
    (hpeek : peek s = .ok token s) : (sameLine? source s token).isSome = true := by
  obtain ⟨hle, hboundary⟩ := h.of_peek hpeek
  obtain ⟨text, htext⟩ := h.boundary.text?_between hboundary hle
  unfold sameLine?
  rw [if_pos hle, htext]
  rfl

/-- Where the last item taken was a token, the scanner has seen all that stands between it and the
next token. -/
theorem sameLine?_eq (h : StandsAt source cursor s) (hstop : s.previousStop = cursor.offset)
    {token : Token} {rest : List (Except LexError Token)} (hs : s.pending = .ok token :: rest) :
    sameLine? source s token = some !token.startsLine := by
  obtain ⟨hle, -⟩ := h.of_peek (peek_of_cons hs)
  rw [h.pending_eq] at hs
  obtain ⟨after, hnext, -⟩ := Token.Cursor.next?_of_items_eq_cons hs
  obtain ⟨hstart, -, hline⟩ := Token.Cursor.span_of_next? hnext
  unfold sameLine?
  rw [if_pos hle, hstop, hstart, h.within.text?, hline]
  simp

end StandsAt

/-- However many items are taken, the stream is what is left after as many reads of the source. -/
theorem standsAt_takeMany (source : String) (n : Nat) :
    StandsAt source (Token.placeAfter source n) (takeMany n (.ofSource source)) := by
  induction n with
  | zero => exact .start source
  | succ n ih => exact ih.remainder_take

/-! ## Reading on -/

/-- The stream of the source after so many expressions were asked for. Whoever asks goes on where
the one before stopped, errors or not. -/
def streamAfter (source : String) : Nat → TokenStream
  | 0 => .ofSource source
  | calls + 1 => remainder expression (streamAfter source calls)

/-- What the next one who asks for an expression is answered. -/
def answerAfter (source : String) (calls : Nat) : Except ParseError Expr :=
  answer expression (streamAfter source calls)

/-- Each call takes an item at least. -/
theorem exists_streamAfter (source : String) (calls : Nat) :
    ∃ n, streamAfter source calls = takeMany (calls + n) (.ofSource source) := by
  induction calls with
  | zero => exact ⟨0, rfl⟩
  | succ calls ih =>
      obtain ⟨m, hm⟩ := ih
      obtain ⟨n, hn⟩ := exists_remainder_expression (streamAfter source calls)
      refine ⟨m + n, hn.trans ?_⟩
      rw [hm, ← takeMany_add]
      congr 1
      omega

/-- A reader that ends does not answer that it ran out of room. -/
theorem answer_ne_outOfRoom {p : Parser α} {s : TokenStream} (h : EndsAt p s) {error : ParseError}
    (hanswer : answer p s = .error error) : error.cause ≠ .outOfRoom := by
  unfold EndsAt at h
  unfold answer at hanswer
  cases hrun : p s with
  | ok a s' =>
      rw [hrun] at hanswer
      cases hanswer
  | error e s' =>
      rw [hrun] at h hanswer
      cases hanswer
      exact h

/-- What a source is parsed to is what the reader of programs answers. -/
theorem parse_eq_answer (source : String) :
    Block.parse source = answer program (.ofSource source) := by
  unfold Block.parse answer
  cases program (.ofSource source) <;> rfl

/-- Where nothing is left to take, there is no expression. -/
theorem answerAfter_of_nil {source : String} {calls : Nat}
    (h : (streamAfter source calls).pending = []) :
    answerAfter source calls = .error ⟨.unexpectedEnd, .empty source.utf8ByteSize⟩ := by
  obtain ⟨n, hn⟩ := exists_streamAfter source calls
  have hsize : (streamAfter source calls).size = source.utf8ByteSize :=
    hn ▸ (standsAt_takeMany source _).size_eq
  rw [← hsize]
  exact answer_expression_of_nil h

/-- Reading always ends and always goes forward. No source text, and no expression of it that is
asked for, whatever was asked for before, is answered with a want of room: all nested readers and
loops come to their ends. Each time an expression is asked for, items are taken from the stream, or
the answer is that the text has ended. So from as many times as the text has tokens and lexical
errors on, that is the answer for ever. All that an operand, what continues an expression, an
expression as a whole and a sequence of them do to the stream is to take items from it. However many
items were taken, the last token taken ends before the next one begins, both at character
boundaries, so that it can be told whether they are on the same line. Right after a token was taken,
the next one has the answer recorded. -/
theorem reading_progresses (source : String) :
    (∀ error, Block.parse source = .error error → error.cause ≠ .outOfRoom) ∧
    (∀ calls,
      (∀ error, answerAfter source calls = .error error → error.cause ≠ .outOfRoom) ∧
      ((∃ taken, taken ≠ [] ∧
          (streamAfter source calls).pending = taken ++ (streamAfter source (calls + 1)).pending) ∨
        answerAfter source calls = .error ⟨.unexpectedEnd, .empty source.utf8ByteSize⟩) ∧
      ((Token.scan source).length ≤ calls →
        answerAfter source calls = .error ⟨.unexpectedEnd, .empty source.utf8ByteSize⟩)) ∧
    (∀ room rounds, Stepwise (operand (expressionWithin room) rounds)) ∧
    (∀ room rounds lhs continuation,
      Stepwise (extend (expressionWithin room) rounds lhs continuation)) ∧
    (∀ room least, Stepwise (expressionWithin room least)) ∧
    (∀ room closing rounds, Stepwise (sequence (expressionWithin room) closing rounds)) ∧
    ∀ n s, s = takeMany n (.ofSource source) →
      (∀ token, peek s = .ok token s → s.previousStop ≤ token.span.start ∧
        Boundary source s.previousStop ∧ Boundary source token.span.start ∧
        (sameLine? source s token).isSome = true) ∧
      ∀ token s' next, take s = .ok token s' → peek s' = .ok next s' → next.kind ≠ .endOfText →
        sameLine? source s' next = some !next.startsLine := by
  refine ⟨fun error herror => ?_, fun calls => ⟨fun error herror => ?_, ?_, fun hcalls => ?_⟩,
    stepwise_operand, stepwise_extend, stepwise_expressionWithin, stepwise_sequence, ?_⟩
  · rw [parse_eq_answer] at herror
    exact answer_ne_outOfRoom (endsAt_program _) herror
  · exact answer_ne_outOfRoom (endsAt_expression _) herror
  · by_cases hnil : (streamAfter source calls).pending = []
    · exact .inr (answerAfter_of_nil hnil)
    · obtain ⟨n, hn⟩ := exists_remainder_expression (streamAfter source calls)
      refine .inl ⟨(streamAfter source calls).pending.take (1 + n), ?_, ?_⟩
      · simp [hnil]
      · rw [streamAfter, hn, pending_takeMany, List.take_append_drop]
  · obtain ⟨n, hn⟩ := exists_streamAfter source calls
    apply answerAfter_of_nil
    rw [hn, pending_takeMany]
    exact List.drop_eq_nil_of_le (Nat.le_trans hcalls (Nat.le_add_right calls n))
  · rintro n s rfl
    have hstands := standsAt_takeMany source n
    refine ⟨fun token hpeek => ?_, fun token s' next htake hpeek hkind => ?_⟩
    · obtain ⟨hle, hboundary⟩ := hstands.of_peek hpeek
      exact ⟨hle, hstands.boundary, hboundary, hstands.isSome_sameLine? hpeek⟩
    · have hafter := hstands.run_take
      rw [htake] at hafter
      obtain ⟨-, rfl⟩ | ⟨rest, hpending⟩ := peek_cases hpeek
      · exact absurd rfl hkind
      · exact hafter.1.sameLine?_eq hafter.2 hpending

/-- A text of three items, the first of which is a lexical error. The first time that an expression
is asked for, the error is taken, and the minus after it is at a place where a token can be on the
line of the one before. -/
theorem reading_progresses_hash :
    (∃ error, Block.parse "# -b" = .error error ∧ error.cause ≠ .outOfRoom) ∧
    (∃ error, answerAfter "# -b" 0 = .error error ∧ error.cause ≠ .outOfRoom) ∧
    (∀ calls, 3 ≤ calls → answerAfter "# -b" calls = .error ⟨.unexpectedEnd, .empty 4⟩) ∧
    (sameLine? "# -b" (takeMany 1 (.ofSource "# -b"))
      ⟨.symbol .minus, ⟨2, 1⟩, "-", false⟩).isSome = true ∧
    sameLine? "# -b" (takeMany 2 (.ofSource "# -b")) ⟨.identifier, ⟨3, 1⟩, "b", false⟩ =
      some true := by
  have hscan : Token.scan "# -b" = [.error ⟨.unrecognized '#', ⟨0, 1⟩⟩,
      .ok ⟨.symbol .minus, ⟨2, 1⟩, "-", false⟩, .ok ⟨.identifier, ⟨3, 1⟩, "b", false⟩] := by
    with_unfolding_all rfl
  have hsource : TokenStream.ofSource "# -b" = ⟨[.error ⟨.unrecognized '#', ⟨0, 1⟩⟩,
      .ok ⟨.symbol .minus, ⟨2, 1⟩, "-", false⟩, .ok ⟨.identifier, ⟨3, 1⟩, "b", false⟩], 4, 0⟩ := by
    rw [TokenStream.ofSource, hscan]
    rfl
  have hparse : Block.parse "# -b" = .error (.ofLexError ⟨.unrecognized '#', ⟨0, 1⟩⟩) := by
    rw [parse_eq_answer, hsource]
    rfl
  have hanswer : answerAfter "# -b" 0 = .error (.ofLexError ⟨.unrecognized '#', ⟨0, 1⟩⟩) := by
    rw [answerAfter, streamAfter, hsource]
    rfl
  obtain ⟨hread, hcalls, -, -, -, -, hlines⟩ := reading_progresses "# -b"
  obtain ⟨hbefore, hafter⟩ := hlines 1 _ rfl
  refine ⟨⟨_, hparse, hread _ hparse⟩, ⟨_, hanswer, (hcalls 0).1 _ hanswer⟩, fun calls hle => ?_,
    (hbefore _ ?_).2.2.2, hafter ⟨.symbol .minus, ⟨2, 1⟩, "-", false⟩ _ _ ?_ ?_ (by simp)⟩
  · exact (hcalls calls).2.2 (by rw [hscan]; exact hle)
  · rw [hsource]
    rfl
  · rw [hsource]
    rfl
  · rw [hsource]
    rfl

end ListScript.Parser
