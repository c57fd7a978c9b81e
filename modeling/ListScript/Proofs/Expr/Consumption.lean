import ListScript.Proofs.Expr.Lockstep

/-!
# What reading takes

A reader that succeeds has taken tokens from the front of its stream, and no lexical error. An
expression takes at least one token, and its last token is no semicolon
(`Parser.takes_expressionWithin`): semicolons stand between expressions and inside of them, never at
the end of one.
-/

namespace ListScript

/-- There are tokens, and the last one is no semicolon. -/
def Finished (tokens : List Token) : Prop :=
  ∃ init last, tokens = init ++ [last] ∧ last.kind ≠ .symbol .semicolon

/-- If there are tokens, the last one is no semicolon. -/
def Tidy (tokens : List Token) : Prop := tokens = [] ∨ Finished tokens

/-- Tokens that end without a semicolon are at least one. -/
theorem Finished.exists_cons {tokens : List Token} (h : Finished tokens) :
    ∃ token rest, tokens = token :: rest := by
  obtain ⟨init, last, rfl, -⟩ := h
  cases init <;> exact ⟨_, _, rfl⟩

/-- Only the last of several tokens counts. -/
theorem Finished.prepend {tokens : List Token} (h : Finished tokens) (before : List Token) :
    Finished (before ++ tokens) := by
  obtain ⟨init, last, rfl, hlast⟩ := h
  exact ⟨before ++ init, last, by rw [List.append_assoc], hlast⟩

/-- What is finished stays so with something tidy after it. -/
theorem Finished.append {tokens after : List Token} (h : Finished tokens) (hafter : Tidy after) :
    Finished (tokens ++ after) := by
  obtain rfl | hafter := hafter
  · rwa [List.append_nil]
  · exact hafter.prepend tokens

/-- The end of what is finished is finished, unless it is empty. -/
theorem Finished.of_append {before tokens : List Token} (h : Finished (before ++ tokens))
    (hne : tokens ≠ []) : Finished tokens := by
  obtain ⟨init, last, heq, hlast⟩ := h
  obtain ⟨init', -, rfl⟩ | ⟨after, -, hafter⟩ := List.append_eq_append_iff.1 heq
  · exact ⟨init', last, rfl, hlast⟩
  · cases after with
    | nil => exact ⟨[], last, hafter.symm, hlast⟩
    | cons token after => simp_all

/-- What is tidy stays so with something tidy after it. -/
theorem Tidy.append {tokens after : List Token} (h : Tidy tokens) (hafter : Tidy after) :
    Tidy (tokens ++ after) := by
  obtain rfl | h := h
  · exact hafter
  · exact .inr (h.append hafter)

/-- One token that is no semicolon is finished. -/
theorem finished_singleton {token : Token} (h : token.kind ≠ .symbol .semicolon) :
    Finished [token] :=
  ⟨[], token, rfl, h⟩

namespace Parser

variable {α β : Type} {P Q : List Token → Prop}

/-- What the reader takes when it succeeds are tokens, and the predicate holds of them. -/
def Takes (P : List Token → Prop) (p : Parser α) : Prop :=
  ∀ ⦃s a s'⦄, p s = .ok a s' → ∃ taken, s.pending = taken.map .ok ++ s'.pending ∧ P taken

namespace Takes

/-- What a reader takes has all that follows from its property. -/
theorem mono {p : Parser α} (h : Takes P p) (hpq : ∀ tokens, P tokens → Q tokens) : Takes Q p := by
  intro s a s' hrun
  obtain ⟨taken, hpending, htaken⟩ := h hrun
  exact ⟨taken, hpending, hpq taken htaken⟩

/-- A sequence takes what its parts take, one after the other. -/
theorem bind {R : List Token → Prop} {p : Parser α} {f : α → Parser β} (hp : Takes P p)
    (hf : ∀ a, Takes Q (f a)) (h : ∀ tokens after, P tokens → Q after → R (tokens ++ after)) :
    Takes R (p >>= f) := by
  intro s b s'' hrun
  obtain ⟨a, s', hps, hrun⟩ := exists_of_bind hrun
  obtain ⟨taken, hpending, htaken⟩ := hp hps
  obtain ⟨taken', hpending', htaken'⟩ := hf a hrun
  refine ⟨taken ++ taken', ?_, h _ _ htaken htaken'⟩
  rw [hpending, hpending', List.map_append, List.append_assoc]

/-- Parts that take no semicolon at their end make a whole that does not. -/
theorem bind_tidy {p : Parser α} {f : α → Parser β} (hp : Takes Tidy p)
    (hf : ∀ a, Takes Tidy (f a)) : Takes Tidy (p >>= f) :=
  hp.bind hf fun _ _ h h' => h.append h'

/-- If nothing is asked of the tokens, sequences take tokens if their parts do. -/
theorem bind_any {p : Parser α} {f : α → Parser β} (hp : Takes P p)
    (hf : ∀ a, Takes (fun _ => True) (f a)) : Takes (fun _ => True) (p >>= f) :=
  hp.bind hf fun _ _ _ _ => trivial

/-- The last part decides how the whole ends, if it takes something. -/
theorem bind_finished {p : Parser α} {f : α → Parser β} (hp : Takes P p)
    (hf : ∀ a, Takes Finished (f a)) : Takes Finished (p >>= f) :=
  hp.bind hf fun tokens _ _ h => h.prepend tokens

/-- What is finished is tidy. -/
theorem tidy {p : Parser α} (h : Takes Finished p) : Takes Tidy p := h.mono fun _ => .inr

/-- Whatever a reader takes, it takes tokens. -/
theorem any {p : Parser α} (h : Takes P p) : Takes (fun _ => True) p := h.mono fun _ _ => trivial

/-- A reader that leaves the stream as it is. -/
theorem of_unchanged {p : Parser α} (h : ∀ ⦃s a s'⦄, p s = .ok a s' → s'.pending = s.pending) :
    Takes Tidy p := by
  intro s a s' hrun
  refine ⟨[], ?_, .inl rfl⟩
  rw [h hrun]
  rfl

/-- A reader that takes nothing. -/
theorem pure (a : α) : Takes Tidy (Pure.pure a : Parser α) :=
  of_unchanged fun _ _ _ h => by cases h; rfl

/-- A reader that fails takes nothing. -/
theorem throw (e : ParseError) : Takes P (MonadExcept.throw e : Parser α) := fun _ _ _ h => nomatch h

/-- Making something of what is read takes nothing more. -/
theorem map {f : α → β} {p : Parser α} (h : Takes Finished p) : Takes Finished (f <$> p) := by
  rw [map_eq_pure_bind]
  exact h.bind (fun a => pure (f a)) fun _ _ h h' => h.append h'

/-- A reader that gives up takes nothing. -/
theorem exhausted : Takes P (Parser.exhausted : Parser α) := fun _ _ _ h => nomatch h

end Takes

/-- At the end of the stream, a token that marks the end is seen. -/
theorem peek_of_nil {s : TokenStream} (h : s.pending = []) : peek s = .ok (.ending s.size) s := by
  unfold peek
  rw [h]

/-- Otherwise the next token is seen. -/
theorem peek_of_cons {s : TokenStream} {token : Token} {rest : List (Except LexError Token)}
    (h : s.pending = .ok token :: rest) : peek s = .ok token s := by
  unfold peek
  rw [h]

/-- At the end of the stream, a token that marks the end is taken. -/
theorem take_of_nil {s : TokenStream} (h : s.pending = []) :
    take s = .ok (.ending s.size) { s with previousStop := s.size } := by
  unfold take
  rw [h]

/-- Otherwise the next token is taken. -/
theorem take_of_cons {s : TokenStream} {token : Token} {rest : List (Except LexError Token)}
    (h : s.pending = .ok token :: rest) :
    take s = .ok token { s with pending := rest, previousStop := token.span.stop } := by
  unfold take
  rw [h]

/-- Making a span takes nothing. -/
theorem takes_spanFrom (start : Nat) : Takes Tidy (spanFrom start) :=
  .of_unchanged fun _ _ _ h => by cases h; rfl

/-- A number that is left out takes nothing. -/
theorem takes_absentNumber (value : Int) : Takes Tidy (absentNumber value) :=
  .of_unchanged fun _ _ _ h => by cases h; rfl

/-- Looking at the next token takes nothing. -/
theorem takes_peek : Takes Tidy peek := by
  refine .of_unchanged fun s a s' h => ?_
  unfold peek at h
  split at h <;> cases h <;> rfl

/-- One token is taken, except at the end. -/
theorem of_take {s s' : TokenStream} {token : Token} (h : take s = .ok token s') :
    (s.pending = [] ∧ s'.pending = [] ∧ token.kind = .endOfText) ∨
      s.pending = .ok token :: s'.pending := by
  unfold take at h
  split at h
  · cases h
    exact .inl ⟨‹_›, ‹_›, rfl⟩
  · cases h
    exact .inr ‹_›
  · cases h

/-- A reader that begins with taking a token, which is not the end of the text. -/
theorem Takes.take_bind {f : Token → Parser α}
    (hf : ∀ token, Takes Tidy (f token))
    (hrefused : ∀ token s a s', token.kind = .endOfText ∨ token.kind = .symbol .semicolon →
      f token s ≠ .ok a s') :
    Takes Finished (Parser.take >>= f) := by
  intro s a s'' hrun
  obtain ⟨token, s', htake, hrun⟩ := exists_of_bind hrun
  obtain ⟨-, -, hend⟩ | hpending := of_take htake
  · exact (hrefused token s' a s'' (.inl hend) hrun).elim
  · obtain ⟨taken, hpending', htaken⟩ := hf token hrun
    refine ⟨token :: taken, ?_, ?_⟩
    · rw [hpending, hpending']
      rfl
    · refine (finished_singleton fun hkind => ?_).append htaken
      exact hrefused token s' a s'' (.inr hkind) hrun

/-- Taking a token of a given kind takes that token, unless it is a semicolon or marks the end. -/
theorem takes_expect {kind : Token.Kind} (hend : kind ≠ .endOfText)
    (hsemicolon : kind ≠ .symbol .semicolon) : Takes Finished (expect kind) := by
  refine .take_bind (fun token => ?_) fun token s a s' hkind h => ?_
  · split
    · exact .pure _
    · split <;> exact .throw _
  · have hne : token.kind ≠ kind := by
      rintro rfl
      exact hkind.elim hend hsemicolon
    rw [if_neg hne] at h
    split at h <;> cases h

/-- Taking a token takes at most one. -/
theorem takes_take : Takes (fun _ => True) take := by
  intro s token s' h
  obtain ⟨hs, hs', -⟩ | hpending := of_take h
  · exact ⟨[], by rw [hs, hs']; rfl, trivial⟩
  · exact ⟨[token], hpending, trivial⟩

/-- Taking a token of any given kind takes at most one. -/
theorem takes_expect_any (kind : Token.Kind) : Takes (fun _ => True) (expect kind) := by
  refine takes_take.bind_any fun token => ?_
  split
  · exact (Takes.pure _).any
  · split <;> exact .throw _

/-- A token at the head of the stream is taken with what comes after it. -/
theorem finished_of_take_bind {f : Token → Parser α} {s s' : TokenStream} {token : Token}
    {rest : List (Except LexError Token)} {a : α} (hs : s.pending = .ok token :: rest)
    (hkind : token.kind ≠ .symbol .semicolon) (h : (take >>= f) s = .ok a s')
    (hf : Takes Tidy (f token)) :
    ∃ taken, s.pending = taken.map .ok ++ s'.pending ∧ Finished taken := by
  rw [run_bind, take_of_cons hs] at h
  obtain ⟨taken, hpending, htaken⟩ := hf h
  refine ⟨token :: taken, ?_, (finished_singleton hkind).append htaken⟩
  rw [hs]
  exact congrArg (.ok token :: ·) hpending

/-- A reader that looks at a token first: at the end of the text, or with the token at the head of
the stream. -/
theorem Takes.peek_bind {f : Token → Parser α}
    (hend : ∀ token, token.kind = .endOfText → Takes P (f token))
    (hf : ∀ token s rest, s.pending = .ok token :: rest → ∀ a s', f token s = .ok a s' →
      ∃ taken, s.pending = taken.map .ok ++ s'.pending ∧ P taken) :
    Takes P (peek >>= f) := by
  intro s a s' h
  obtain ⟨token, t, hpeek, h⟩ := exists_of_bind h
  unfold peek at hpeek
  split at hpeek
  · cases hpeek
    exact hend _ rfl h
  · cases hpeek
    exact hf token s _ ‹_› a s' h
  · cases hpeek

/-- Accepting a token takes it or nothing, and it is no semicolon. -/
theorem takes_accept {kind : Token.Kind} (hend : kind ≠ .endOfText)
    (hsemicolon : kind ≠ .symbol .semicolon) : Takes Tidy (accept kind) := by
  refine .peek_bind (fun token htoken => ?_) fun token s rest hs a s' h => ?_
  · rw [if_neg fun hkind => hend (hkind.symm.trans htoken)]
    exact .pure _
  · split at h
    · rename_i hkind
      obtain ⟨taken, hpending, htaken⟩ :=
        finished_of_take_bind hs (hkind ▸ hsemicolon) h (.pure _)
      exact ⟨taken, hpending, .inr htaken⟩
    · exact Takes.pure _ h

/-- A node with an optional last part, and a default where the part is absent. -/
def withOptional (kind : Token.Kind) (p d : Parser α) (start : Nat) (node : α → Span → β) :
    Parser β := do
  if ← accept kind then return node (← p) (← spanFrom start)
  else return node (← d) (← spanFrom start)

/-- An optional part takes its mark and what comes after it, or nothing. -/
theorem takes_withOptional {p d : Parser α} {kind : Token.Kind} {start : Nat} {node : α → Span → β}
    (hend : kind ≠ .endOfText) (hsemicolon : kind ≠ .symbol .semicolon)
    (hp : Takes Finished p) (hd : Takes Tidy d) :
    Takes Tidy (withOptional kind p d start node) := by
  refine .bind_tidy (takes_accept hend hsemicolon) fun accepted => ?_
  split
  · exact .bind_tidy (.tidy hp) fun a => .bind_tidy (takes_spanFrom _) fun _ => .pure _
  · exact .bind_tidy hd fun a => .bind_tidy (takes_spanFrom _) fun _ => .pure _

/-- How many loops a signal leaves takes a number or nothing. -/
theorem takes_carry : Takes Tidy carry := by
  refine .peek_bind (fun token htoken => ?_) fun token s rest hs a s' h => ?_
  · rw [htoken]
    exact .pure _
  · split at h
    · rename_i hcount
      rw [Bool.and_eq_true, decide_eq_true_eq] at hcount
      obtain ⟨taken, hpending, htaken⟩ := finished_of_take_bind hs (by rw [hcount.1]; nofun) h (by
        dsimp only
        split
        · exact .pure _
        · exact .throw _)
      exact ⟨taken, hpending, .inr htaken⟩
    · exact Takes.pure _ h

/-- The stream goes on with something else than a semicolon, or is at its end. -/
def BeforeOther (s : TokenStream) : Prop :=
  ∀ token rest, s.pending = .ok token :: rest → token.kind ≠ .symbol .semicolon

/-- A semicolon is skipped together with those after it. -/
theorem skipSemicolons_of_semicolon {token : Token} (h : token.kind = .symbol .semicolon)
    (rest : List (Except LexError Token)) (size stop : Nat) :
    skipSemicolons ⟨.ok token :: rest, size, stop⟩ =
      skipSemicolons ⟨rest, size, token.span.stop⟩ := by
  unfold skipSemicolons
  dsimp only
  rw [dropSemicolons, if_pos h]

/-- Nothing is skipped but semicolons. -/
theorem skipSemicolons_of_beforeOther {s : TokenStream} (h : BeforeOther s) :
    skipSemicolons s = .ok () s := by
  obtain ⟨items, size, stop⟩ := s
  unfold skipSemicolons
  dsimp only
  cases items with
  | nil => rfl
  | cons item rest =>
      cases item with
      | error error => rfl
      | ok token => rw [dropSemicolons, if_neg (h token rest rfl)]

/-- What holds of a stream before something else and itself, and passes from what comes after a
semicolon to the semicolon, holds of a stream and what skipping semicolons leaves of it. -/
theorem skipSemicolons_induction {P : TokenStream → TokenStream → Prop}
    (hother : ∀ s, BeforeOther s → P s s)
    (hsemicolon : ∀ (token : Token) (rest : List (Except LexError Token)) (size stop : Nat)
      (t : TokenStream), token.kind = .symbol .semicolon → P ⟨rest, size, token.span.stop⟩ t →
        P ⟨.ok token :: rest, size, stop⟩ t)
    {s t : TokenStream} (h : skipSemicolons s = .ok () t) : P s t := by
  obtain ⟨items, size, stop⟩ := s
  induction items generalizing stop with
  | nil =>
      have hend : BeforeOther ⟨[], size, stop⟩ := nofun
      rw [skipSemicolons_of_beforeOther hend] at h
      cases h
      exact hother _ hend
  | cons item rest ih =>
      by_cases hkind : ∃ token, item = .ok token ∧ token.kind = .symbol .semicolon
      · obtain ⟨token, rfl, hkind⟩ := hkind
        rw [skipSemicolons_of_semicolon hkind] at h
        exact hsemicolon token rest size stop t hkind (ih _ h)
      · have hbefore : BeforeOther ⟨item :: rest, size, stop⟩ := by
          rintro token more heq htoken
          exact hkind ⟨token, (List.cons.inj heq).1, htoken⟩
        rw [skipSemicolons_of_beforeOther hbefore] at h
        cases h
        exact hother _ hbefore

/-- Skipping semicolons takes nothing else. -/
theorem takes_skipSemicolons :
    Takes (fun tokens => ∀ token ∈ tokens, token.kind = .symbol .semicolon) skipSemicolons := by
  intro s _ t h
  refine skipSemicolons_induction (P := fun s t => ∃ taken : List Token,
    s.pending = taken.map .ok ++ t.pending ∧ ∀ token ∈ taken, token.kind = .symbol .semicolon)
    (fun s _ => ⟨[], rfl, nofun⟩) ?_ h
  rintro token rest size stop t hkind ⟨taken, htaken, hall⟩
  exact ⟨token :: taken, congrArg (.ok token :: ·) htaken, List.forall_mem_cons.2 ⟨hkind, hall⟩⟩

/-! ## Productions -/

section

variable {x : Nat → Parser Expr} (hx : ∀ least, Takes Finished (x least))

include hx

/-- A sequence takes tokens, which may end with semicolons. -/
theorem takes_sequence (closing : Token.Kind) (rounds : Nat) :
    Takes (fun _ => True) (sequence x closing rounds) := by
  induction rounds with
  | zero => exact .exhausted
  | succ rounds ih =>
      unfold sequence
      refine takes_skipSemicolons.bind_any fun _ => ?_
      refine takes_peek.bind_any fun token => ?_
      split
      · exact (Takes.pure _).any
      · split
        · exact .throw _
        · refine (hx 0).bind_any fun first => ?_
          exact ih.bind_any fun rest => (Takes.pure _).any

/-- Arguments end with the closing symbol. -/
theorem takes_arguments {closing : Symbol} (hclosing : closing ≠ .semicolon) (rounds : Nat) :
    Takes Tidy (arguments x closing rounds) := by
  have hend : Token.Kind.symbol closing ≠ .endOfText := by simp
  have hkind : Token.Kind.symbol closing ≠ .symbol .semicolon := by simpa using hclosing
  induction rounds with
  | zero => exact .exhausted
  | succ rounds ih =>
      unfold arguments
      refine .bind_tidy (takes_accept hend hkind) fun closed => ?_
      split
      · exact .pure _
      · refine .bind_tidy (.tidy (hx 0)) fun first => ?_
        refine .bind_tidy (takes_accept (by decide) (by decide)) fun more => ?_
        split
        · exact .bind_tidy ih fun rest => .pure _
        · exact .bind_tidy (.tidy (takes_expect hend hkind)) fun _ => .pure _

/-- Expressions between commas end with an expression, if there is one. -/
theorem takes_commaSeparated (rounds : Nat) : Takes Tidy (commaSeparated x rounds) := by
  induction rounds with
  | zero => exact .exhausted
  | succ rounds ih =>
      unfold commaSeparated
      refine .bind_tidy (.tidy (hx 0)) fun first => ?_
      refine .bind_tidy (takes_accept (by decide) (by decide)) fun more => ?_
      split
      · exact .bind_tidy ih fun rest => .pure _
      · exact .pure _

/-- The right side of an assignment ends with an expression. -/
theorem takes_assignment (operator : AssignOp) (target : Expr) :
    Takes Tidy (assignment x operator target) := by
  unfold assignment
  refine .bind_tidy (.tidy (hx _)) fun value => ?_
  exact takes_withOptional (by decide) (by decide) (hx _) (takes_absentNumber _)

/-- What continues an expression ends without a semicolon. -/
theorem takes_extend (rounds : Nat) (lhs : Expr) (continuation : Continuation) :
    Takes Tidy (extend x rounds lhs continuation) := by
  cases continuation with
  | call =>
      refine .bind_tidy (takes_arguments hx (by decide) _) fun items => ?_
      exact .bind_tidy (takes_spanFrom _) fun _ => .pure _
  | index =>
      refine .bind_tidy (.tidy (hx _)) fun position => ?_
      refine .bind_tidy (.tidy (takes_expect (by decide) (by decide))) fun _ => ?_
      exact .bind_tidy (takes_spanFrom _) fun _ => .pure _
  | method =>
      refine .bind_tidy (.tidy (takes_expect (by decide) (by decide))) fun name => ?_
      refine .bind_tidy (.tidy (takes_expect (by decide) (by decide))) fun _ => ?_
      refine .bind_tidy (takes_arguments hx (by decide) _) fun items => ?_
      exact .bind_tidy (takes_spanFrom _) fun _ => .pure _
  | update step => exact .bind_tidy (takes_spanFrom _) fun _ => .pure _
  | binary operator | push | shift =>
      refine .bind_tidy (.tidy (hx _)) fun rhs => ?_
      exact .bind_tidy (takes_spanFrom _) fun _ => .pure _
  | assign operator => exact takes_assignment hx operator lhs
  | range inclusive =>
      refine .bind_tidy (.tidy (hx _)) fun last => ?_
      exact takes_withOptional (by decide) (by decide) (hx _) (takes_absentNumber _)

/-- However often an expression is continued, it ends without a semicolon. -/
theorem takes_continued (room least rounds : Nat) (lhs : Expr) :
    Takes Tidy (continued x room least rounds lhs) := by
  induction rounds generalizing lhs with
  | zero => exact .exhausted
  | succ rounds ih =>
      unfold continued
      refine .peek_bind (fun token htoken => ?_) fun token s rest hs a s' h => ?_
      · unfold Continuation.ofToken?
        rw [htoken]
        exact .pure _
      · cases hcontinuation : Continuation.ofToken? token with
        | none =>
          rw [hcontinuation] at h
          exact Takes.pure _ h
        | some continuation =>
          rw [hcontinuation] at h
          dsimp only at h
          split at h
          · exact Takes.pure _ h
          · have hkind : token.kind ≠ .symbol .semicolon := by
              intro hkind
              unfold Continuation.ofToken? at hcontinuation
              rw [hkind] at hcontinuation
              cases hcontinuation
            have hrest := (takes_extend hx room lhs continuation).bind_tidy ih
            obtain ⟨taken, hpending, htaken⟩ := finished_of_take_bind hs hkind h hrest
            exact ⟨taken, hpending, .inr htaken⟩

/-- The body of a function ends with an expression. -/
theorem takes_functionBody (start : Nat) (parameters : List String) :
    Takes Tidy (functionBody x start parameters) := by
  rw [functionBody_eq]
  refine .bind_tidy (.tidy (hx 0)) fun body => ?_
  exact .bind_tidy (takes_spanFrom _) fun _ => .pure _

omit hx in
/-- Making a parameter of an expression takes nothing. -/
theorem takes_parameter (e : Expr) : Takes Tidy (parameter e) := by
  unfold parameter
  split
  · exact .pure _
  · exact .throw _

omit hx in
/-- Making parameters of expressions takes nothing. -/
theorem takes_parameters (es : List Expr) : Takes Tidy (es.mapM parameter) := by
  induction es with
  | nil => exact .pure _
  | cons e es ih =>
      rw [List.mapM_cons]
      refine .bind_tidy (takes_parameter e) fun name => ?_
      exact .bind_tidy ih fun names => .pure _

/-- A group ends with its parenthesis, a function with its body. -/
theorem takes_groupOrFunction (rounds start : Nat) :
    Takes Tidy (groupOrFunction x rounds start) := by
  unfold groupOrFunction
  refine .bind_tidy (takes_accept (by decide) (by decide)) fun closed => ?_
  split
  · refine .bind_tidy (.tidy (takes_expect (by decide) (by decide))) fun _ => ?_
    exact takes_functionBody hx start []
  · refine .bind_tidy (.tidy (hx 0)) fun first => ?_
    refine .bind_tidy (takes_accept (by decide) (by decide)) fun more => ?_
    split
    · refine .bind_tidy (takes_commaSeparated hx _) fun rest => ?_
      refine .bind_tidy (.tidy (takes_expect (by decide) (by decide))) fun _ => ?_
      refine .bind_tidy (.tidy (takes_expect (by decide) (by decide))) fun _ => ?_
      refine .bind_tidy (takes_parameters _) fun parameters => ?_
      exact takes_functionBody hx start parameters
    · refine .bind_tidy (.tidy (takes_expect (by decide) (by decide))) fun _ => ?_
      refine .bind_tidy (takes_accept (by decide) (by decide)) fun arrow => ?_
      split
      · refine .bind_tidy (takes_parameter first) fun name => ?_
        exact takes_functionBody hx start [name]
      · exact .bind_tidy (takes_spanFrom _) fun _ => .pure _

/-- A semicolon in the head of a loop is followed by the rest of the loop. -/
theorem takes_loop (start : Nat) : Takes Tidy (loop x start) := by
  unfold loop
  refine .bind_tidy (takes_accept (by decide) (by decide)) fun opened => ?_
  split
  · refine .tidy (.bind_finished (hx 0) fun initial => ?_)
    refine .bind_finished (takes_expect_any _) fun _ => ?_
    refine .bind_finished (hx 0) fun condition => ?_
    refine .bind_finished (takes_expect_any _) fun _ => ?_
    refine .bind (hx 0) (fun step => ?_) fun _ _ h h' => h.append h'
    refine .bind_tidy (.tidy (takes_expect (by decide) (by decide))) fun _ => ?_
    refine .bind_tidy (.tidy (hx 0)) fun body => ?_
    exact .bind_tidy (takes_spanFrom _) fun _ => .pure _
  · refine .bind_tidy (.tidy (takes_expect (by decide) (by decide))) fun name => ?_
    have hrest : ∀ walk, Takes Finished (do
        let enumerable ← x 0
        let body ← x 0
        return Expr.forEach (← spanFrom start) walk name.lexeme enumerable body) := by
      intro walk
      refine .bind (hx 0) (fun enumerable => ?_) fun _ _ h h' => h.append h'
      refine .bind_tidy (.tidy (hx 0)) fun body => ?_
      exact .bind_tidy (takes_spanFrom _) fun _ => .pure _
    refine .tidy (.bind_finished takes_take fun keyword => ?_)
    split
    · exact hrest _
    · exact hrest _
    · exact .bind_finished (P := Tidy) (.throw _) hrest

/-- The operand of a sign ends without a semicolon. -/
theorem takes_unary (start : Nat) (operator : Unary) : Takes Tidy (unary x start operator) := by
  refine .bind_tidy (.tidy (hx _)) fun operand => ?_
  exact .bind_tidy (takes_spanFrom _) fun _ => .pure _

/-- The operand of a step ends without a semicolon. -/
theorem takes_update (start : Nat) (step : Step) : Takes Tidy (update x start step) := by
  refine .bind_tidy (.tidy (hx _)) fun operand => ?_
  exact .bind_tidy (takes_spanFrom _) fun _ => .pure _

/-- What comes after the symbol of an operand ends without a semicolon. -/
theorem takes_symbolOperand (rounds : Nat) (token : Token) (symbol : Symbol) :
    Takes Tidy (symbolOperand x rounds token symbol) := by
  unfold symbolOperand
  split
  · refine .bind_tidy (takes_arguments hx (by decide) _) fun items => ?_
    exact .bind_tidy (takes_spanFrom _) fun _ => .pure _
  · -- Whatever a block holds, it ends with a brace.
    refine .tidy (.bind_finished (takes_sequence hx _ _) fun body => ?_)
    refine .bind (takes_expect (by decide) (by decide)) (fun _ => ?_) fun _ _ h h' => h.append h'
    exact .bind_tidy (takes_spanFrom _) fun _ => .pure _
  · exact takes_groupOrFunction hx _ _
  · exact takes_unary hx _ _
  · exact takes_unary hx _ _
  · exact takes_unary hx _ _
  · exact takes_update hx _ _
  · exact takes_update hx _ _
  · refine .bind_tidy (.tidy (hx _)) fun source => ?_
    exact .bind_tidy (takes_spanFrom _) fun _ => .pure _
  · refine .bind_tidy (.tidy (hx _)) fun e => ?_
    split
    · exact .bind_tidy (takes_spanFrom _) fun _ => .pure _
    · exact .throw _
  · exact .throw _

/-- What comes after the keyword of an operand ends without a semicolon. -/
theorem takes_keywordOperand (token : Token) (keyword : Keyword) :
    Takes Tidy (keywordOperand x token keyword) := by
  unfold keywordOperand
  split
  · exact .pure _
  · exact .pure _
  · exact .pure _
  · refine .bind_tidy (.tidy (hx 0)) fun condition => ?_
    refine .bind_tidy (.tidy (hx 0)) fun success => ?_
    exact takes_withOptional (by decide) (by decide) (.map (hx 0)) (.pure _)
  · refine .bind_tidy (.tidy (hx 0)) fun condition => ?_
    refine .bind_tidy (.tidy (hx 0)) fun body => ?_
    exact .bind_tidy (takes_spanFrom _) fun _ => .pure _
  · exact takes_loop hx _
  · refine .bind_tidy takes_carry fun count => ?_
    exact .bind_tidy (takes_spanFrom _) fun _ => .pure _
  · refine .bind_tidy takes_carry fun count => ?_
    exact .bind_tidy (takes_spanFrom _) fun _ => .pure _
  · exact .throw _

/-- An operand takes a token, and its last one is no semicolon. -/
theorem takes_operand (rounds : Nat) : Takes Finished (operand x rounds) := by
  unfold operand operandOf
  refine .take_bind (fun token => ?_) ?_
  · split
    · exact .pure _
    · exact .pure _
    · exact .pure _
    · exact .pure _
    · exact takes_keywordOperand hx _ _
    · exact takes_symbolOperand hx _ _ _
    · exact .throw _
  · rintro token s a s' (hkind | hkind) h <;> rw [hkind] at h <;> cases h

end

/-- An expression takes tokens, and the last one is no semicolon. -/
theorem takes_expressionWithin (room least : Nat) :
    Takes Finished (expressionWithin room least) := by
  induction room generalizing least with
  | zero => exact .exhausted
  | succ room ih =>
      unfold expressionWithin
      refine .bind (takes_operand ih _) (fun lhs => ?_) fun _ _ h h' => h.append h'
      exact takes_continued ih _ _ _ lhs

end Parser

end ListScript
