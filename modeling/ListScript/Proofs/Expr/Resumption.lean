import ListScript.Proofs.Expr.Junction

/-!
# Reading on, production by production

Each production resumes if the reader of nested expressions does. What closes a construct is always
found before the tokens to come; what ends with an expression may go on with a star.
-/

namespace ListScript.Parser

variable {more : List Token} {size : Nat} {s : TokenStream}

/-! ## What an operator before more operands keeps -/

/-- Whatever the reader gives has at least so many operators between operands. -/
def Raises (n : Nat) (p : Parser Expr) : Prop := ∀ ⦃s e s'⦄, p s = .ok e s' → n ≤ e.binaries

namespace Raises

variable {n : Nat}

/-- A tree with operators enough may be yielded. -/
theorem pure {e : Expr} (h : n ≤ e.binaries) : Raises n (Pure.pure e) := by
  intro s _ _ hrun
  cases hrun
  exact h

/-- A reader that gives up yields nothing. -/
theorem exhausted : Raises n (Parser.exhausted : Parser Expr) := fun _ _ _ h => nomatch h

/-- How the last part raises, the whole does. -/
theorem bind {α : Type} {p : Parser α} {f : α → Parser Expr} (h : ∀ a, Raises n (f a)) :
    Raises n (p >>= f) := by
  intro s e s'' hrun
  obtain ⟨a, s', -, hrun⟩ := exists_of_bind hrun
  exact h a hrun

/-- Raising more is raising less. -/
theorem mono {m : Nat} {p : Parser Expr} (h : Raises n p) (hle : m ≤ n) : Raises m p :=
  fun _ _ _ hrun => Nat.le_trans hle (h hrun)

end Raises

section

variable (y : Nat → Parser Expr) (room least rounds : Nat) (lhs : Expr)

/-- Going on with a binary operator adds one. -/
theorem raises_extend_binary (operator : Binary) :
    Raises (lhs.binaries + 1) (extend y room lhs (.binary operator)) :=
  .bind fun rhs => .bind fun _ => .pure (by simp)

/-- What continues an expression keeps it. -/
theorem raises_extend (continuation : Continuation) :
    Raises lhs.binaries (extend y room lhs continuation) := by
  cases continuation with
  | call => exact .bind fun items => .bind fun _ => .pure (by simp)
  | index => exact .bind fun position => .bind fun _ => .bind fun _ => .pure (by simp)
  | method =>
      exact .bind fun name => .bind fun _ => .bind fun items => .bind fun _ => .pure (by simp)
  | update step => exact .bind fun _ => .pure (by simp)
  | binary operator => exact (raises_extend_binary y room lhs operator).mono (Nat.le_succ _)
  | assign operator =>
      refine .bind fun value => .bind fun limited => ?_
      have hrest (r : Parser Expr) : Raises lhs.binaries (r >>= fun limit => do
          return .assign (← spanFrom lhs.span.start) lhs (assignedValue operator lhs value) limit
            ⟨operator = .const, false⟩) :=
        .bind fun limit => .bind fun _ => .pure (by simp; omega)
      split
      · exact hrest _
      · exact hrest _
  | range inclusive =>
      refine .bind fun last => .bind fun stepped => ?_
      have hrest (r : Parser Expr) : Raises lhs.binaries (r >>= fun step => do
          return .range (← spanFrom lhs.span.start) lhs last step inclusive) :=
        .bind fun step => .bind fun _ => .pure (by simp; omega)
      split
      · exact hrest _
      · exact hrest _
  | push => exact .bind fun value => .bind fun _ => .pure (by rw [binaries_pushInto]; omega)
  | shift => exact .bind fun target => .bind fun _ => .pure (by simp)

/-- Going on with an expression keeps its operators. -/
theorem raises_continued : Raises lhs.binaries (continued y room least rounds lhs) := by
  induction rounds generalizing lhs with
  | zero => exact .exhausted
  | succ rounds ih =>
      unfold continued
      refine .bind fun token => ?_
      split
      · exact .pure (Nat.le_refl _)
      · split
        · exact .pure (Nat.le_refl _)
        · refine .bind fun _ => ?_
          intro s e s'' hrun
          obtain ⟨e', s', hextend, hrun⟩ := exists_of_bind hrun
          exact Nat.le_trans (raises_extend y room lhs _ hextend) (ih e' hrun)

end

/-! ## Productions -/

section

variable (hmore : Opens more) {x y : Nat → Parser Expr}
  (hx : ∀ least s, ResumesAt more size Expr.Grew (x least) (y least) s)
  (htakes : ∀ least, Takes Finished (x least))

include hmore hx

/-- Arguments up to a closing symbol are read as before: they cannot end with the stream. -/
theorem steadyAt_arguments {closing : Symbol}
    (hclosing : (Token.Kind.symbol closing).opens = false) {rounds rounds' : Nat}
    (hrounds : rounds ≤ rounds') :
    SteadyAt more size (arguments x closing rounds) (arguments y closing rounds') s := by
  have hend : Token.Kind.symbol closing ≠ .endOfText := by simp
  induction rounds generalizing rounds' s with
  | zero => exact steadyAt_exhausted _
  | succ rounds ih =>
      obtain ⟨rounds', rfl⟩ := Nat.exists_eq_succ_of_ne_zero (Nat.ne_zero_of_lt hrounds)
      unfold arguments
      refine .bind (steadyAt_accept hmore hend hclosing) fun closed s' _ => ?_
      split
      · exact steadyAt_pure _
      · refine .needs_bind (hx 0 s').passes (fun first => ?_) fun first s'' _ => ?_
        · refine .accept_bind (by decide) ?_
          show NeedsMore (expect (.symbol closing) >>= _)
          exact .bind (needsMore_expect (by simp)) _
        · refine .bind (steadyAt_accept hmore (by decide) (by decide)) fun again _ _ => ?_
          split
          · exact .bind (ih (Nat.le_of_succ_le_succ hrounds)) fun _ _ _ => steadyAt_pure _
          · exact .bind (steadyAt_expect hend) fun _ _ _ => steadyAt_pure _

include htakes

/-- Expressions between commas are read as before, or up to the end of the stream before a star. -/
theorem resumesAt_commaSeparated {rounds rounds' : Nat} (hrounds : rounds ≤ rounds') :
    ResumesAt more size (fun _ _ => True) (commaSeparated x rounds)
      (commaSeparated y rounds') s := by
  induction rounds generalizing rounds' s with
  | zero => exact .of_steady (steadyAt_exhausted _)
  | succ rounds ih =>
      obtain ⟨rounds', rfl⟩ := Nat.exists_eq_succ_of_ne_zero (Nat.ne_zero_of_lt hrounds)
      unfold commaSeparated
      refine .bind (P := Tidy) (hx 0 s) (fun first => ?_) (fun first s' _ => ?_) ?_
      · refine .bind_tidy (takes_accept (by decide) (by decide)) fun again => ?_
        split
        · exact .bind_tidy (takes_commaSeparated htakes _) fun _ => .pure _
        · exact .pure _
      · refine .steady_bind (steadyAt_accept hmore (by decide) (by decide)) fun again s'' _ => ?_
        split
        · refine .bind (P := Tidy) (ih (Nat.le_of_succ_le_succ hrounds)) (fun _ => .pure _) ?_ ?_
          · exact fun _ _ _ => .of_steady (steadyAt_pure _)
          · exact fun _ _ _ _ _ _ _ _ _ _ _ _ => trivial
        · exact .of_steady (steadyAt_pure _)
      · exact fun _ _ _ _ _ _ _ _ _ _ _ _ => trivial

/-- An assignment is read as before, or what is assigned grows. -/
theorem resumesAt_assignment (operator : AssignOp) (target : Expr) :
    ResumesAt more size Expr.Grew (assignment x operator target) (assignment y operator target)
      s := by
  unfold assignment
  refine .bind (P := Tidy) (hx _ s) (fun value => ?_) (fun value s' _ => ?_) ?_
  · exact takes_withOptional (by decide) (by decide) (htakes _) (takes_absentNumber _)
  · refine resumesAt_withOptional hmore (by decide) (by decide) (hx _) (fun s => ?_) ?_
    · exact steadyAt_absentNumber _
    · intro limit limit' span span' h
      simp only [Expr.Grew, Expr.binaries] at h ⊢
      omega
  · intro value value' h
    refine .withOptional (D := fun e => e.binaries = 0) (by decide) (by decide)
      (takes_absentNumber _) ?_ ?_
    · intro s e s' hrun
      cases hrun
      rfl
    · intro limit limit' span span' hlimit
      have hvalue := grew_assignedValue h operator target
      simp only [Expr.Grew, Expr.binaries] at hvalue ⊢
      omega

/-- What continues an expression is read as before, or the expression grows. -/
theorem resumesAt_extend {rounds rounds' : Nat} (hrounds : rounds ≤ rounds') (lhs : Expr)
    (continuation : Continuation) :
    ResumesAt more size Expr.Grew (extend x rounds lhs continuation)
      (extend y rounds' lhs continuation) s := by
  cases continuation with
  | call =>
      refine .of_steady (.bind (steadyAt_arguments hmore hx (by decide) hrounds) ?_)
      exact fun _ _ _ => .bind (steadyAt_spanFrom _) fun _ _ _ => steadyAt_pure _
  | index =>
      refine .of_steady (.needs_bind (hx 0 s).passes (fun position => ?_) fun position s' _ => ?_)
      · exact .bind (needsMore_expect (by decide)) _
      · refine .bind (steadyAt_expect (by decide)) fun _ _ _ => ?_
        exact .bind (steadyAt_spanFrom _) fun _ _ _ => steadyAt_pure _
  | method =>
      refine .of_steady (.bind (steadyAt_expect (by decide)) fun name _ _ => ?_)
      refine .bind (steadyAt_expect (by decide)) fun _ _ _ => ?_
      refine .bind (steadyAt_arguments hmore hx (by decide) hrounds) fun _ _ _ => ?_
      exact .bind (steadyAt_spanFrom _) fun _ _ _ => steadyAt_pure _
  | update step =>
      exact .of_steady (.bind (steadyAt_spanFrom _) fun _ _ _ => steadyAt_pure _)
  | binary operator =>
      refine .node (hx _ s) fun rhs rhs' span span' h => ?_
      simp only [Expr.Grew, Expr.binaries] at h ⊢
      omega
  | assign operator => exact resumesAt_assignment hmore hx htakes operator lhs
  | range inclusive =>
      refine .bind (P := Tidy) (hx _ s) (fun last => ?_) (fun last s' _ => ?_) ?_
      · exact takes_withOptional (by decide) (by decide) (htakes _) (takes_absentNumber _)
      · refine resumesAt_withOptional hmore (by decide) (by decide) (hx _) (fun s => ?_) ?_
        · exact steadyAt_absentNumber _
        · intro step step' span span' h
          simp only [Expr.Grew, Expr.binaries] at h ⊢
          omega
      · intro last last' h
        refine .withOptional (D := fun e => e.binaries = 0) (by decide) (by decide)
          (takes_absentNumber _) ?_ ?_
        · intro s e s' hrun
          cases hrun
          rfl
        · intro step step' span span' hstep
          simp only [Expr.Grew, Expr.binaries] at h ⊢
          omega
  | push =>
      refine .node (hx _ s) fun value value' span span' h => ?_
      show Expr.binaries _ < Expr.binaries _
      rw [binaries_pushInto, binaries_pushInto]
      exact Nat.add_lt_add_left h _
  | shift =>
      refine .node (hx _ s) fun target target' span span' h => ?_
      simp only [Expr.Grew, Expr.binaries] at h ⊢
      omega

omit hmore hx htakes in
/-- At the end of the stream an expression is not continued. -/
theorem continued_of_nil (hs : s.pending = []) (room least rounds : Nat) (lhs : Expr) :
    continued x room least (rounds + 1) lhs s = .ok lhs s := by
  unfold continued
  rw [run_bind, peek_of_nil hs]
  rfl

omit hmore hx htakes in
/-- Going on from a tree that has grown yields one that has. -/
theorem grows_continued {lhs lhs' : Expr} (h : lhs.Grew lhs') (room room' least rounds rounds' : Nat) :
    Grows Expr.Grew (continued x room least rounds lhs)
      (continued y room' least rounds' lhs') := by
  intro s e s' hs hrun t e' t' hrun'
  cases rounds with
  | zero => cases hrun
  | succ rounds =>
      rw [continued_of_nil hs] at hrun
      cases hrun
      exact Nat.lt_of_lt_of_le h (raises_continued y room' least rounds' lhs' hrun')

omit hx htakes in
/-- At the end of the stream, an expression goes on with a star if the operator binds strongly
enough, and with nothing else. -/
theorem resumesAt_continued_of_nil (hs : s.pending = []) (room room' least rounds rounds' : Nat)
    (lhs : Expr) :
    ResumesAt more size Expr.Grew (continued x room least (rounds + 1) lhs)
      (continued y room' least (rounds' + 1) lhs) s := by
  intro e s' hrun
  rw [continued_of_nil hs] at hrun
  cases hrun
  cases more with
  | nil => exact .inl (continued_of_nil (followedBy_of_nil hs) _ _ _ _)
  | cons token rest =>
      have hhead : (s.followedBy (token :: rest) size).pending = .ok token :: rest.map .ok :=
        followedBy_of_nil hs
      unfold continued
      rw [run_bind, peek_of_cons hhead]
      dsimp only
      obtain ⟨hline, hopens⟩ := hmore token rest rfl
      obtain hnone | ⟨hstar, hmultiply⟩ := Token.ofToken?_of_opens hline hopens
      · rw [hnone]
        exact .inl rfl
      · rw [hmultiply]
        dsimp only
        split
        · exact .inl rfl
        · refine .inr ⟨⟨token, rest, rfl, hstar⟩, hs, fun e t hrun => ?_⟩
          obtain ⟨_, _, -, hrun⟩ := exists_of_bind hrun
          obtain ⟨e', t', hextend, hrun⟩ := exists_of_bind hrun
          have hle := raises_extend_binary y room' lhs .multiply hextend
          have hle' := raises_continued y room' least rounds' e' hrun
          exact Nat.lt_of_succ_le (Nat.le_trans hle hle')

/-- An expression goes on as before, or it grows. -/
theorem resumesAt_continued {room room' rounds rounds' : Nat} (hroom : room ≤ room')
    (hrounds : rounds ≤ rounds') (least : Nat) (lhs : Expr) :
    ResumesAt more size Expr.Grew (continued x room least rounds lhs)
      (continued y room' least rounds' lhs) s := by
  induction rounds generalizing rounds' lhs s with
  | zero => exact .of_steady (steadyAt_exhausted _)
  | succ rounds ih =>
      obtain ⟨rounds', rfl⟩ := Nat.exists_eq_succ_of_ne_zero (Nat.ne_zero_of_lt hrounds)
      by_cases hs : s.pending = []
      · exact resumesAt_continued_of_nil hmore hs room room' least rounds rounds' lhs
      · unfold continued
        refine .steady_bind (steadyAt_peek hs) fun token s' hrun => ?_
        obtain rfl := eq_of_peek hrun
        split
        · exact .of_steady (steadyAt_pure _)
        · split
          · exact .of_steady (steadyAt_pure _)
          · refine .steady_bind (steadyAt_take hs) fun _ s'' _ => ?_
            refine .bind (P := Tidy) (resumesAt_extend hmore hx htakes hroom lhs _) ?_ ?_ ?_
            · exact takes_continued htakes room least rounds
            · exact fun e _ _ => ih (Nat.le_of_succ_le_succ hrounds) e
            · exact fun e e' h => grows_continued h room room' least rounds rounds'

omit hmore hx htakes in
/-- Whether an expression is a parameter does not depend on the stream. -/
theorem steadyAt_parameter (e : Expr) : SteadyAt more size (parameter e) (parameter e) s := by
  unfold parameter
  split
  · exact steadyAt_pure _
  · exact steadyAt_throw _ _

omit hmore hx htakes in
/-- Whether expressions are parameters does not depend on the stream. -/
theorem steadyAt_parameters (es : List Expr) :
    SteadyAt more size (es.mapM parameter) (es.mapM parameter) s := by
  induction es generalizing s with
  | nil => exact steadyAt_pure _
  | cons e es ih =>
      rw [List.mapM_cons]
      refine .bind (steadyAt_parameter e) fun name _ _ => ?_
      exact .bind ih fun _ _ _ => steadyAt_pure _

omit hmore htakes in
/-- The body of a function is read as before, or it grows. -/
theorem resumesAt_functionBody (start : Nat) (parameters : List String) :
    ResumesAt more size Expr.Grew (functionBody x start parameters)
      (functionBody y start parameters) s := by
  rw [functionBody_eq, functionBody_eq]
  refine .node (hx 0 s) fun body body' span span' h => ?_
  unfold Expr.Grew
  rw [binaries_functionOf, binaries_functionOf]
  exact h

/-- What begins with a parenthesis is read as before, or it grows: a function does at its end, a
group does not. -/
theorem resumesAt_groupOrFunction {rounds rounds' : Nat} (hrounds : rounds ≤ rounds')
    (start : Nat) :
    ResumesAt more size Expr.Grew (groupOrFunction x rounds start)
      (groupOrFunction y rounds' start) s := by
  unfold groupOrFunction
  refine .steady_bind (steadyAt_accept hmore (by decide) (by decide)) fun closed s' _ => ?_
  split
  · refine .steady_bind (steadyAt_expect (by decide)) fun _ _ _ => ?_
    exact resumesAt_functionBody hx start []
  · refine .needs_bind (hx 0 s').passes (fun first => ?_) fun first s'' _ => ?_
    · refine .accept_bind (by decide) ?_
      show NeedsMore (expect (.symbol .rightParen) >>= _)
      exact .bind (needsMore_expect (by decide)) _
    refine .steady_bind (steadyAt_accept hmore (by decide) (by decide)) fun again s₃ _ => ?_
    split
    · refine .needs_bind (resumesAt_commaSeparated hmore hx htakes hrounds).passes (fun rest => ?_)
        fun rest s₄ _ => ?_
      · exact .bind (needsMore_expect (by decide)) _
      refine .steady_bind (steadyAt_expect (by decide)) fun _ _ _ => ?_
      refine .steady_bind (steadyAt_expect (by decide)) fun _ _ _ => ?_
      refine .steady_bind (steadyAt_parameters _) fun parameters _ _ => ?_
      exact resumesAt_functionBody hx start parameters
    · refine .steady_bind (steadyAt_expect (by decide)) fun _ _ _ => ?_
      refine .steady_bind (steadyAt_accept hmore (by decide) (by decide)) fun arrow _ _ => ?_
      split
      · refine .steady_bind (steadyAt_parameter first) fun name _ _ => ?_
        exact resumesAt_functionBody hx start [name]
      · exact .of_steady (.bind (steadyAt_spanFrom _) fun _ _ _ => steadyAt_pure _)

omit hmore in
/-- A loop is read as before, or its body grows. -/
theorem resumesAt_loop (start : Nat) :
    ResumesAt more size Expr.Grew (loop x start) (loop y start) s := by
  have hneeds (least : Nat) : NeedsMore (x least) := .of_takes (htakes least)
  unfold loop
  refine .needs_bind (passesAt_accept (by decide) (by decide)) (fun opened => ?_)
    fun opened s₁ _ => ?_
  · split
    · exact .bind (hneeds 0) _
    · exact .bind (needsMore_expect (by decide)) _
  split
  · refine .needs_bind (hx 0 s₁).passes (fun _ => ?_) fun initial s₂ _ => ?_
    · exact .bind (needsMore_expect (by decide)) _
    refine .steady_bind (steadyAt_expect (by decide)) fun _ s₃ _ => ?_
    refine .needs_bind (hx 0 s₃).passes (fun _ => ?_) fun condition s₄ _ => ?_
    · exact .bind (needsMore_expect (by decide)) _
    refine .steady_bind (steadyAt_expect (by decide)) fun _ s₅ _ => ?_
    refine .needs_bind (hx 0 s₅).passes (fun _ => ?_) fun step s₆ _ => ?_
    · exact .bind (needsMore_expect (by decide)) _
    refine .steady_bind (steadyAt_expect (by decide)) fun _ s₇ _ => ?_
    refine .node (hx 0 s₇) fun body body' span span' h => ?_
    simp only [Expr.Grew, Expr.binaries] at h ⊢
    omega
  · refine .steady_bind (steadyAt_expect (by decide)) fun name s₂ _ => ?_
    have hrest (walk : Walk) (s : TokenStream) : ResumesAt more size Expr.Grew
        (do
          let enumerable ← x 0
          let body ← x 0
          return .forEach (← spanFrom start) walk name.lexeme enumerable body)
        (do
          let enumerable ← y 0
          let body ← y 0
          return .forEach (← spanFrom start) walk name.lexeme enumerable body) s := by
      refine .needs_bind (hx 0 s).passes (fun _ => .bind (hneeds 0) _) fun enumerable s' _ => ?_
      refine .node (hx 0 s') fun body body' span span' h => ?_
      simp only [Expr.Grew, Expr.binaries] at h ⊢
      omega
    refine .needs_bind passesAt_take (fun keyword => ?_) fun keyword s₃ _ => ?_
    · split
      · exact .bind (hneeds 0) _
      · exact .bind (hneeds 0) _
      · exact .bind (.throw _) _
    · split
      · exact hrest _ s₃
      · exact hrest _ s₃
      · exact .steady_bind (steadyAt_throw _ _) fun walk s₄ _ => hrest walk s₄

omit hmore hx htakes in
/-- After the semicolons, a sequence that has to be closed fails at the end of the stream. -/
theorem needsMore_round {closing : Token.Kind} (hclosing : closing ≠ .endOfText)
    (p : Parser (List Expr)) :
    NeedsMore (do
      let token ← peek
      if token.kind = closing then return []
      else if token.kind = .endOfText then throw ⟨.unexpectedEnd, token.span⟩
      else p) := by
  refine .peek_bind fun size => ?_
  show NeedsMore (if Token.Kind.endOfText = closing then _ else _ : Parser (List Expr))
  rw [if_neg hclosing.symm]
  exact .throw _

omit hmore hx htakes in
/-- A sequence that ends with a token does not end with the stream. -/
theorem needsMore_sequence {closing : Token.Kind} (hclosing : closing ≠ .endOfText)
    (rounds : Nat) : NeedsMore (sequence x closing rounds) := by
  cases rounds with
  | zero => exact fun _ _ _ _ hrun => nomatch hrun
  | succ rounds => exact .takes_bind takes_skipSemicolons fun _ => needsMore_round hclosing _

omit hmore htakes in
/-- A sequence that ends with a token is read as before. -/
theorem steadyAt_sequence {closing : Token.Kind} (hclosing : closing ≠ .endOfText)
    {rounds rounds' : Nat} (hrounds : rounds ≤ rounds') :
    SteadyAt more size (sequence x closing rounds) (sequence y closing rounds') s := by
  induction rounds generalizing rounds' s with
  | zero => exact steadyAt_exhausted _
  | succ rounds ih =>
      obtain ⟨rounds', rfl⟩ := Nat.exists_eq_succ_of_ne_zero (Nat.ne_zero_of_lt hrounds)
      refine .needs_bind passesAt_skipSemicolons (fun _ => needsMore_round hclosing _)
        fun _ s₁ _ => ?_
      by_cases hs : s₁.pending = []
      · exact fun es s' hrun => (needsMore_round hclosing _ s₁ hs es s' hrun).elim
      · refine .bind (steadyAt_peek hs) fun token s₂ _ => ?_
        split
        · exact steadyAt_pure _
        · split
          · exact steadyAt_throw _ _
          · refine .needs_bind (hx 0 s₂).passes (fun _ => ?_) fun first s₃ _ => ?_
            · exact .bind (needsMore_sequence hclosing rounds) _
            · exact .bind (ih (Nat.le_of_succ_le_succ hrounds)) fun _ _ _ => steadyAt_pure _

omit hmore htakes in
/-- A sign and its operand are read as before, or the operand grows. -/
theorem resumesAt_unary (start : Nat) (operator : Unary) :
    ResumesAt more size Expr.Grew (unary x start operator) (unary y start operator) s :=
  .node (hx _ s) fun _ _ _ _ h => h

omit hmore htakes in
/-- A step and its operand are read as before, or the operand grows. -/
theorem resumesAt_update (start : Nat) (step : Step) :
    ResumesAt more size Expr.Grew (update x start step) (update y start step) s :=
  .node (hx _ s) fun _ _ _ _ h => h

/-- An operand that begins with a symbol is read as before, or it grows. -/
theorem resumesAt_symbolOperand {rounds rounds' : Nat} (hrounds : rounds ≤ rounds')
    (token : Token) (symbol : Symbol) :
    ResumesAt more size Expr.Grew (symbolOperand x rounds token symbol)
      (symbolOperand y rounds' token symbol) s := by
  unfold symbolOperand
  split
  · refine .of_steady (.bind (steadyAt_arguments hmore hx (by decide) hrounds) fun _ _ _ => ?_)
    exact .bind (steadyAt_spanFrom _) fun _ _ _ => steadyAt_pure _
  · refine .of_steady (.bind (steadyAt_sequence hx (by decide) hrounds) fun _ _ _ => ?_)
    refine .bind (steadyAt_expect (by decide)) fun _ _ _ => ?_
    exact .bind (steadyAt_spanFrom _) fun _ _ _ => steadyAt_pure _
  · exact resumesAt_groupOrFunction hmore hx htakes hrounds _
  · exact resumesAt_unary hx _ _
  · exact resumesAt_unary hx _ _
  · exact resumesAt_unary hx _ _
  · exact resumesAt_update hx _ _
  · exact resumesAt_update hx _ _
  · refine .node (hx _ s) fun source source' span span' h => ?_
    unfold Expr.Grew
    rw [binaries_popFrom, binaries_popFrom]
    exact h
  · refine .bind (P := Tidy) (hx 0 s) (fun e => ?_) (fun e s' _ => ?_) fun e e' h => ?_
    · split
      · exact .bind_tidy (takes_spanFrom _) fun _ => .pure _
      · exact .throw _
    · split
      · exact .of_steady (.bind (steadyAt_spanFrom _) fun _ _ _ => steadyAt_pure _)
      · exact .of_steady (steadyAt_throw _ _)
    · -- Only an assignment is accepted, on either side.
      split
      · split
        · exact .spanFrom_bind fun span span' => .pure h
        · exact fun _ _ _ _ _ _ _ _ hrun => nomatch hrun
      · exact .of_needsMore (.throw _) _
  · exact .of_steady (steadyAt_throw _ _)

/-- An operand that begins with a keyword is read as before, or it grows. -/
theorem resumesAt_keywordOperand (token : Token) (keyword : Keyword) :
    ResumesAt more size Expr.Grew (keywordOperand x token keyword)
      (keywordOperand y token keyword) s := by
  unfold keywordOperand
  split
  · exact .of_steady (steadyAt_pure _)
  · exact .of_steady (steadyAt_pure _)
  · exact .of_steady (steadyAt_pure _)
  · refine .needs_bind (hx 0 s).passes (fun _ => ?_) fun condition s₁ _ => ?_
    · exact .bind (.of_takes (htakes 0)) _
    refine .bind (P := Tidy) (hx 0 s₁) (fun success => ?_) (fun success s₂ _ => ?_) ?_
    · exact takes_withOptional (by decide) (by decide) (.map (htakes 0)) (.pure _)
    · refine resumesAt_withOptional
        (V := fun failure failure' => ∃ e e', failure = some e ∧ failure' = some e' ∧ e.Grew e')
        hmore (by decide) (by decide) (fun s => ?_) (fun s => steadyAt_pure _) ?_
      · exact .map (hx 0 s) fun e e' h => ⟨e, e', rfl, rfl, h⟩
      · rintro _ _ span span' ⟨failure, failure', rfl, rfl, h⟩
        simp only [Expr.Grew, Expr.binaries] at h ⊢
        omega
    · intro success success' h
      refine .withOptional (D := fun failure => failure = none) (by decide) (by decide)
        (.pure _) ?_ ?_
      · intro s failure s' hrun
        cases hrun
        rfl
      · rintro _ failure' span span' rfl
        cases failure' <;> simp only [Expr.Grew, Expr.binaries] at h ⊢ <;> omega
  · refine .needs_bind (hx 0 s).passes (fun _ => ?_) fun condition s' _ => ?_
    · exact .bind (.of_takes (htakes 0)) _
    refine .node (hx 0 s') fun body body' span span' h => ?_
    simp only [Expr.Grew, Expr.binaries] at h ⊢
    omega
  · exact resumesAt_loop hx htakes _
  · refine .of_steady (.bind (steadyAt_carry hmore) fun _ _ _ => ?_)
    exact .bind (steadyAt_spanFrom _) fun _ _ _ => steadyAt_pure _
  · refine .of_steady (.bind (steadyAt_carry hmore) fun _ _ _ => ?_)
    exact .bind (steadyAt_spanFrom _) fun _ _ _ => steadyAt_pure _
  · exact .of_steady (steadyAt_throw _ _)

/-- An operand is read as before, or it grows. -/
theorem resumesAt_operand {rounds rounds' : Nat} (hrounds : rounds ≤ rounds') :
    ResumesAt more size Expr.Grew (operand x rounds) (operand y rounds') s := by
  by_cases hs : s.pending = []
  · exact fun e s' hrun =>
      (NeedsMore.of_takes (takes_operand htakes rounds) s hs e s' hrun).elim
  · refine .steady_bind (steadyAt_take hs) fun token s' _ => ?_
    unfold operandOf
    split
    · exact .of_steady (steadyAt_pure _)
    · exact .of_steady (steadyAt_pure _)
    · exact .of_steady (steadyAt_pure _)
    · exact .of_steady (steadyAt_pure _)
    · exact resumesAt_keywordOperand hmore hx htakes _ _
    · exact resumesAt_symbolOperand hmore hx htakes hrounds _ _
    · exact .of_steady (steadyAt_throw _ _)

end

/-- An expression is read as before, whatever comes after the stream, unless it reaches the end and
goes on with a star. -/
theorem resumesAt_expressionWithin (hmore : Opens more) {room room' : Nat} (hroom : room ≤ room')
    (least : Nat) :
    ResumesAt more size Expr.Grew (expressionWithin room least) (expressionWithin room' least)
      s := by
  induction room generalizing room' least s with
  | zero => exact .of_steady (steadyAt_exhausted _)
  | succ room ih =>
      obtain ⟨room', rfl⟩ := Nat.exists_eq_succ_of_ne_zero (Nat.ne_zero_of_lt hroom)
      have hle : room ≤ room' := Nat.le_of_succ_le_succ hroom
      have hx (least : Nat) (s : TokenStream) : ResumesAt more size Expr.Grew
          (expressionWithin room least) (expressionWithin room' least) s := ih hle least
      have htakes := takes_expressionWithin room
      unfold expressionWithin
      refine .bind (P := Tidy) (resumesAt_operand hmore hx htakes hle) ?_ ?_ ?_
      · exact takes_continued htakes room least room
      · exact fun lhs _ _ => resumesAt_continued hmore hx htakes hle hle least lhs
      · exact fun lhs lhs' h => grows_continued h room room' least room room'

end ListScript.Parser
