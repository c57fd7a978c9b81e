import ListScript.Proofs.Expr.Consumption

/-!
# Reading on

What a reader makes of a stream is compared with what a reader with more room makes of the stream
with more tokens at its end, the first of which is on a new line and opens an expression. Both make
the same, unless the reader stopped at the end of the shorter stream and the tokens to come begin
with a star: of all tokens that open an expression, only a star continues one from a line before.
Then the longer stream gives something else, a tree with more operators between operands in it. This
is what `Resumes` says; `Parser.resumes_expressionWithin` is the result. No tokens to come is a case
of it: more room does not change what is read.
-/

namespace ListScript

/-! ## Opening tokens -/

/-- The tokens that open an expression, or stand between expressions. -/
def Token.Kind.opens : Token.Kind → Bool
  | .symbol .leftParen | .symbol .leftBrace | .symbol .leftBracket | .symbol .semicolon
  | .symbol .minus | .symbol .star | .symbol .plusPlus | .symbol .minusMinus | .symbol .bang
  | .symbol .ampersand | .symbol .rightShift => true
  | .symbol _ => false
  | .keyword .elseWord | .keyword .inWord | .keyword .ofWord => false
  | .keyword _ => true
  | .number | .string | .character | .identifier => true
  | .endOfText => false

/-- The first of the tokens opens an expression on a new line. -/
def Opens (tokens : List Token) : Prop :=
  ∀ token rest, tokens = token :: rest → token.startsLine = true ∧ token.kind.opens = true

/-- The first of the tokens is a star. -/
def Glues (tokens : List Token) : Prop :=
  ∃ token rest, tokens = token :: rest ∧ token.kind = .symbol .star

/-- On a new line, no opening token but a star continues an expression. -/
theorem Token.ofToken?_of_opens {token : Token} (hline : token.startsLine = true)
    (hopens : token.kind.opens = true) :
    Continuation.ofToken? token = none ∨
      token.kind = .symbol .star ∧ Continuation.ofToken? token = some (.binary .multiply) := by
  unfold Continuation.ofToken?
  rw [hline]
  cases hkind : token.kind with
  | symbol s =>
      rw [hkind] at hopens
      cases s <;> first | exact .inl rfl | exact .inr ⟨rfl, rfl⟩ | cases hopens
  | _ => exact .inl rfl

/-! ## A measure -/

namespace Expr

mutual

/-- The number of operators between operands in an expression. -/
@[simp] def binaries : Expr → Nat
  | number .. | boolean .. | null _ | string .. | character .. | identifier .. | control .. => 0
  | list _ items => binariesAll items
  | block _ body => binariesAll body
  | group _ inner => inner.binaries
  | unary _ _ operand => operand.binaries
  | update _ _ _ operand => operand.binaries
  | binary _ _ lhs rhs => lhs.binaries + rhs.binaries + 1
  | assign _ target value limit _ => target.binaries + value.binaries + limit.binaries
  | call _ callee arguments => callee.binaries + binariesAll arguments
  | function _ _ body _ => binariesAll body
  | branch _ condition success none => condition.binaries + success.binaries
  | branch _ condition success (some failure) =>
    condition.binaries + success.binaries + failure.binaries
  | whileLoop _ condition body => condition.binaries + body.binaries
  | forLoop _ start condition step body =>
    start.binaries + condition.binaries + step.binaries + body.binaries
  | forEach _ _ _ enumerable body => enumerable.binaries + body.binaries
  | index _ target position => target.binaries + position.binaries
  | method _ receiver _ arguments => receiver.binaries + binariesAll arguments
  | range _ first last step _ => first.binaries + last.binaries + step.binaries
  | shift _ source target => source.binaries + target.binaries
  | pop _ source position => source.binaries + position.binaries
  | push _ target position value => target.binaries + position.binaries + value.binaries

/-- The number of operators between operands in expressions. -/
@[simp] def binariesAll : List Expr → Nat
  | [] => 0
  | e :: rest => e.binaries + binariesAll rest

end

mutual

/-- Places do not count. -/
theorem binaries_erase (e : Expr) : e.erase.binaries = e.binaries := by
  cases e with
  | number | boolean | null | string | character | identifier | control => rfl
  | list _ items => simp [binariesAll_eraseAll items]
  | block _ body => simp [binariesAll_eraseAll body]
  | group _ inner => simp [inner.binaries_erase]
  | unary _ _ operand => simp [operand.binaries_erase]
  | update _ _ _ operand => simp [operand.binaries_erase]
  | binary _ _ lhs rhs => simp [lhs.binaries_erase, rhs.binaries_erase]
  | assign _ target value limit _ =>
      simp [target.binaries_erase, value.binaries_erase, limit.binaries_erase]
  | call _ callee arguments => simp [callee.binaries_erase, binariesAll_eraseAll arguments]
  | function _ _ body _ => simp [binariesAll_eraseAll body]
  | branch _ condition success failure =>
      cases failure with
      | none => simp [condition.binaries_erase, success.binaries_erase]
      | some failure =>
          simp [condition.binaries_erase, success.binaries_erase, failure.binaries_erase]
  | whileLoop _ condition body => simp [condition.binaries_erase, body.binaries_erase]
  | forLoop _ start condition step body =>
      simp [start.binaries_erase, condition.binaries_erase, step.binaries_erase,
        body.binaries_erase]
  | forEach _ _ _ enumerable body => simp [enumerable.binaries_erase, body.binaries_erase]
  | index _ target position => simp [target.binaries_erase, position.binaries_erase]
  | method _ receiver _ arguments => simp [receiver.binaries_erase, binariesAll_eraseAll arguments]
  | range _ first last step _ =>
      simp [first.binaries_erase, last.binaries_erase, step.binaries_erase]
  | shift _ source target => simp [source.binaries_erase, target.binaries_erase]
  | pop _ list position => simp [list.binaries_erase, position.binaries_erase]
  | push _ list position value =>
      simp [list.binaries_erase, position.binaries_erase, value.binaries_erase]

/-- Erasing the places of expressions keeps their operators. -/
theorem binariesAll_eraseAll (es : List Expr) : binariesAll (eraseAll es) = binariesAll es := by
  cases es with
  | nil => rfl
  | cons e es => simp [e.binaries_erase, binariesAll_eraseAll es]

end

/-- The second expression has more operators between operands. -/
def Grew (e e' : Expr) : Prop := e.binaries < e'.binaries

end Expr

/-- A push has the operators of its target and its value. -/
theorem Parser.binaries_pushInto (span : Span) (target value : Expr) :
    (pushInto span target value).binaries = target.binaries + value.binaries := by
  cases target <;> simp [pushInto]

/-- A pop has the operators of its target. -/
theorem Parser.binaries_popFrom (span : Span) (source : Expr) :
    (popFrom span source).binaries = source.binaries := by
  cases source <;> simp [popFrom]

/-- A function has the operators of its body. -/
theorem Parser.binaries_functionOf (span : Span) (parameters : List String) (body : Expr) :
    (functionOf span parameters body).binaries = body.binaries := by
  cases body <;> simp [functionOf]

/-- An assigned value grows with the expression on the right. -/
theorem Parser.grew_assignedValue {value value' : Expr} (h : value.Grew value')
    (operator : AssignOp) (target : Expr) :
    (assignedValue operator target value).Grew (assignedValue operator target value') := by
  unfold Expr.Grew at h ⊢
  cases operator <;> simp [assignedValue] <;> omega

/-- The stream of a source of another size with more tokens at the end. -/
def TokenStream.followedBy (s : TokenStream) (more : List Token) (size : Nat) : TokenStream :=
  ⟨s.pending ++ more.map .ok, size, s.previousStop⟩

namespace Parser

variable {α β : Type}

/-! ## Readers at the end of the stream -/

/-- At the end of the stream nothing is accepted. -/
theorem accept_of_nil {kind : Token.Kind} (hkind : kind ≠ .endOfText) {s : TokenStream}
    (hs : s.pending = []) : accept kind s = .ok false s := by
  unfold accept
  rw [run_bind, peek_of_nil hs]
  show (if Token.Kind.endOfText = kind then _ else _ : Parser Bool) s = _
  rw [if_neg hkind.symm]
  rfl

/-- The reader fails at the end of the stream. -/
def NeedsMore (p : Parser α) : Prop := ∀ s, s.pending = [] → ∀ a s', p s ≠ .ok a s'

namespace NeedsMore

/-- A reader that always takes a token fails where there is none. -/
theorem of_takes {p : Parser α} (h : Takes Finished p) : NeedsMore p := by
  intro s hs a s' hrun
  obtain ⟨taken, hpending, init, last, rfl, -⟩ := h hrun
  rw [hs] at hpending
  simp at hpending

/-- What starts with a reader that needs more needs more. -/
theorem bind {p : Parser α} (h : NeedsMore p) (f : α → Parser β) : NeedsMore (p >>= f) := by
  intro s hs b s'' hrun
  obtain ⟨a, s', hp, -⟩ := exists_of_bind hrun
  exact h s hs a s' hp

/-- A reader that fails everywhere fails at the end of the stream. -/
theorem throw (e : ParseError) : NeedsMore (MonadExcept.throw e : Parser α) :=
  fun _ _ _ _ hrun => nomatch hrun

/-- What comes after a part that finds nothing to take is still at the end. -/
theorem takes_bind {P : List Token → Prop} {p : Parser α} {f : α → Parser β} (htakes : Takes P p)
    (h : ∀ a, NeedsMore (f a)) : NeedsMore (p >>= f) := by
  intro s hs b s'' hrun
  obtain ⟨a, s', hp, hrun⟩ := exists_of_bind hrun
  obtain ⟨taken, hpending, -⟩ := htakes hp
  rw [hs] at hpending
  exact h a s' (List.append_eq_nil_iff.1 hpending.symm).2 b s'' hrun

/-- At the end of the stream only the end can be looked at. -/
theorem peek_bind {f : Token → Parser α} (h : ∀ size, NeedsMore (f (.ending size))) :
    NeedsMore (peek >>= f) := by
  intro s hs a s' hrun
  rw [run_bind, peek_of_nil hs] at hrun
  exact h s.size s hs a s' hrun

/-- At the end of the stream a reader goes on as if nothing were accepted. -/
theorem accept_bind {kind : Token.Kind} (hkind : kind ≠ .endOfText) {f : Bool → Parser α}
    (h : NeedsMore (f false)) : NeedsMore (accept kind >>= f) := by
  intro s hs a s' hrun
  rw [run_bind, accept_of_nil hkind hs] at hrun
  exact h s hs a s' hrun

end NeedsMore

/-- A token is expected in vain at the end of the stream. -/
theorem needsMore_expect {kind : Token.Kind} (hkind : kind ≠ .endOfText) :
    NeedsMore (expect kind) := by
  intro s hs token s' hrun
  unfold expect at hrun
  rw [run_bind, take_of_nil hs] at hrun
  change (if Token.Kind.endOfText = kind then _ else _ : Parser Token) _ = _ at hrun
  rw [if_neg hkind.symm] at hrun
  cases hrun

/-- Where the first reader succeeds at the end of the stream, whatever the second one gives anywhere
is related to what the first one gives. -/
def Grows (W : α → β → Prop) (p : Parser α) (q : Parser β) : Prop :=
  ∀ ⦃s a s'⦄, s.pending = [] → p s = .ok a s' → ∀ ⦃t b t'⦄, q t = .ok b t' → W a b

namespace Grows

variable {W : α → β → Prop}

/-- A reader that needs more gives nothing at the end of the stream. -/
theorem of_needsMore {p : Parser α} (h : NeedsMore p) (q : Parser β) : Grows W p q :=
  fun s a s' hs hrun => (h s hs a s' hrun).elim

/-- Yielded values are related wherever they are yielded. -/
theorem pure {a : α} {b : β} (h : W a b) : Grows W (Pure.pure a) (Pure.pure b) := by
  intro s _ _ hs hrun t _ _ hrun'
  cases hrun
  cases hrun'
  exact h

/-- If the parts are related, so are the wholes: the second part begins at the end as well. -/
theorem bind {γ δ : Type} {V : γ → δ → Prop} {P : List Token → Prop} {p : Parser α} {q : Parser β}
    {f : α → Parser γ} {g : β → Parser δ} (htakes : Takes P p) (hp : Grows W p q)
    (hf : ∀ a b, W a b → Grows V (f a) (g b)) : Grows V (p >>= f) (q >>= g) := by
  intro s c s'' hs hrun t d t'' hrun'
  obtain ⟨a, s', hps, hrun⟩ := exists_of_bind hrun
  obtain ⟨b, t', hqt, hrun'⟩ := exists_of_bind hrun'
  have hs' : s'.pending = [] := by
    obtain ⟨taken, hpending, -⟩ := htakes hps
    rw [hs] at hpending
    exact (List.append_eq_nil_iff.1 hpending.symm).2
  exact hf a b (hp hs hps hqt) hs' hrun hrun'

/-- The place of a node does not matter. -/
theorem spanFrom_bind {V : α → β → Prop} {start start' : Nat} {f : Span → Parser α}
    {g : Span → Parser β} (h : ∀ span span', Grows V (f span) (g span')) :
    Grows V (spanFrom start >>= f) (spanFrom start' >>= g) :=
  .bind (W := fun _ _ => True) (takes_spanFrom start) (fun _ _ _ _ _ _ _ _ _ => trivial)
    fun span span' _ => h span span'

/-- At the end of the stream nothing is accepted, whatever is accepted elsewhere. -/
theorem accept_bind {V : α → β → Prop} {kind : Token.Kind} (hend : kind ≠ .endOfText)
    (hsemicolon : kind ≠ .symbol .semicolon) {f : Bool → Parser α} {g : Bool → Parser β}
    (h : ∀ accepted, Grows V (f false) (g accepted)) :
    Grows V (accept kind >>= f) (accept kind >>= g) := by
  refine .bind (W := fun a _ => a = false) (takes_accept hend hsemicolon) ?_ ?_
  · intro s a s' hs hrun _ _ _ _
    rw [accept_of_nil hend hs] at hrun
    cases hrun
    rfl
  · rintro _ accepted rfl
    exact h accepted

end Grows

/-! ## Resuming -/

section

variable (more : List Token) (size : Nat)

/-- The second reader does with more tokens at the end of the stream what the first one does with
the stream. -/
def SteadyAt (p q : Parser α) (s : TokenStream) : Prop :=
  ∀ ⦃a s'⦄, p s = .ok a s' → q (s.followedBy more size) = .ok a (s'.followedBy more size)

/-- The second reader does with more tokens at the end of the stream what the first one does with
the stream, where that does not reach the end. -/
def PassesAt (p q : Parser α) (s : TokenStream) : Prop :=
  ∀ ⦃a s'⦄, p s = .ok a s' → s'.pending ≠ [] →
    q (s.followedBy more size) = .ok a (s'.followedBy more size)

/-- The second reader does with more tokens at the end of the stream what the first one does with
the stream, unless the first one gets to the end and a star comes then: whatever the second one
gives is in that case related to what the first one gives. -/
def ResumesAt (W : α → α → Prop) (p q : Parser α) (s : TokenStream) : Prop :=
  ∀ ⦃a s'⦄, p s = .ok a s' →
    q (s.followedBy more size) = .ok a (s'.followedBy more size) ∨
      (Glues more ∧ s'.pending = [] ∧ ∀ b t, q (s.followedBy more size) = .ok b t → W a b)

end

variable {more : List Token} {size : Nat} {s : TokenStream}

/-- What is read as before resumes. -/
theorem ResumesAt.of_steady {W : α → α → Prop} {p q : Parser α} (h : SteadyAt more size p q s) :
    ResumesAt more size W p q s :=
  fun _ _ hrun => .inl (h hrun)

/-- What resumes is read as before where it does not reach the end. -/
theorem ResumesAt.passes {W : α → α → Prop} {p q : Parser α} (h : ResumesAt more size W p q s) :
    PassesAt more size p q s := by
  intro a s' hrun hs'
  obtain hq | ⟨-, hend, -⟩ := h hrun
  · exact hq
  · exact (hs' hend).elim

/-- Two parts that are read as before are so together. -/
theorem SteadyAt.bind {p q : Parser α} {f g : α → Parser β} (hp : SteadyAt more size p q s)
    (hf : ∀ a s', p s = .ok a s' → SteadyAt more size (f a) (g a) s') :
    SteadyAt more size (p >>= f) (q >>= g) s := by
  intro b s'' hrun
  obtain ⟨a, s', hps, hrun⟩ := exists_of_bind hrun
  rw [run_bind, hp hps]
  exact hf a s' hps hrun

/-- What needs more tokens after a part is read finds them before the end of the stream. -/
theorem SteadyAt.needs_bind {p q : Parser α} {f g : α → Parser β}
    (hp : PassesAt more size p q s) (hneeds : ∀ a, NeedsMore (f a))
    (hf : ∀ a s', p s = .ok a s' → SteadyAt more size (f a) (g a) s') :
    SteadyAt more size (p >>= f) (q >>= g) s := by
  intro b s'' hrun
  obtain ⟨a, s', hps, hrun⟩ := exists_of_bind hrun
  have hs' : s'.pending ≠ [] := fun hend => hneeds a s' hend b s'' hrun
  rw [run_bind, hp hps hs']
  exact hf a s' hps hrun

/-- After a part that is read as before the rest may resume. -/
theorem ResumesAt.steady_bind {W : β → β → Prop} {p q : Parser α} {f g : α → Parser β}
    (hp : SteadyAt more size p q s)
    (hf : ∀ a s', p s = .ok a s' → ResumesAt more size W (f a) (g a) s') :
    ResumesAt more size W (p >>= f) (q >>= g) s := by
  intro b s'' hrun
  obtain ⟨a, s', hps, hrun⟩ := exists_of_bind hrun
  rw [run_bind, hp hps]
  exact hf a s' hps hrun

/-- What follows a part and needs more begins before the end of the stream, where the part is read
as before. -/
theorem ResumesAt.needs_bind {W : β → β → Prop} {p q : Parser α} {f g : α → Parser β}
    (hp : PassesAt more size p q s) (hneeds : ∀ a, NeedsMore (f a))
    (hf : ∀ a s', p s = .ok a s' → ResumesAt more size W (f a) (g a) s') :
    ResumesAt more size W (p >>= f) (q >>= g) s := by
  intro b s'' hrun
  obtain ⟨a, s', hps, hrun⟩ := exists_of_bind hrun
  have hs' : s'.pending ≠ [] := fun hend => hneeds a s' hend b s'' hrun
  rw [run_bind, hp hps hs']
  exact hf a s' hps hrun

/-- Two parts: where the first one stops at the end, so does the second. -/
theorem ResumesAt.bind {V : α → α → Prop} {W : β → β → Prop} {P : List Token → Prop}
    {p q : Parser α} {f g : α → Parser β}
    (hp : ResumesAt more size V p q s) (htakes : ∀ a, Takes P (f a))
    (hf : ∀ a s', p s = .ok a s' → ResumesAt more size W (f a) (g a) s')
    (hgrows : ∀ a b, V a b → Grows W (f a) (g b)) :
    ResumesAt more size W (p >>= f) (q >>= g) s := by
  intro b s'' hrun
  obtain ⟨a, s', hps, hrun⟩ := exists_of_bind hrun
  obtain hq | ⟨hglues, hend, hrelated⟩ := hp hps
  · rw [run_bind, hq]
    exact hf a s' hps hrun
  · right
    refine ⟨hglues, ?_, ?_⟩
    · obtain ⟨taken, hpending, -⟩ := htakes a hrun
      rw [hend] at hpending
      exact (List.append_eq_nil_iff.1 hpending.symm).2
    · intro d t'' hrun'
      obtain ⟨c, t', hqs, hrun'⟩ := exists_of_bind hrun'
      exact hgrows a c (hrelated c t' hqs) hend hrun hrun'

/-- A node made of the last part. -/
theorem ResumesAt.node {V : α → α → Prop} {W : β → β → Prop} {p q : Parser α} {start : Nat}
    {node : α → Span → β} (hp : ResumesAt more size V p q s)
    (h : ∀ a b span span', V a b → W (node a span) (node b span')) :
    ResumesAt more size W (do return node (← p) (← spanFrom start))
      (do return node (← q) (← spanFrom start)) s := by
  refine .bind hp (fun a => (takes_spanFrom start).bind_tidy fun _ => .pure _) ?_ ?_
  · intro a s' _
    exact .of_steady fun _ _ hrun => by cases hrun; rfl
  · intro a b hab
    exact .spanFrom_bind fun span span' => .pure (h a b span span' hab)

/-- What is made of a result grows with it. -/
theorem ResumesAt.map {V : α → α → Prop} {W : β → β → Prop} {p q : Parser α} {f : α → β}
    (hp : ResumesAt more size V p q s) (h : ∀ a b, V a b → W (f a) (f b)) :
    ResumesAt more size W (f <$> p) (f <$> q) s := by
  rw [map_eq_pure_bind, map_eq_pure_bind]
  refine .bind hp (fun a => .pure (f a)) ?_ fun a b hab => .pure (h a b hab)
  exact fun a s' _ => .of_steady fun _ _ hrun => by cases hrun; rfl

/-- Yielding a value does not depend on the stream. -/
theorem steadyAt_pure (a : α) : SteadyAt more size (Pure.pure a) (Pure.pure a) s := by
  intro _ _ hrun
  cases hrun
  rfl

/-- A reader that fails gives nothing to compare. -/
theorem steadyAt_throw (e : ParseError) (q : Parser α) : SteadyAt more size (throw e) q s :=
  fun _ _ hrun => nomatch hrun

/-- A reader that gives up gives nothing to compare. -/
theorem steadyAt_exhausted (q : Parser α) : SteadyAt more size exhausted q s :=
  fun _ _ hrun => nomatch hrun

/-- The span so far does not depend on what is pending. -/
theorem steadyAt_spanFrom (start : Nat) :
    SteadyAt more size (spanFrom start) (spanFrom start) s := by
  intro _ _ hrun
  cases hrun
  rfl

/-- Where a number was left out does not depend on what is pending. -/
theorem steadyAt_absentNumber (value : Int) :
    SteadyAt more size (absentNumber value) (absentNumber value) s := by
  intro _ _ hrun
  cases hrun
  rfl

/-- After the end of the stream only the new tokens are pending. -/
theorem followedBy_of_nil (hs : s.pending = []) :
    (s.followedBy more size).pending = more.map .ok := by
  unfold TokenStream.followedBy
  rw [hs]
  rfl

/-- Looking at a token leaves the stream as it is. -/
theorem eq_of_peek {s s' : TokenStream} {token : Token} (h : peek s = .ok token s') : s' = s := by
  unfold peek at h
  split at h <;> cases h <;> rfl

/-- Before the end of the stream, the next token is the same. -/
theorem steadyAt_peek (hs : s.pending ≠ []) : SteadyAt more size peek peek s := by
  intro token s' hrun
  unfold peek TokenStream.followedBy at *
  split at hrun
  · exact (hs ‹_›).elim
  · cases hrun
    rw [‹s.pending = _›]
    rfl
  · cases hrun

/-- A token that is pending is taken as before. -/
theorem steadyAt_take (hs : s.pending ≠ []) : SteadyAt more size take take s := by
  intro token s' hrun
  unfold take TokenStream.followedBy at *
  split at hrun
  · exact (hs ‹_›).elim
  · cases hrun
    rw [‹s.pending = _›]
    rfl
  · cases hrun

/-- A token that is expected and found was pending, so it is found as before. -/
theorem steadyAt_expect {kind : Token.Kind} (hkind : kind ≠ .endOfText) :
    SteadyAt more size (expect kind) (expect kind) s := by
  by_cases hs : s.pending = []
  · exact fun token s' hrun => (needsMore_expect hkind s hs token s' hrun).elim
  · refine .bind (steadyAt_take hs) fun token s' _ => ?_
    split
    · exact steadyAt_pure token
    · split <;> exact steadyAt_throw _ _

/-- Whether a pending token is accepted does not depend on what follows. -/
theorem steadyAt_accept_of_ne (hs : s.pending ≠ []) (kind : Token.Kind) :
    SteadyAt more size (accept kind) (accept kind) s := by
  refine .bind (steadyAt_peek hs) fun token s' hrun => ?_
  obtain rfl := eq_of_peek hrun
  split
  · exact .bind (steadyAt_take hs) fun _ _ _ => steadyAt_pure true
  · exact steadyAt_pure false

/-- A token that opens no expression is not accepted from the tokens to come. -/
theorem steadyAt_accept (hmore : Opens more) {kind : Token.Kind} (hend : kind ≠ .endOfText)
    (hkind : kind.opens = false) : SteadyAt more size (accept kind) (accept kind) s := by
  by_cases hs : s.pending = []
  · intro accepted s' hrun
    rw [accept_of_nil hend hs] at hrun
    cases hrun
    cases more with
    | nil => exact accept_of_nil hend (followedBy_of_nil hs)
    | cons token rest =>
        have hopens := (hmore token rest rfl).2
        have hne : token.kind ≠ kind := by
          rintro rfl
          rw [hkind] at hopens
          cases hopens
        unfold accept
        rw [run_bind, peek_of_cons (followedBy_of_nil hs)]
        dsimp only
        rw [if_neg hne]
        rfl
  · exact steadyAt_accept_of_ne hs kind

/-- A number on a new line is no count. -/
theorem steadyAt_carry (hmore : Opens more) : SteadyAt more size carry carry s := by
  by_cases hs : s.pending = []
  · intro count s' hrun
    unfold carry at hrun ⊢
    rw [run_bind, peek_of_nil hs] at hrun
    cases hrun
    cases more with
    | nil =>
        rw [run_bind, peek_of_nil (followedBy_of_nil hs)]
        rfl
    | cons token rest =>
        have hline := (hmore token rest rfl).1
        rw [run_bind, peek_of_cons (followedBy_of_nil hs)]
        dsimp only
        rw [hline, Bool.not_true, Bool.and_false]
        rfl
  · refine .bind (steadyAt_peek hs) fun token s' hrun => ?_
    obtain rfl := eq_of_peek hrun
    split
    · refine .bind (steadyAt_take hs) fun _ _ _ => ?_
      dsimp only
      split
      · exact steadyAt_pure _
      · exact steadyAt_throw _ _
    · exact steadyAt_pure _

/-- A reader that takes from the front of the stream and is steady before the end. -/
theorem PassesAt.of_takes {P : List Token → Prop} {p q : Parser α} (htakes : Takes P p)
    (h : s.pending ≠ [] → SteadyAt more size p q s) : PassesAt more size p q s := by
  intro a s' hrun hs'
  refine h (fun hs => hs' ?_) hrun
  obtain ⟨taken, hpending, -⟩ := htakes hrun
  rw [hs] at hpending
  exact (List.append_eq_nil_iff.1 hpending.symm).2

/-- A token after which others are pending is taken as before. -/
theorem passesAt_take : PassesAt more size take take s := .of_takes takes_take steadyAt_take

/-- Accepting a token after which others are pending goes as before. -/
theorem passesAt_accept {kind : Token.Kind} (hend : kind ≠ .endOfText)
    (hsemicolon : kind ≠ .symbol .semicolon) : PassesAt more size (accept kind) (accept kind) s :=
  .of_takes (takes_accept hend hsemicolon) fun hs => steadyAt_accept_of_ne hs kind

/-- Semicolons before something else are skipped as before. -/
theorem passesAt_skipSemicolons : PassesAt more size skipSemicolons skipSemicolons s := by
  intro _ t hrun ht
  refine skipSemicolons_induction (P := fun s t => t.pending ≠ [] →
    skipSemicolons (s.followedBy more size) = .ok () (t.followedBy more size)) ?_ ?_ hrun ht
  · intro s hs hne
    refine skipSemicolons_of_beforeOther fun token rest heq => ?_
    obtain ⟨item, items, hitems⟩ := List.exists_cons_of_ne_nil hne
    rw [TokenStream.followedBy, hitems, List.cons_append] at heq
    exact hs token items (hitems.trans (congrArg (· :: items) (List.cons.inj heq).1))
  · intro token rest size' stop t hkind ih hne
    exact (skipSemicolons_of_semicolon hkind _ _ _).trans (ih hne)

/-! ## Optional parts -/

section

variable {p q d : Parser α} {kind : Token.Kind} {start : Nat}
  {node : α → Span → β} {V : α → α → Prop} {W : β → β → Prop}

/-- An optional part is read as before, or it grows: none of the new tokens can begin it. -/
theorem resumesAt_withOptional (hmore : Opens more) (hend : kind ≠ .endOfText)
    (hopens : kind.opens = false) (hp : ∀ s, ResumesAt more size V p q s)
    (hd : ∀ s, SteadyAt more size d d s)
    (hnode : ∀ a b span span', V a b → W (node a span) (node b span')) :
    ResumesAt more size W (withOptional kind p d start node) (withOptional kind q d start node)
      s := by
  refine .steady_bind (steadyAt_accept hmore hend hopens) fun accepted s' _ => ?_
  split
  · exact .node (hp s') hnode
  · refine .of_steady (.bind (hd s') fun a s'' _ => ?_)
    exact .bind (steadyAt_spanFrom _) fun _ _ _ => steadyAt_pure _

/-- Where the optional part may come after the end of the stream, the node with the default is
related to the node with whatever comes. -/
theorem Grows.withOptional {D : α → Prop} {node' : α → Span → β} {start' : Nat}
    (hend : kind ≠ .endOfText) (hsemicolon : kind ≠ .symbol .semicolon) (hd : Takes Tidy d)
    (hdefault : ∀ ⦃s a s'⦄, d s = .ok a s' → D a)
    (hnode : ∀ a b span span', D a → W (node a span) (node' b span')) :
    Grows W (withOptional kind p d start node) (withOptional kind q d start' node') := by
  have hrest (r : Parser α) : Grows W (do return node (← d) (← spanFrom start))
      (do return node' (← r) (← spanFrom start')) := by
    refine .bind (W := fun a _ => D a) hd (fun _ _ _ _ hrun _ _ _ _ => hdefault hrun) ?_
    intro a b ha
    exact .spanFrom_bind fun span span' => .pure (hnode a b span span' ha)
  refine .accept_bind hend hsemicolon fun accepted => ?_
  rw [if_neg Bool.false_ne_true]
  split
  · exact hrest q
  · exact hrest d

end

end Parser

end ListScript
