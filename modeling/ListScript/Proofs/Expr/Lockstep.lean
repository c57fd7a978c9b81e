import ListScript.Expr.Parser
import ListScript.Proofs.Expr.Erasure
import ListScript.Proofs.Number.Literal

/-!
# Reading two streams in lockstep

A relation between streams is a `Parser.Lockstep` if looking at and taking tokens on both sides
gives tokens of the same kind, text and line, or fails on both sides. Reading uses a token's place
for nothing but the places of nodes, so it passes from related streams to trees that are alike:
`Lockstep.expressionWithin`. A property of one stream is the case in which both sides are the same.
-/

namespace ListScript

/-- The tokens differ in their place only, and a name among them is one. -/
structure Token.Alike (a b : Token) : Prop where
  kind_eq : a.kind = b.kind
  lexeme_eq : a.lexeme = b.lexeme
  startsLine_eq : a.startsLine = b.startsLine
  isName : a.kind = .identifier → Token.isName a.lexeme = true

namespace Parser

variable {S : TokenStream → TokenStream → Prop} {F : ParseError → ParseError → Prop}
variable {α β γ δ : Type}

/-- Two runs have the same outcome: related values, or related errors, and related streams. -/
def Meets (S : TokenStream → TokenStream → Prop) (F : ParseError → ParseError → Prop)
    (R : α → β → Prop) :
    EStateM.Result ParseError TokenStream α → EStateM.Result ParseError TokenStream β → Prop
  | .ok a s, .ok b t => R a b ∧ S s t
  | .error e s, .error e' t => F e e' ∧ S s t
  | _, _ => False

/-- From related streams the two readers have the same outcome. -/
def InStep (S : TokenStream → TokenStream → Prop) (F : ParseError → ParseError → Prop)
    (R : α → β → Prop) (p : Parser α) (q : Parser β) : Prop :=
  ∀ ⦃s t⦄, S s t → Meets S F R (p s) (q t)

/-- A relation between streams under which the elementary steps of reading agree. -/
structure Lockstep (S : TokenStream → TokenStream → Prop)
    (F : ParseError → ParseError → Prop) : Prop where
  peek : InStep S F Token.Alike Parser.peek Parser.peek
  take : InStep S F Token.Alike Parser.take Parser.take
  skipSemicolons : InStep S F (fun _ _ => True) Parser.skipSemicolons Parser.skipSemicolons
  throw : ∀ cause span span', F ⟨cause, span⟩ ⟨cause, span'⟩

/-! ## Sequencing -/

/-- A sequence of readers stops at the first failure. -/
theorem run_bind (p : Parser α) (f : α → Parser β) (s : TokenStream) :
    (p >>= f) s = match p s with
      | .ok a s' => f a s'
      | .error e s' => .error e s' := by
  show EStateM.bind p f s = _
  unfold EStateM.bind
  cases p s <;> rfl

/-- A sequence of readers that succeeds has parts that succeed. -/
theorem exists_of_bind {p : Parser α} {f : α → Parser β} {s s'' : TokenStream} {b : β}
    (h : (p >>= f) s = .ok b s'') : ∃ a s', p s = .ok a s' ∧ f a s' = .ok b s'' := by
  rw [run_bind] at h
  cases hp : p s with
  | error e s' => rw [hp] at h; cases h
  | ok a s' =>
      rw [hp] at h
      exact ⟨a, s', rfl, h⟩

namespace InStep

/-- Readers that yield related things without reading. -/
theorem pure {R : α → β → Prop} {a : α} {b : β} (h : R a b) :
    InStep S F R (Pure.pure a) (Pure.pure b) :=
  fun _ _ hst => ⟨h, hst⟩

/-- Sequences are in step if their parts are. -/
theorem bind {R : α → β → Prop} {R' : γ → δ → Prop} {p : Parser α} {q : Parser β}
    {f : α → Parser γ} {g : β → Parser δ} (hp : InStep S F R p q)
    (hf : ∀ a b, R a b → InStep S F R' (f a) (g b)) : InStep S F R' (p >>= f) (q >>= g) := by
  intro s t hst
  have h := hp hst
  rw [run_bind, run_bind]
  cases hps : p s <;> cases hqt : q t <;> rw [hps, hqt] at h
  case ok.ok a s' b t' => exact hf a b h.1 h.2
  case error.error => exact h
  all_goals exact h.elim

/-- What is made of related things is related, if making keeps to that. -/
theorem map {R : α → β → Prop} {R' : γ → δ → Prop} {p : Parser α} {q : Parser β}
    {f : α → γ} {g : β → δ} (hp : InStep S F R p q) (hf : ∀ a b, R a b → R' (f a) (g b)) :
    InStep S F R' (f <$> p) (g <$> q) := by
  rw [map_eq_pure_bind, map_eq_pure_bind]
  exact bind hp fun a b h => pure (hf a b h)

end InStep

/-! ## What reading makes of parts -/

/-- A push between legible expressions is legible. -/
theorem every_legible_pushInto {target value : Expr} (span : Span)
    (ht : target.every Expr.legible = true) (hv : value.every Expr.legible = true) :
    (pushInto span target value).every Expr.legible = true := by
  cases target <;> simp_all [pushInto, Span.empty]

/-- A pop from a legible expression is legible. -/
theorem every_legible_popFrom {source : Expr} (span : Span)
    (hs : source.every Expr.legible = true) :
    (popFrom span source).every Expr.legible = true := by
  cases source <;> simp_all [popFrom, Span.empty]

/-- Without its places, a push is a push between its parts without theirs. -/
theorem erase_pushInto (span : Span) (target value : Expr) :
    (pushInto span target value).erase = pushInto (.empty 0) target.erase value.erase := by
  cases target with
  | branch _ _ _ failure => cases failure <;> rfl
  | _ => rfl

/-- Without its places, a pop is a pop from its part without places. -/
theorem erase_popFrom (span : Span) (source : Expr) :
    (popFrom span source).erase = popFrom (.empty 0) source.erase := by
  cases source with
  | branch _ _ _ failure => cases failure <;> rfl
  | _ => rfl

/-- Pushes between expressions that are alike are alike. -/
theorem pushInto_alike {target target' value value' : Expr} (span span' : Span)
    (ht : target.Alike target') (hv : value.Alike value') :
    (pushInto span target value).Alike (pushInto span' target' value') := by
  refine ⟨?_, every_legible_pushInto span ht.2.1 hv.2.1, every_legible_pushInto span' ht.2.2 hv.2.2⟩
  rw [erase_pushInto, erase_pushInto, ht.1, hv.1]

/-- Pops from expressions that are alike are alike. -/
theorem popFrom_alike {source source' : Expr} (span span' : Span) (hs : source.Alike source') :
    (popFrom span source).Alike (popFrom span' source') := by
  refine ⟨?_, every_legible_popFrom span hs.2.1, every_legible_popFrom span' hs.2.2⟩
  rw [erase_popFrom, erase_popFrom, hs.1]

/-- The function literal that a body makes: a block gives its expressions, anything else is the only
one. -/
def functionOf (span : Span) (parameters : List String) : Expr → Expr
  | .block bodySpan items => .function span parameters items bodySpan
  | e => .function span parameters [e] e.span

/-- Reading the body of a function is reading an expression and making a function of it. -/
theorem functionBody_eq (x : Nat → Parser Expr) (start : Nat) (parameters : List String) :
    functionBody x start parameters = (do
      let body ← x 0
      return functionOf (← spanFrom start) parameters body) := by
  unfold functionBody
  congr 1
  funext body
  cases body <;> rfl

/-- Without its places, a function has its body without places. -/
theorem erase_functionOf (span : Span) (parameters : List String) (body : Expr) :
    (functionOf span parameters body).erase = functionOf (.empty 0) parameters body.erase := by
  cases body with
  | branch _ _ _ failure => cases failure <;> rfl
  | _ => rfl

/-- A function with legible parameters and a legible body is legible. -/
theorem every_legible_functionOf {parameters : List String} {body : Expr} (span : Span)
    (hnames : ∀ name ∈ parameters, Token.isName name = true)
    (hbody : body.every Expr.legible = true) :
    (functionOf span parameters body).every Expr.legible = true := by
  cases body <;> simp_all [functionOf]

/-- Functions with the same parameters and bodies that are alike are alike. -/
theorem functionOf_alike {parameters : List String} {body body' : Expr} (span span' : Span)
    (hnames : ∀ name ∈ parameters, Token.isName name = true) (hbody : body.Alike body') :
    (functionOf span parameters body).Alike (functionOf span' parameters body') := by
  refine ⟨?_, every_legible_functionOf span hnames hbody.2.1,
    every_legible_functionOf span' hnames hbody.2.2⟩
  rw [erase_functionOf, erase_functionOf, hbody.1]

namespace Lockstep

variable (step : Lockstep S F)

include step

/-- Failing for the same cause on both sides is in step. -/
theorem throw_inStep (R : α → β → Prop) (cause : ParseError.Cause) (span span' : Span) :
    InStep S F R (MonadExcept.throw ⟨cause, span⟩ : Parser α)
      (MonadExcept.throw ⟨cause, span'⟩ : Parser β) :=
  fun _ _ hst => ⟨step.throw cause span span', hst⟩

/-- Giving up on both sides is in step. -/
theorem exhausted (R : α → β → Prop) :
    InStep S F R (Parser.exhausted : Parser α) (Parser.exhausted : Parser β) :=
  fun _ _ hst => ⟨step.throw _ _ _, hst⟩

omit step in
/-- The places of nodes are free. -/
theorem spanFrom (start start' : Nat) :
    InStep S F (fun _ _ => True) (Parser.spanFrom start) (Parser.spanFrom start') :=
  fun _ _ hst => ⟨trivial, hst⟩

omit step in
/-- A number that is left out stands nowhere, on both sides. -/
theorem absentNumber (value : Int) :
    InStep S F Expr.Alike (Parser.absentNumber value) (Parser.absentNumber value) :=
  fun _ _ hst => ⟨by simp [Expr.Alike, Span.empty], hst⟩

/-- Taking a token of a given kind is in step. -/
theorem expect (kind : Token.Kind) :
    InStep S F Token.Alike (Parser.expect kind) (Parser.expect kind) := by
  refine .bind step.take fun a b hab => ?_
  rw [← hab.kind_eq]
  split
  · exact .pure hab
  · split
    · exact step.throw_inStep _ _ _ _
    · exact step.throw_inStep _ _ _ _

/-- Accepting a token of a given kind is in step. -/
theorem accept (kind : Token.Kind) :
    InStep S F Eq (Parser.accept kind) (Parser.accept kind) := by
  refine .bind step.peek fun a b hab => ?_
  rw [← hab.kind_eq]
  split
  · exact .bind step.take fun _ _ _ => .pure rfl
  · exact .pure rfl

/-- A name that was asked for is a name. -/
theorem expectName :
    InStep S F (fun a b => Token.isName a.lexeme = true ∧ a.lexeme = b.lexeme)
      (Parser.expect .identifier) (Parser.expect .identifier) := by
  refine .bind step.take fun a b hab => ?_
  rw [← hab.kind_eq]
  split
  · rename_i hkind
    exact .pure ⟨hab.isName hkind, hab.lexeme_eq⟩
  · split
    · exact step.throw_inStep _ _ _ _
    · exact step.throw_inStep _ _ _ _

/-! ## Sequences -/

section

variable {x : Nat → Parser Expr} (hx : ∀ least, InStep S F Expr.Alike (x least) (x least))

include hx

/-- Sequences of expressions are read in step. -/
theorem sequence (closing : Token.Kind) (rounds : Nat) :
    InStep S F Expr.AlikeAll (Parser.sequence x closing rounds)
      (Parser.sequence x closing rounds) := by
  induction rounds with
  | zero => exact step.exhausted _
  | succ rounds ih =>
      unfold Parser.sequence
      refine .bind step.skipSemicolons fun _ _ _ => ?_
      refine .bind step.peek fun a b hab => ?_
      rw [← hab.kind_eq]
      split
      · exact .pure .nil
      · split
        · exact step.throw_inStep _ _ _ _
        · refine .bind (hx 0) fun e e' he => ?_
          exact .bind ih fun es es' hes => .pure (hes.cons he)

/-- Arguments up to a closing symbol are read in step. -/
theorem arguments (closing : Symbol) (rounds : Nat) :
    InStep S F Expr.AlikeAll (Parser.arguments x closing rounds)
      (Parser.arguments x closing rounds) := by
  induction rounds with
  | zero => exact step.exhausted _
  | succ rounds ih =>
      unfold Parser.arguments
      refine .bind (step.accept _) ?_
      rintro closed _ rfl
      cases closed with
      | true => exact .pure .nil
      | false =>
          refine .bind (hx 0) fun e e' he => ?_
          refine .bind (step.accept _) ?_
          rintro more _ rfl
          cases more with
          | true => exact .bind ih fun es es' hes => .pure (hes.cons he)
          | false => exact .bind (step.expect _) fun _ _ _ => .pure (.cons he .nil)

/-- Expressions between commas are read in step. -/
theorem commaSeparated (rounds : Nat) :
    InStep S F Expr.AlikeAll (Parser.commaSeparated x rounds) (Parser.commaSeparated x rounds) := by
  induction rounds with
  | zero => exact step.exhausted _
  | succ rounds ih =>
      unfold Parser.commaSeparated
      refine .bind (hx 0) fun e e' he => ?_
      refine .bind (step.accept _) ?_
      rintro more _ rfl
      cases more with
      | true => exact .bind ih fun es es' hes => .pure (hes.cons he)
      | false => exact .pure (.cons he .nil)

/-! ## Continuations -/

/-- Assignments to expressions that are alike are read in step. -/
theorem assignment (operator : AssignOp) {target target' : Expr} (htarget : target.Alike target') :
    InStep S F Expr.Alike (Parser.assignment x operator target)
      (Parser.assignment x operator target') := by
  unfold Parser.assignment
  refine .bind (hx _) fun value value' hvalue => ?_
  have hassigned : (assignedValue operator target value).Alike
      (assignedValue operator target' value') := by
    cases operator with
    | compound operator => exact htarget.binary operator hvalue
    | plain | const => exact hvalue
  refine .bind (step.accept _) ?_
  rintro limited _ rfl
  -- The limit is read or filled in; the rest is the same in both cases.
  have hrest : ∀ limit limit', Expr.Alike limit limit' →
      InStep S F Expr.Alike
        (do return .assign (← Parser.spanFrom target.span.start) target
              (assignedValue operator target value) limit ⟨operator = .const, false⟩)
        (do return .assign (← Parser.spanFrom target'.span.start) target'
              (assignedValue operator target' value') limit' ⟨operator = .const, false⟩) :=
    fun limit limit' hlimit =>
      .bind (spanFrom _ _) fun _ _ _ => .pure (htarget.assign _ hassigned hlimit)
  cases limited with
  | true => exact .bind (hx _) hrest
  | false => exact .bind (absentNumber _) hrest

/-- Expressions that are alike are continued in step. -/
theorem extend (rounds : Nat) (continuation : Continuation) {lhs lhs' : Expr}
    (hlhs : lhs.Alike lhs') :
    InStep S F Expr.Alike (Parser.extend x rounds lhs continuation)
      (Parser.extend x rounds lhs' continuation) := by
  cases continuation with
  | call =>
      refine .bind (step.arguments hx _ _) fun items items' hitems => ?_
      exact .bind (spanFrom _ _) fun _ _ _ => .pure (hlhs.call hitems)
  | index =>
      refine .bind (hx _) fun position position' hposition => ?_
      refine .bind (step.expect _) fun _ _ _ => ?_
      exact .bind (spanFrom _ _) fun _ _ _ => .pure (hlhs.index hposition)
  | method =>
      refine .bind (step.expectName) ?_
      rintro a b ⟨hname, hlexeme⟩
      refine .bind (step.expect _) fun _ _ _ => ?_
      refine .bind (step.arguments hx _ _) fun items items' hitems => ?_
      refine .bind (spanFrom _ _) fun _ _ _ => .pure ?_
      rw [← hlexeme]
      exact .method hname hlhs hitems
  | update step => exact .bind (spanFrom _ _) fun _ _ _ => .pure (hlhs.update _ _)
  | binary operator =>
      refine .bind (hx _) fun rhs rhs' hrhs => ?_
      exact .bind (spanFrom _ _) fun _ _ _ => .pure (hlhs.binary operator hrhs)
  | assign operator => exact step.assignment hx operator hlhs
  | range inclusive =>
      refine .bind (hx _) fun last last' hlast => ?_
      refine .bind (step.accept _) ?_
      rintro stepped _ rfl
      have hrest : ∀ size size', Expr.Alike size size' →
          InStep S F Expr.Alike
            (do return .range (← Parser.spanFrom lhs.span.start) lhs last size inclusive)
            (do return .range (← Parser.spanFrom lhs'.span.start) lhs' last' size' inclusive) :=
        fun size size' hsize =>
          .bind (spanFrom _ _) fun _ _ _ => .pure (hlhs.range inclusive hlast hsize)
      cases stepped with
      | true => exact .bind (hx _) hrest
      | false => exact .bind (absentNumber _) hrest
  | push =>
      refine .bind (hx _) fun value value' hvalue => ?_
      exact .bind (spanFrom _ _) fun _ _ _ => .pure (pushInto_alike _ _ hlhs hvalue)
  | shift =>
      refine .bind (hx _) fun target target' htarget => ?_
      exact .bind (spanFrom _ _) fun _ _ _ => .pure (hlhs.shift htarget)

/-- Expressions that are alike go on in step. -/
theorem continued (room least rounds : Nat) {lhs lhs' : Expr} (hlhs : lhs.Alike lhs') :
    InStep S F Expr.Alike (Parser.continued x room least rounds lhs)
      (Parser.continued x room least rounds lhs') := by
  induction rounds generalizing lhs lhs' with
  | zero => exact step.exhausted _
  | succ rounds ih =>
      unfold Parser.continued
      refine .bind step.peek fun a b hab => ?_
      have htoken : Continuation.ofToken? a = Continuation.ofToken? b := by
        unfold Continuation.ofToken?
        rw [hab.kind_eq, hab.startsLine_eq]
      rw [← htoken]
      split
      · exact .pure hlhs
      · split
        · exact .pure hlhs
        · refine .bind step.take fun _ _ _ => ?_
          exact .bind (step.extend hx room _ hlhs) fun _ _ h => ih h

/-! ## Operands -/

omit hx in
/-- Expressions that are alike are the same parameter, or none. -/
theorem parameter {e e' : Expr} (h : e.Alike e') :
    InStep S F (fun name name' => Token.isName name = true ∧ name = name')
      (Parser.parameter e) (Parser.parameter e') := by
  unfold Parser.parameter
  split
  · obtain ⟨hname, span', rfl⟩ := h.of_identifier
    exact .pure ⟨hname, rfl⟩
  · rename_i hnot
    split
    · obtain ⟨-, span', rfl⟩ := h.symm.of_identifier
      exact (hnot _ _ rfl).elim
    · exact step.throw_inStep _ _ _ _

omit hx in
/-- Expressions that are alike are the same parameters, or none. -/
theorem parameters {es es' : List Expr} (h : Expr.AlikeAll es es') :
    InStep S F (fun names names' => (∀ name ∈ names, Token.isName name = true) ∧ names = names')
      (es.mapM Parser.parameter) (es'.mapM Parser.parameter) := by
  induction es generalizing es' with
  | nil =>
      cases es' with
      | nil => exact .pure (by simp)
      | cons => simp [Expr.AlikeAll] at h
  | cons e es ih =>
      cases es' with
      | nil => simp [Expr.AlikeAll] at h
      | cons e' es' =>
          obtain ⟨he, hes⟩ := h.of_cons
          rw [List.mapM_cons, List.mapM_cons]
          refine .bind (step.parameter he) ?_
          rintro name _ ⟨hname, rfl⟩
          refine .bind (ih hes) ?_
          rintro names _ ⟨hnames, rfl⟩
          exact .pure ⟨by simpa using ⟨hname, hnames⟩, rfl⟩

omit step in
/-- The bodies of functions with the same parameters are read in step. -/
theorem functionBody (start start' : Nat) {parameters : List String}
    (hnames : ∀ name ∈ parameters, Token.isName name = true) :
    InStep S F Expr.Alike (Parser.functionBody x start parameters)
      (Parser.functionBody x start' parameters) := by
  rw [functionBody_eq, functionBody_eq]
  refine .bind (hx _) fun body body' hbody => ?_
  exact .bind (spanFrom _ _) fun _ _ _ => .pure (functionOf_alike _ _ hnames hbody)

/-- What begins with a parenthesis is read in step. -/
theorem groupOrFunction (rounds start start' : Nat) :
    InStep S F Expr.Alike (Parser.groupOrFunction x rounds start)
      (Parser.groupOrFunction x rounds start') := by
  unfold Parser.groupOrFunction
  refine .bind (step.accept _) ?_
  rintro closed _ rfl
  cases closed with
  | true =>
      refine .bind (step.expect _) fun _ _ _ => ?_
      exact functionBody hx _ _ (by simp)
  | false =>
      refine .bind (hx _) fun first first' hfirst => ?_
      refine .bind (step.accept _) ?_
      rintro more _ rfl
      cases more with
      | true =>
          refine .bind (step.commaSeparated hx _) fun rest rest' hrest => ?_
          refine .bind (step.expect _) fun _ _ _ => ?_
          refine .bind (step.expect _) fun _ _ _ => ?_
          refine .bind (step.parameters (hrest.cons hfirst)) ?_
          rintro names _ ⟨hnames, rfl⟩
          exact functionBody hx _ _ hnames
      | false =>
          refine .bind (step.expect _) fun _ _ _ => ?_
          refine .bind (step.accept _) ?_
          rintro arrow _ rfl
          cases arrow with
          | true =>
              refine .bind (step.parameter hfirst) ?_
              rintro name _ ⟨hname, rfl⟩
              exact functionBody hx _ _ (by simpa using hname)
          | false => exact .bind (spanFrom _ _) fun _ _ _ => .pure hfirst.group

/-- Loops are read in step. -/
theorem loop (start start' : Nat) :
    InStep S F Expr.Alike (Parser.loop x start) (Parser.loop x start') := by
  unfold Parser.loop
  refine .bind (step.accept _) ?_
  rintro opened _ rfl
  cases opened with
  | true =>
      refine .bind (hx _) fun initial initial' hinitial => ?_
      refine .bind (step.expect _) fun _ _ _ => ?_
      refine .bind (hx _) fun condition condition' hcondition => ?_
      refine .bind (step.expect _) fun _ _ _ => ?_
      refine .bind (hx _) fun size size' hsize => ?_
      refine .bind (step.expect _) fun _ _ _ => ?_
      refine .bind (hx _) fun body body' hbody => ?_
      exact .bind (spanFrom _ _) fun _ _ _ => .pure (hinitial.forLoop hcondition hsize hbody)
  | false =>
      refine .bind step.expectName ?_
      rintro a b ⟨hname, hlexeme⟩
      refine .bind step.take fun keyword keyword' hkeyword => ?_
      have hwalk : ∀ walk,
          InStep S F Expr.Alike
            (do
              let enumerable ← x 0
              let body ← x 0
              return .forEach (← Parser.spanFrom start) walk a.lexeme enumerable body)
            (do
              let enumerable ← x 0
              let body ← x 0
              return .forEach (← Parser.spanFrom start') walk b.lexeme enumerable body) := by
        intro walk
        refine .bind (hx _) fun enumerable enumerable' henumerable => ?_
        refine .bind (hx _) fun body body' hbody => ?_
        refine .bind (spanFrom _ _) fun _ _ _ => .pure ?_
        rw [← hlexeme]
        exact .forEach walk hname henumerable hbody
      rw [← hkeyword.kind_eq]
      split
      · exact hwalk _
      · exact hwalk _
      · exact .bind (step.throw_inStep Eq _ _ _) fun _ _ h => h ▸ hwalk _

omit hx in
/-- How many loops a signal leaves is read in step. -/
theorem carry : InStep S F Eq Parser.carry Parser.carry := by
  unfold Parser.carry
  refine .bind step.peek fun a b hab => ?_
  rw [← hab.kind_eq, ← hab.startsLine_eq, ← hab.lexeme_eq]
  split
  · refine .bind step.take fun _ _ _ => ?_
    dsimp only
    split
    · exact .pure rfl
    · exact step.throw_inStep _ _ _ _
  · exact .pure rfl

omit step in
/-- Signs and their operands are read in step. -/
theorem unary (start start' : Nat) (operator : Unary) :
    InStep S F Expr.Alike (Parser.unary x start operator) (Parser.unary x start' operator) := by
  refine .bind (hx _) fun operand operand' hoperand => ?_
  exact .bind (spanFrom _ _) fun _ _ _ => .pure (hoperand.unary operator)

omit step in
/-- Steps and their operands are read in step. -/
theorem update (start start' : Nat) (size : Step) :
    InStep S F Expr.Alike (Parser.update x start size) (Parser.update x start' size) := by
  refine .bind (hx _) fun operand operand' hoperand => ?_
  exact .bind (spanFrom _ _) fun _ _ _ => .pure (hoperand.update size false)

/-- Operands that begin with the same symbol are read in step. -/
theorem symbolOperand (rounds : Nat) (a b : Token) (symbol : Symbol) :
    InStep S F Expr.Alike (Parser.symbolOperand x rounds a symbol)
      (Parser.symbolOperand x rounds b symbol) := by
  unfold Parser.symbolOperand
  split
  · refine .bind (step.arguments hx _ _) fun items items' hitems => ?_
    exact .bind (spanFrom _ _) fun _ _ _ => .pure (.list hitems)
  · refine .bind (step.sequence hx _ _) fun body body' hbody => ?_
    refine .bind (step.expect _) fun _ _ _ => ?_
    exact .bind (spanFrom _ _) fun _ _ _ => .pure (.block hbody)
  · exact step.groupOrFunction hx _ _ _
  · exact unary hx _ _ _
  · exact unary hx _ _ _
  · exact unary hx _ _ _
  · exact update hx _ _ _
  · exact update hx _ _ _
  · refine .bind (hx _) fun source source' hsource => ?_
    exact .bind (spanFrom _ _) fun _ _ _ => .pure (popFrom_alike _ _ hsource)
  · refine .bind (hx _) fun e e' he => ?_
    split
    · obtain ⟨_, _, _, _, rfl, htarget, hvalue, hlimit⟩ := he.of_assign
      exact .bind (spanFrom _ _) fun _ _ _ => .pure (htarget.assign _ hvalue hlimit)
    · rename_i hnot
      split
      · obtain ⟨_, _, _, _, rfl, -⟩ := he.symm.of_assign
        exact (hnot _ _ _ _ _ rfl).elim
      · exact step.throw_inStep _ _ _ _
  · exact step.throw_inStep _ _ _ _

/-- Operands that begin with the same keyword are read in step. -/
theorem keywordOperand (a b : Token) (keyword : Keyword) :
    InStep S F Expr.Alike (Parser.keywordOperand x a keyword)
      (Parser.keywordOperand x b keyword) := by
  unfold Parser.keywordOperand
  split
  · exact .pure (by simp [Expr.Alike])
  · exact .pure (by simp [Expr.Alike])
  · exact .pure (by simp [Expr.Alike])
  · refine .bind (hx _) fun condition condition' hcondition => ?_
    refine .bind (hx _) fun success success' hsuccess => ?_
    refine .bind (step.accept _) ?_
    rintro otherwise _ rfl
    cases otherwise with
    | true =>
        refine .bind (R := fun failure failure' =>
          ∃ e e', failure = some e ∧ failure' = some e' ∧ e.Alike e') ?_ ?_
        · exact .map (hx _) fun e e' he => ⟨e, e', rfl, rfl, he⟩
        · rintro _ _ ⟨e, e', rfl, rfl, he⟩
          exact .bind (spanFrom _ _) fun _ _ _ => .pure (hcondition.branchElse hsuccess he)
    | false =>
        refine .bind (R := fun failure failure' => failure = none ∧ failure' = none)
          (.pure ⟨rfl, rfl⟩) ?_
        rintro _ _ ⟨rfl, rfl⟩
        exact .bind (spanFrom _ _) fun _ _ _ => .pure (hcondition.branch hsuccess)
  · refine .bind (hx _) fun condition condition' hcondition => ?_
    refine .bind (hx _) fun body body' hbody => ?_
    exact .bind (spanFrom _ _) fun _ _ _ => .pure (hcondition.whileLoop hbody)
  · exact step.loop hx _ _
  · refine .bind step.carry ?_
    rintro count _ rfl
    exact .bind (spanFrom _ _) fun _ _ _ => .pure (by simp [Expr.Alike])
  · refine .bind step.carry ?_
    rintro count _ rfl
    exact .bind (spanFrom _ _) fun _ _ _ => .pure (by simp [Expr.Alike])
  · exact step.throw_inStep _ _ _ _

/-- Operands are read in step. -/
theorem operand (rounds : Nat) :
    InStep S F Expr.Alike (Parser.operand x rounds) (Parser.operand x rounds) := by
  unfold Parser.operand
  refine .bind step.take fun a b hab => ?_
  unfold operandOf
  rw [← hab.kind_eq, ← hab.lexeme_eq]
  split
  · exact .pure (by simp [Expr.Alike, Number.eq_ofLiteral_neg_one])
  · exact .pure (by simp [Expr.Alike])
  · exact .pure (by simp [Expr.Alike])
  · rename_i hkind
    exact .pure (by simp [Expr.Alike, hab.isName hkind])
  · exact step.keywordOperand hx _ _ _
  · exact step.symbolOperand hx _ _ _ _
  · exact step.throw_inStep _ _ _ _

end

/-! ## The knot -/

/-- Reading an expression on both sides gives trees that are alike, or fails on both. -/
theorem expressionWithin (room least : Nat) :
    InStep S F Expr.Alike (Parser.expressionWithin room least)
      (Parser.expressionWithin room least) := by
  induction room generalizing least with
  | zero => exact step.exhausted _
  | succ room ih =>
      unfold Parser.expressionWithin
      refine .bind (step.operand ih _) fun lhs lhs' hlhs => ?_
      exact step.continued ih _ _ _ hlhs

end Lockstep

end Parser

end ListScript
