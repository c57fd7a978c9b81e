import ListScript.Proofs.Expr.Chain
import ListScript.Proofs.Expr.Layout

/-!
# Precedence

A chain of operators on one line is read as its grouped tree (`Chain.expression_text`). The argument
is about tokens that stand nowhere, for which trees and streams are equal and not only alike: a
grouped tree is read up to the round of the loop that follows it (`OperatorTree.expressionWithin`).
Since reading has one outcome, a chain has one grouped tree (`OperatorTree.Grouped.unique`).
-/

namespace ListScript

/-- The words as tokens of one line that stand nowhere. -/
def TokenStream.bare (words : List (Token.Kind × String)) : TokenStream :=
  ⟨words.map fun word => .ok ⟨word.1, .empty 0, word.2, false⟩, 0, 0⟩

open TokenStream (bare)

namespace Parser

theorem run_bind_ok {α β : Type} {p : Parser α} {s s' : TokenStream} {a : α} (h : p s = .ok a s')
    (f : α → Parser β) : (p >>= f) s = f a s' := by
  rw [run_bind, h]

variable (word : Token.Kind × String) (words : List (Token.Kind × String))

theorem peek_bare : peek (bare (word :: words)) =
    .ok ⟨word.1, .empty 0, word.2, false⟩ (bare (word :: words)) :=
  rfl

theorem take_bare : take (bare (word :: words)) =
    .ok ⟨word.1, .empty 0, word.2, false⟩ (bare words) :=
  rfl

end Parser

namespace Connective

theorem ofToken?_symbol (b : Connective) (text : String) :
    Continuation.ofToken? ⟨.symbol b.symbol, .empty 0, text, false⟩ = some b.continuation :=
  b.ofSymbol?_symbol

/-- A symbol that does not continue an expression is no operator of a chain. -/
theorem symbol_ne (b : Connective) {s : Symbol} (hs : Continuation.ofSymbol? true s = none) :
    b.symbol ≠ s := by
  intro h
  have hsymbol := b.ofSymbol?_symbol
  rw [h, hs] at hsymbol
  cases hsymbol

end Connective

namespace Chain

open ListScript.Parser

variable (x : Nat → Parser Expr) (room : Nat)

/-- The operator at the head of the rest of a chain, if there is one, binds less strongly than
`power`. -/
def Below (power : Nat) (rest : List (Connective × Operand)) : Prop :=
  ∀ b o tail, rest = (b, o) :: tail → b.level < power

theorem below_nil (power : Nat) : Below power [] := fun _ _ _ h => nomatch h

/-- Nothing but an operator of the chain comes after an operand. -/
theorem accept_restWords {s : Symbol} (hs : Continuation.ofSymbol? true s = none)
    (rest : List (Connective × Operand)) :
    accept (.symbol s) (bare (restWords rest)) = .ok false (bare (restWords rest)) := by
  unfold accept
  rw [run_bind]
  cases rest with
  | nil => rfl
  | cons step rest =>
      obtain ⟨b, o⟩ := step
      show (if (Token.Kind.symbol b.symbol) = .symbol s then _ else _ : Parser Bool) _ = _
      rw [if_neg]
      · rfl
      · simpa using b.symbol_ne hs

/-- An expression ends before an operator that binds too weakly. -/
theorem continued_restWords {least rounds : Nat} {rest : List (Connective × Operand)}
    (hrest : Below least rest) (hrounds : 0 < rounds) (lhs : Expr) :
    continued x room least rounds lhs (bare (restWords rest)) =
      .ok lhs (bare (restWords rest)) := by
  obtain ⟨rounds, rfl⟩ := Nat.exists_eq_succ_of_ne_zero (Nat.ne_zero_of_lt hrounds)
  unfold continued
  rw [run_bind]
  cases rest with
  | nil => rfl
  | cons step rest =>
      obtain ⟨b, o⟩ := step
      rw [restWords, peek_bare]
      dsimp only
      rw [b.ofToken?_symbol]
      have hlevel : b.continuation.leftPower < least := hrest b o rest rfl
      dsimp only
      rw [if_pos hlevel]
      rfl

/-- An operator that binds strongly enough is one round of reading. -/
theorem continued_word {least rounds : Nat} {b : Connective} (hlevel : least ≤ b.level)
    {lhs e : Expr} {words words' : List (Token.Kind × String)}
    (hextend : extend x room lhs b.continuation (bare words) = .ok e (bare words')) :
    continued x room least (rounds + 1) lhs
        (bare ((.symbol b.symbol, b.symbol.spelling) :: words)) =
      continued x room least rounds e (bare words') := by
  have hnot : ¬ b.continuation.leftPower < least := Nat.not_lt.2 hlevel
  rw [continued, run_bind_ok (peek_bare _ _)]
  dsimp only
  rw [b.ofToken?_symbol]
  dsimp only
  rw [if_neg hnot, run_bind_ok (take_bare _ _)]
  exact run_bind_ok hextend _

end Chain

open Chain

/-- An operand is read as its tree. -/
theorem Operand.operand_words (o : Operand) {room : Nat} (hroom : o.signs.length < room)
    (rest : List (Connective × Operand)) :
    Parser.operand (Parser.expressionWithin room) room (bare (o.words ++ restWords rest)) =
      .ok o.expr (bare (restWords rest)) := by
  obtain ⟨signs, name, hname⟩ := o
  induction signs generalizing room with
  | nil => rfl
  | cons sign signs ih =>
      obtain ⟨room, rfl⟩ := Nat.exists_eq_succ_of_ne_zero (Nat.ne_zero_of_lt hroom)
      have hsigns : signs.length < room := Nat.lt_of_succ_lt_succ hroom
      -- No operator of a chain binds as strongly as a sign.
      have hrest : Below Power.unary rest := by
        intro b o tail _
        show b.level < 19
        have := b.powers
        omega
      have hinner : Parser.expressionWithin (room + 1) Power.unary
          (bare ((Operand.mk signs name hname).words ++ restWords rest)) =
            .ok (Operand.mk signs name hname).expr (bare (restWords rest)) := by
        unfold Parser.expressionWithin
        rw [Parser.run_bind, ih hsigns]
        exact continued_restWords _ _ hrest (Nat.zero_lt_of_lt hsigns) _
      have hunary : Parser.unary (Parser.expressionWithin (room + 1)) 0 sign.operator
          (bare ((Operand.mk signs name hname).words ++ restWords rest)) =
            .ok (.unary (.empty 0) sign.operator (Operand.mk signs name hname).expr)
              (bare (restWords rest)) := by
        unfold Parser.unary
        rw [Parser.run_bind, hinner]
        rfl
      unfold Parser.operand
      rw [Parser.run_bind]
      cases sign <;> exact hunary

namespace OperatorTree

/-- The number of operators on the left side of the tree, each of which is a round of the loop that
reads it. -/
def spine : OperatorTree → Nat
  | operand _ => 0
  | node lhs _ _ => lhs.spine + 1

/-- The number of tokens of the tree. -/
def size (tree : OperatorTree) : Nat := tree.chain.words.length

theorem words_node (lhs : OperatorTree) (b : Connective) (rhs : OperatorTree) :
    (node lhs b rhs).chain.words =
      lhs.chain.words ++ (.symbol b.symbol, b.symbol.spelling) :: rhs.chain.words := by
  show _ ++ restWords (lhs.chain.rest ++ (b, rhs.chain.first) :: rhs.chain.rest) = _
  rw [restWords_append, ← List.append_assoc]
  rfl

theorem size_node (lhs : OperatorTree) (b : Connective) (rhs : OperatorTree) :
    (node lhs b rhs).size = lhs.size + 1 + rhs.size := by
  unfold size
  rw [words_node, List.length_append, List.length_cons]
  omega

theorem spine_lt_size (tree : OperatorTree) : tree.spine < tree.size := by
  induction tree with
  | operand o =>
      show 0 < (o.words ++ []).length
      simp [Operand.words]
  | node lhs b rhs ihl ihr =>
      rw [size_node]
      show lhs.spine + 1 < _
      omega

/-- What follows the tree does not bind its last operand more strongly than the operator at the
root. -/
def Ends (tree : OperatorTree) (rest : List (Connective × Operand)) : Prop :=
  ∀ b, tree.root? = some b → Below b.right rest

theorem pushInto_expr (lhs rhs : OperatorTree) :
    Parser.pushInto (.empty 0) lhs.expr rhs.expr = Connective.push.apply lhs.expr rhs.expr := by
  have hspan := lhs.span_expr
  cases lhs with
  | operand o =>
      obtain ⟨signs, name, hname⟩ := o
      cases signs <;> rfl
  | node l b r =>
      cases b <;> rfl

/-- What the operator makes of the tree before it and the tree after it. -/
theorem extend_apply {x : Nat → Parser Expr} {room : Nat} {b : Connective}
    (lhs rhs : OperatorTree) {words : List (Token.Kind × String)}
    {rest : List (Connective × Operand)}
    (hx : x b.right (bare words) = .ok rhs.expr (bare (restWords rest))) :
    Parser.extend x room lhs.expr b.continuation (bare words) =
      .ok (b.apply lhs.expr rhs.expr) (bare (restWords rest)) := by
  have hstart : lhs.expr.span.start = 0 := by rw [lhs.span_expr]; rfl
  cases b with
  | binary operator =>
      refine (Parser.run_bind_ok hx _).trans ?_
      rw [hstart]
      rfl
  | range inclusive =>
      refine (Parser.run_bind_ok hx _).trans ?_
      refine (Parser.run_bind_ok (accept_restWords rfl rest) _).trans ?_
      dsimp only
      rw [hstart]
      rfl
  | push =>
      refine (Parser.run_bind_ok hx _).trans ?_
      rw [hstart]
      exact congrArg (EStateM.Result.ok · _) (pushInto_expr lhs rhs)
  | shift =>
      refine (Parser.run_bind_ok hx _).trans ?_
      rw [hstart]
      rfl
  | assign isConst =>
      cases isConst with
      | true =>
        refine (Parser.run_bind_ok hx _).trans ?_
        refine (Parser.run_bind_ok (accept_restWords rfl rest) _).trans ?_
        dsimp only
        rw [hstart]
        rfl
      | false =>
        refine (Parser.run_bind_ok hx _).trans ?_
        refine (Parser.run_bind_ok (accept_restWords rfl rest) _).trans ?_
        dsimp only
        rw [hstart]
        rfl

/-- The root of a right operand binds what comes after it at least as strongly as the operator
above. -/
theorem Ends.right {lhs rhs : OperatorTree} {b : Connective} {rest : List (Connective × Operand)}
    (h : (node lhs b rhs).Ends rest) (hright : ∀ q, rhs.root? = some q → b.AllowsRight q) :
    rhs.Ends rest := by
  intro q hq c o tail hrest
  have hc := h b rfl c o tail hrest
  have hle := Connective.allowsRight_iff.1 (hright q hq)
  have hb := b.powers
  have hq := q.powers
  omega

/-- A grouped tree is read up to the round of the loop after it. -/
theorem expressionWithin_words {tree : OperatorTree} (hgrouped : tree.Grouped) {room least : Nat}
    (hleast : ∀ b, tree.root? = some b → least ≤ b.level) (hroom : tree.size ≤ room)
    {rest : List (Connective × Operand)} (hrest : tree.Ends rest) :
    Parser.expressionWithin (room + 1) least (bare (tree.chain.words ++ restWords rest)) =
      Parser.continued (Parser.expressionWithin room) room least (room - tree.spine) tree.expr
        (bare (restWords rest)) := by
  induction tree generalizing room least rest with
  | operand o =>
      have hsigns : o.signs.length < room := by
        have hsize : (operand o).size = o.signs.length + 1 := by
          simp [size, chain, words, restWords, Operand.words]
        omega
      show (Parser.operand _ _ >>= _) (bare ((o.words ++ []) ++ restWords rest)) = _
      rw [List.append_nil]
      exact Parser.run_bind_ok (o.operand_words hsigns rest) _
  | node lhs b rhs ihl ihr =>
      obtain ⟨hl, hr, hleft, hright⟩ := hgrouped
      have hlevel : least ≤ b.level := hleast b rfl
      rw [size_node] at hroom
      obtain ⟨room, rfl⟩ : ∃ inner, room = inner + 1 := ⟨room - 1, by omega⟩
      have hspine := lhs.spine_lt_size
      have hspine' := rhs.spine_lt_size
      -- The left operand is read up to the operator,
      have hlhs : Parser.expressionWithin (room + 1 + 1) least
          (bare (lhs.chain.words ++ restWords ((b, rhs.chain.first) :: (rhs.chain.rest ++ rest)))) =
            Parser.continued (Parser.expressionWithin (room + 1)) (room + 1) least
              (room + 1 - lhs.spine) lhs.expr
              (bare (restWords ((b, rhs.chain.first) :: (rhs.chain.rest ++ rest)))) := by
        refine ihl hl ?_ (by omega) ?_
        · intro p hp
          have hlt := Connective.allowsLeft_iff.1 (hleft p hp)
          have hpowers := p.powers
          omega
        · rintro p hp _ _ _ ⟨rfl⟩
          exact Connective.allowsLeft_iff.1 (hleft p hp)
      -- the right operand up to what comes after the tree.
      have hrhs : Parser.expressionWithin (room + 1) b.right
          (bare (rhs.chain.words ++ restWords rest)) = .ok rhs.expr (bare (restWords rest)) := by
        rw [ihr hr (fun q hq => Connective.allowsRight_iff.1 (hright q hq)) (by omega)
          (hrest.right hright)]
        exact continued_restWords _ _ (hrest b rfl) (by omega) _
      have hwords : restWords ((b, rhs.chain.first) :: (rhs.chain.rest ++ rest)) =
          (.symbol b.symbol, b.symbol.spelling) :: (rhs.chain.words ++ restWords rest) := by
        rw [restWords, restWords_append, ← List.append_assoc]
        rfl
      have hrounds : room + 1 - lhs.spine = room + 1 - (node lhs b rhs).spine + 1 := by
        show _ = room + 1 - (lhs.spine + 1) + 1
        omega
      rw [words_node, List.append_assoc, List.cons_append, ← hwords, hlhs, hwords, hrounds]
      exact continued_word _ _ hlevel (extend_apply lhs rhs hrhs)

/-- A chain is read as any of its grouped trees. -/
theorem expressionWithin_chain {tree : OperatorTree} (hgrouped : tree.Grouped) :
    Parser.expressionWithin (tree.size + 1) 0 (bare tree.chain.words) =
      .ok tree.expr (bare []) := by
  have hends : tree.Ends [] := fun _ _ => below_nil _
  have hread := expressionWithin_words hgrouped (fun _ _ => Nat.zero_le _) (Nat.le_refl _) hends
  rw [restWords, List.append_nil] at hread
  rw [hread]
  have hspine := tree.spine_lt_size
  exact continued_restWords _ _ (below_nil 0) (by omega) _

/-- A chain has one grouped tree. -/
theorem Grouped.unique {tree tree' : OperatorTree} (h : tree.Grouped) (h' : tree'.Grouped)
    (hchain : tree.chain = tree'.chain) : tree = tree' := by
  have hread := expressionWithin_chain h
  have hread' := expressionWithin_chain h'
  unfold size at hread hread'
  rw [hchain, hread'] at hread
  injection hread with hexpr
  exact expr_inj hexpr.symm

end OperatorTree

/-- A stream of the given words on one line is like the bare one. -/
theorem TokenStream.alike_bare {source : String} {tokens : List Token}
    {words : List (Token.Kind × String)} (hscan : Token.scan source = tokens.map .ok)
    (hgist : tokens.map Token.gist = words.map fun word => (word.1, word.2, false)) :
    (ofSource source).Alike (bare words) := by
  refine ⟨tokens, words.map fun word => ⟨word.1, .empty 0, word.2, false⟩, hscan, ?_, ?_⟩
  · show List.map _ _ = _
    rw [List.map_map]
    rfl
  · refine Token.forall₂_alike_of_gist (fun token hmem => (Token.of_scan hscan token hmem).2) ?_
    rw [hgist, List.map_map]
    rfl

namespace Chain

/-- The stream of a chain's text is like the bare one. -/
theorem alike_text (gap : Nat → Nat) (chain : Chain) :
    (TokenStream.ofSource (chain.text gap)).Alike (bare chain.words) := by
  obtain ⟨tokens, hscan, hgist⟩ := Token.scan_spaced gap chain.isToken_words
  exact TokenStream.alike_bare hscan hgist

/-- A chain of operators on one line is read to its end, as the one tree over it in which each
operator has under it only what binds more strongly, or equally strongly on the side to which it
groups. -/
theorem expression_text (gap : Nat → Nat) (chain : Chain) :
    ∃ e s tree, Parser.expression (.ofSource (chain.text gap)) = .ok e s ∧ s.pending = [] ∧
      e.erase = tree.expr ∧ tree.chain = chain ∧ tree.Grouped ∧
      ∀ tree' : OperatorTree, tree'.chain = chain → tree'.Grouped → tree' = tree := by
  obtain ⟨tree, hchain, hgrouped⟩ := chain.exists_grouped
  have halike := alike_text gap chain
  have hlength : (TokenStream.ofSource (chain.text gap)).pending.length = tree.size := by
    rw [halike.length_eq, ← hchain]
    exact List.length_map _
  have hread := Parser.lockstep_alike.expressionWithin (tree.size + 1) 0 halike
  rw [← hchain, OperatorTree.expressionWithin_chain hgrouped, hchain] at hread
  unfold Parser.expression
  rw [hlength]
  cases hrun : Parser.expressionWithin (tree.size + 1) 0 (.ofSource (chain.text gap)) with
  | error error s => rw [hrun] at hread; exact hread.elim
  | ok e s =>
      rw [hrun] at hread
      obtain ⟨he, hs⟩ := hread
      refine ⟨e, s, tree, rfl, ?_, ?_, hchain, hgrouped, ?_⟩
      · exact List.eq_nil_of_length_eq_zero hs.length_eq
      · rw [he.1, tree.erase_expr]
      · intro tree' hchain' hgrouped'
        exact hgrouped'.unique hgrouped (hchain'.trans hchain.symm)

end Chain

end ListScript
