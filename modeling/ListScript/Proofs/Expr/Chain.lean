import ListScript.Expr.Parser
import ListScript.Proofs.Token.Joining

/-!
# Chains of operators

A chain is a row of operands with an operator between each two of them. A tree over the chain is
grouped if an operator has under it, on either side, only operators that bind more strongly, or
equally strongly on the side to which it groups. Each chain has a grouped tree
(`Chain.exists_grouped`). That there is no other follows from reading: `Proofs.Expr.Precedence`.
-/

namespace ListScript

/-- The operators before an operand of a chain. -/
inductive Sign where
  | minus | bang
  deriving DecidableEq, Repr

namespace Sign

/-- The token that the operator is. -/
def symbol : Sign → Symbol
  | minus => .minus
  | bang => .bang

/-- What the operator does. -/
def operator : Sign → Unary
  | minus => .negate
  | bang => .not

end Sign

/-- The operators between two operands of a chain. -/
inductive Connective where
  /-- An operator that computes a value from both operands. -/
  | binary (operator : Binary)
  /-- A range. -/
  | range (inclusive : Bool)
  /-- A push into a list. -/
  | push
  /-- A shift into a place. -/
  | shift
  /-- An assignment. -/
  | assign (isConst : Bool)
  deriving DecidableEq, Repr

namespace Connective

/-- The token that the operator is. -/
def symbol : Connective → Symbol
  | binary .add => .plus
  | binary .subtract => .minus
  | binary .multiply => .star
  | binary .divide => .slash
  | binary .remainder => .percent
  | binary .greater => .greater
  | binary .less => .less
  | binary .greaterEqual => .greaterEqual
  | binary .lessEqual => .lessEqual
  | binary .equal => .equalEqual
  | binary .and => .andAnd
  | binary .or => .orOr
  | range false => .doubleDot
  | range true => .doubleDotEqual
  | push => .leftShift
  | shift => .rightShift
  | assign false => .equal
  | assign true => .colonEqual

/-- How the operator continues an expression. -/
def continuation : Connective → Continuation
  | binary operator => .binary operator
  | range inclusive => .range inclusive
  | push => .push
  | shift => .shift
  | assign false => .assign .plain
  | assign true => .assign .const

/-- How strongly the operator binds the operand on its left. -/
def level (b : Connective) : Nat := b.continuation.leftPower

/-- How strongly the operator binds the operand on its right. -/
def right : Connective → Nat
  | binary operator => (Power.binary operator).right
  | range _ => Power.range.right
  | push | shift => Power.transfer.right
  | assign _ => Power.assignment.right

/-- The operator groups to the right. -/
def groupsRight : Connective → Bool
  | assign _ => true
  | _ => false

/-- The operator `p` may stand at the root of the left operand of `b`. -/
def AllowsLeft (b p : Connective) : Prop :=
  if b.groupsRight then b.level < p.level else b.level ≤ p.level

/-- The operator `q` may stand at the root of the right operand of `b`. -/
def AllowsRight (b q : Connective) : Prop :=
  if b.groupsRight then b.level ≤ q.level else b.level < q.level

/-- An assignment binds its left operand more strongly, any other operator the right one, and an
assignment binds more weakly than any other operator. -/
theorem powers (b : Connective) :
    (b.groupsRight = false ∧ b.right = b.level + 1 ∧ 3 ≤ b.level ∧ b.level ≤ 17) ∨
      (b.groupsRight = true ∧ b.right = 1 ∧ b.level = 2) := by
  cases b with
  | binary operator => cases operator <;> decide
  | range inclusive => exact .inl (by decide +revert)
  | push | shift => decide
  | assign isConst => cases isConst <;> decide

/-- What may stand on the left is what binds the operand between more strongly. -/
theorem allowsLeft_iff {b p : Connective} : b.AllowsLeft p ↔ b.level < p.right := by
  unfold AllowsLeft
  have hb := b.powers
  have hp := p.powers
  split <;> simp_all only [reduceCtorEq, false_and, true_and, false_or, or_false] <;> omega

/-- What may stand on the right is what does not bind the operand between more weakly. -/
theorem allowsRight_iff {b q : Connective} : b.AllowsRight q ↔ b.right ≤ q.level := by
  unfold AllowsRight
  have hb := b.powers
  have hq := q.powers
  split <;> simp_all only [reduceCtorEq, false_and, true_and, false_or, or_false] <;> omega

theorem ofSymbol?_symbol (b : Connective) :
    Continuation.ofSymbol? true b.symbol = some b.continuation := by
  cases b with
  | binary operator => cases operator <;> rfl
  | range inclusive => cases inclusive <;> rfl
  | push | shift => rfl
  | assign isConst => cases isConst <;> rfl

/-- The tree of the operator and its operands, at no place and with the defaults filled in. -/
def apply (b : Connective) (lhs rhs : Expr) : Expr :=
  match b with
  | binary operator => .binary (.empty 0) operator lhs rhs
  | range inclusive => .range (.empty 0) lhs rhs (.number (.empty 0) (.ofInt 1)) inclusive
  | push => .push (.empty 0) lhs (.number (.empty 0) (.ofInt (-1))) rhs
  | shift => .shift (.empty 0) lhs rhs
  | assign isConst =>
    .assign (.empty 0) lhs rhs (.number (.empty 0) (.ofInt (-1))) ⟨isConst, false⟩

theorem span_apply (b : Connective) (lhs rhs : Expr) : (b.apply lhs rhs).span = .empty 0 := by
  cases b <;> rfl

theorem apply_inj {b b' : Connective} {lhs lhs' rhs rhs' : Expr}
    (h : b.apply lhs rhs = b'.apply lhs' rhs') : b = b' ∧ lhs = lhs' ∧ rhs = rhs' := by
  cases b <;> cases b' <;> simp_all [apply]

end Connective

/-- An operand of a chain: a name behind signs. -/
structure Operand where
  /-- The signs, the outermost first. -/
  signs : List Sign
  /-- The name. -/
  name : String
  /-- It is one. -/
  isName : Token.isName name = true

namespace Operand

/-- The tokens of the operand. -/
def words (o : Operand) : List (Token.Kind × String) :=
  o.signs.map (fun sign => (.symbol sign.symbol, sign.symbol.spelling)) ++ [(.identifier, o.name)]

/-- The tree of the operand, at no place. -/
def expr (o : Operand) : Expr :=
  o.signs.foldr (fun sign e => .unary (.empty 0) sign.operator e) (.identifier (.empty 0) o.name)

theorem span_expr (o : Operand) : o.expr.span = .empty 0 := by
  obtain ⟨signs, name, hname⟩ := o
  cases signs <;> rfl

theorem expr_inj {o o' : Operand} (h : o.expr = o'.expr) : o = o' := by
  obtain ⟨signs, name, hname⟩ := o
  obtain ⟨signs', name', hname'⟩ := o'
  have hparts : signs = signs' ∧ name = name' := by
    induction signs generalizing signs' with
    | nil => cases signs' <;> simp_all [expr]
    | cons sign signs ih =>
        cases signs' with
        | nil => simp [expr] at h
        | cons sign' signs' =>
            injection h with _ hsign hrest
            obtain ⟨rfl, rfl⟩ := ih signs' hrest
            refine ⟨?_, rfl⟩
            congr 1
            revert hsign
            cases sign <;> cases sign' <;> decide
  simp only [mk.injEq]
  exact hparts

/-- An operand is not what an operator makes of two. -/
theorem expr_ne_apply (o : Operand) (b : Connective) (lhs rhs : Expr) :
    o.expr ≠ b.apply lhs rhs := by
  obtain ⟨signs, name, hname⟩ := o
  cases signs <;> cases b <;> simp [expr, Connective.apply]

end Operand

/-- A row of operands with an operator between each two. -/
structure Chain where
  /-- The first operand. -/
  first : Operand
  /-- The operators in order, each with the operand after it. -/
  rest : List (Connective × Operand)

namespace Chain

/-- The tokens of operators and the operands after them. -/
def restWords : List (Connective × Operand) → List (Token.Kind × String)
  | [] => []
  | (b, o) :: rest => (.symbol b.symbol, b.symbol.spelling) :: (o.words ++ restWords rest)

theorem restWords_append (rest rest' : List (Connective × Operand)) :
    restWords (rest ++ rest') = restWords rest ++ restWords rest' := by
  induction rest with
  | nil => rfl
  | cons step rest ih =>
      obtain ⟨b, o⟩ := step
      show _ :: (o.words ++ restWords (rest ++ rest')) = _
      rw [ih, ← List.append_assoc]
      rfl

/-- The tokens of the chain. -/
def words (chain : Chain) : List (Token.Kind × String) := chain.first.words ++ restWords chain.rest

/-- The chain on one line, with spaces between its tokens. -/
def text (gap : Nat → Nat) (chain : Chain) : String :=
  String.ofList (Token.spaced gap (chain.words.map (·.2)))

/-- Two chains with an operator between them. -/
def join (chain : Chain) (b : Connective) (chain' : Chain) : Chain :=
  ⟨chain.first, chain.rest ++ (b, chain'.first) :: chain'.rest⟩

end Chain

/-- The words of an operand are tokens. -/
theorem Operand.isToken_words (o : Operand) :
    ∀ word ∈ o.words, Token.IsToken word.1 word.2.toList := by
  intro word hmem
  unfold words at hmem
  rw [List.mem_append, List.mem_map, List.mem_singleton] at hmem
  obtain ⟨sign, -, rfl⟩ | rfl := hmem
  · exact Token.isToken_symbol _
  · exact Token.isToken_identifier o.isName

/-- The words of a chain are tokens. -/
theorem Chain.isToken_words (chain : Chain) :
    ∀ word ∈ chain.words, Token.IsToken word.1 word.2.toList := by
  have hrest : ∀ rest, ∀ word ∈ restWords rest, Token.IsToken word.1 word.2.toList := by
    intro rest
    induction rest with
    | nil => simp [restWords]
    | cons step rest ih =>
        obtain ⟨b, o⟩ := step
        intro word hmem
        unfold restWords at hmem
        rw [List.mem_cons, List.mem_append] at hmem
        obtain rfl | hmem | hmem := hmem
        · exact Token.isToken_symbol _
        · exact o.isToken_words word hmem
        · exact ih word hmem
  intro word hmem
  unfold words at hmem
  rw [List.mem_append] at hmem
  obtain hmem | hmem := hmem
  · exact chain.first.isToken_words word hmem
  · exact hrest _ word hmem

/-! ## Trees over chains -/

/-- A way to group a chain. -/
inductive OperatorTree where
  /-- A single operand. -/
  | operand (o : Operand)
  /-- An operator between what stands on its two sides. -/
  | node (lhs : OperatorTree) (b : Connective) (rhs : OperatorTree)

namespace OperatorTree

/-- The chain that the tree groups: its leaves and operators in order. -/
def chain : OperatorTree → Chain
  | operand o => ⟨o, []⟩
  | node lhs b rhs => lhs.chain.join b rhs.chain

/-- The operator at the root, if there is one. -/
def root? : OperatorTree → Option Connective
  | operand _ => none
  | node _ b _ => some b

/-- Every operator has operators under it that it allows there. -/
def Grouped : OperatorTree → Prop
  | operand _ => True
  | node lhs b rhs =>
    lhs.Grouped ∧ rhs.Grouped ∧ (∀ p, lhs.root? = some p → b.AllowsLeft p) ∧
      ∀ q, rhs.root? = some q → b.AllowsRight q

/-- The expression that the tree is, at no place. -/
def expr : OperatorTree → Expr
  | operand o => o.expr
  | node lhs b rhs => b.apply lhs.expr rhs.expr

theorem span_expr (tree : OperatorTree) : tree.expr.span = .empty 0 := by
  cases tree with
  | operand o => exact o.span_expr
  | node lhs b rhs => exact b.span_apply _ _

theorem erase_expr (tree : OperatorTree) : tree.expr.erase = tree.expr := by
  induction tree with
  | operand o =>
      obtain ⟨signs, name, hname⟩ := o
      induction signs with
      | nil => rfl
      | cons sign signs ih => exact congrArg (Expr.unary (.empty 0) sign.operator) ih
  | node lhs b rhs ihl ihr =>
      unfold expr
      cases b <;> simp [Connective.apply, ihl, ihr]

/-- Trees are told apart by their expressions. -/
theorem expr_inj {tree tree' : OperatorTree} (h : tree.expr = tree'.expr) : tree = tree' := by
  induction tree generalizing tree' with
  | operand o =>
      cases tree' with
      | operand o' => rw [o.expr_inj h]
      | node lhs b rhs => exact (o.expr_ne_apply _ _ _ h).elim
  | node lhs b rhs ihl ihr =>
      cases tree' with
      | operand o => exact (o.expr_ne_apply _ _ _ h.symm).elim
      | node lhs' b' rhs' =>
          obtain ⟨rfl, hl, hr⟩ := Connective.apply_inj h
          rw [ihl hl, ihr hr]

/-- One more operand and operator in front of a tree: the operator goes down the left side until
what is there may be its right operand. -/
def graft (o : Operand) (b : Connective) : OperatorTree → OperatorTree
  | operand o' => node (operand o) b (operand o')
  | node lhs c rhs =>
    if b.right ≤ c.level then node (operand o) b (node lhs c rhs) else node (graft o b lhs) c rhs

theorem chain_graft (o : Operand) (b : Connective) (tree : OperatorTree) :
    (graft o b tree).chain = ⟨o, (b, tree.chain.first) :: tree.chain.rest⟩ := by
  induction tree with
  | operand o' => rfl
  | node lhs c rhs ihl ihr =>
      unfold graft
      split
      · rfl
      · show (graft o b lhs).chain.join c rhs.chain = _
        rw [ihl]
        rfl

theorem root?_graft (o : Operand) (b : Connective) (tree : OperatorTree) :
    (graft o b tree).root? = some b ∨ (graft o b tree).root? = tree.root? := by
  cases tree with
  | operand o' => exact .inl rfl
  | node lhs c rhs =>
      unfold graft
      split
      · exact .inl rfl
      · exact .inr rfl

theorem Grouped.graft {tree : OperatorTree} (h : tree.Grouped) (o : Operand) (b : Connective) :
    (graft o b tree).Grouped := by
  induction tree with
  | operand o' => exact ⟨trivial, trivial, fun _ h => (nomatch h), fun _ h => (nomatch h)⟩
  | node lhs c rhs ihl ihr =>
      have hnode := h
      obtain ⟨hl, hr, hleft, hright⟩ := h
      unfold OperatorTree.graft
      split
      · rename_i hle
        refine ⟨trivial, hnode, fun _ h => (nomatch h), ?_⟩
        rintro _ ⟨rfl⟩
        exact Connective.allowsRight_iff.2 hle
      · rename_i hlt
        refine ⟨ihl hl, hr, ?_, hright⟩
        intro p hp
        obtain hroot | hroot := root?_graft o b lhs
        · rw [hroot] at hp
          cases hp
          exact Connective.allowsLeft_iff.2 (Nat.lt_of_not_le hlt)
        · rw [hroot] at hp
          exact hleft p hp

end OperatorTree

/-- Each chain can be grouped. -/
theorem Chain.exists_grouped (chain : Chain) :
    ∃ tree : OperatorTree, tree.chain = chain ∧ tree.Grouped := by
  obtain ⟨first, rest⟩ := chain
  induction rest generalizing first with
  | nil => exact ⟨.operand first, rfl, trivial⟩
  | cons step rest ih =>
      obtain ⟨b, o⟩ := step
      obtain ⟨tree, hchain, hgrouped⟩ := ih o
      refine ⟨tree.graft first b, ?_, hgrouped.graft first b⟩
      rw [OperatorTree.chain_graft, hchain]

end ListScript
