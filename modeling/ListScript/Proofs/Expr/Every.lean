import ListScript.Expr.Basic

/-!
# Checks at every node of a tree

`Expr.every check` says that a check passes at an expression and at all the expressions inside it.
Statements about whole trees that hold node by node are put in this form. `Expr.every_iff` spells
out what it says.
-/

namespace ListScript.Expr

mutual

/-- A check passes at the expression and at every expression inside it, function bodies
included. -/
@[simp]
def every (check : Expr → Bool) (e : Expr) : Bool :=
  check e &&
    match e with
    | .number .. | .boolean .. | .null .. | .string .. | .character .. | .identifier ..
    | .control .. => true
    | .list _ es | .block _ es | .function _ _ es _ => everyAll check es
    | .group _ a | .unary _ _ a | .update _ _ _ a => a.every check
    | .binary _ _ a b | .whileLoop _ a b | .forEach _ _ _ a b | .index _ a b | .shift _ a b
    | .pop _ a b | .branch _ a b none => a.every check && b.every check
    | .assign _ a b c _ | .range _ a b c _ | .push _ a b c | .branch _ a b (some c) =>
      a.every check && b.every check && c.every check
    | .forLoop _ a b c d => a.every check && b.every check && c.every check && d.every check
    | .call _ a es | .method _ a _ es => a.every check && everyAll check es

/-- A check passes at all the expressions and at every expression inside them. -/
@[simp]
def everyAll (check : Expr → Bool) : List Expr → Bool
  | [] => true
  | e :: rest => e.every check && everyAll check rest

end

/-- The expressions that an expression is directly made up of. -/
def children : Expr → List Expr
  | .number .. | .boolean .. | .null .. | .string .. | .character .. | .identifier ..
  | .control .. => []
  | .list _ es | .block _ es | .function _ _ es _ => es
  | .group _ a | .unary _ _ a | .update _ _ _ a => [a]
  | .binary _ _ a b | .whileLoop _ a b | .forEach _ _ _ a b | .index _ a b | .shift _ a b
  | .pop _ a b => [a, b]
  | .branch _ a b failure => a :: b :: failure.toList
  | .assign _ a b c _ | .range _ a b c _ | .push _ a b c => [a, b, c]
  | .forLoop _ a b c d => [a, b, c, d]
  | .call _ a es | .method _ a _ es => a :: es

/-- The first expression is a node of the second: that expression itself, or one inside it, function
bodies included. -/
inductive Node : Expr → Expr → Prop where
  | self (e : Expr) : Node e e
  | child {node child e : Expr} (hchild : child ∈ e.children) (hnode : Node node child) :
      Node node e

variable {check : Expr → Bool}

theorem everyAll_iff {es : List Expr} :
    everyAll check es = true ↔ ∀ e ∈ es, e.every check = true := by
  induction es with
  | nil => simp
  | cons e es ih => simp [ih]

/-- A check passes everywhere in an expression if it passes there and everywhere in its children. -/
theorem every_iff_children {e : Expr} :
    e.every check = true ↔ check e = true ∧ ∀ child ∈ e.children, child.every check = true := by
  cases e with
  | branch span a b failure => cases failure <;> simp [children, and_assoc]
  | _ => simp [children, everyAll_iff, and_assoc]

theorem sizeOf_lt_of_mem_children {e child : Expr} (h : child ∈ e.children) :
    sizeOf child < sizeOf e := by
  cases e with
  | list span es | block span es | function span parameters es bodySpan =>
      have hlt : sizeOf child < sizeOf es := List.sizeOf_lt_of_mem h
      simp only [list.sizeOf_spec, block.sizeOf_spec, function.sizeOf_spec]
      omega
  | call span a es | method span a name es =>
      obtain rfl | h := List.mem_cons.1 h
      · simp only [call.sizeOf_spec, method.sizeOf_spec]
        omega
      · have hlt := List.sizeOf_lt_of_mem h
        simp only [call.sizeOf_spec, method.sizeOf_spec]
        omega
  | branch span a b failure =>
      cases failure <;> simp [children] at h ⊢ <;> grind
  | _ => simp [children] at h ⊢ <;> grind

/-- A check passes everywhere in an expression if it passes at all its nodes. -/
theorem every_iff {e : Expr} :
    e.every check = true ↔ ∀ node, Node node e → check node = true := by
  constructor
  · intro h node hnode
    induction hnode with
    | self => exact (every_iff_children.1 h).1
    | child hchild _ ih => exact ih ((every_iff_children.1 h).2 _ hchild)
  · intro h
    induction hsize : sizeOf e using Nat.strongRecOn generalizing e with
    | ind size ih =>
        subst hsize
        refine every_iff_children.2 ⟨h e (.self e), fun child hchild => ?_⟩
        have hlt := sizeOf_lt_of_mem_children hchild
        exact ih _ hlt (fun node hnode => h node (.child hchild hnode)) rfl

end ListScript.Expr
