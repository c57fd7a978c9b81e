import ListScript.Expr.Basic
import ListScript.Number.Text

/-!
# Texts of expressions

Two texts of a tree: the symbolic form, a parenthesised list headed by the construct's name, and the
structural text with every field and span.
-/

namespace ListScript.Expr

/-- The limit that a text leaves out: minus one without a place in the source. -/
def isDefaultLimit : Expr → Bool
  | .number span value => value.eq (.ofInt (-1)) && span.length == 0
  | _ => false

/-- A head and its items between parentheses. -/
def form (head : String) (items : List String) : String :=
  "(" ++ head ++ String.join (items.map (" " ++ ·)) ++ ")"

/-- How an assignment of the given mode is headed. -/
def assignmentHead (mode : BindingMode) : String :=
  match mode.isRef, mode.isConst with
  | true, true => "&:="
  | true, false => "&="
  | false, true => ":="
  | false, false => "="

/-- How a loop over a list is headed. -/
def walkHead : Walk → String
  | .positions => "for-in"
  | .elements => "for-of"

mutual

/-- The symbolic form of an expression. -/
def symbolic : Expr → String
  | .number _ value => value.inspect
  | .boolean _ value => Text.Inspect.boolean value
  | .null _ => "null"
  | .string _ text => Text.quoteString text
  | .character _ value => "@" ++ Text.escapeChar value
  | .identifier _ name => name
  | .list _ items => form "list" (symbolicAll items)
  | .block _ body => form "block" (symbolicAll body)
  | .group _ inner => form "group" [inner.symbolic]
  | .control _ signal => form signal.kind.word [toString signal.carry]
  | .unary _ operator operand => form operator.symbol [operand.symbolic]
  | .update _ step after operand =>
    form (if after then "post" ++ step.symbol else step.symbol) [operand.symbolic]
  | .binary _ operator lhs rhs => form operator.symbol [lhs.symbolic, rhs.symbolic]
  | .assign _ target value limit mode =>
    form (assignmentHead mode)
      (if limit.isDefaultLimit then [target.symbolic, value.symbolic]
       else [target.symbolic, value.symbolic, limit.symbolic])
  | .call _ callee arguments => form "call" (callee.symbolic :: symbolicAll arguments)
  | .function _ parameters body _ =>
    form "fn" ["(" ++ String.intercalate " " parameters ++ ")", form "block" (symbolicAll body)]
  | .branch _ condition success none => form "if" [condition.symbolic, success.symbolic]
  | .branch _ condition success (some failure) =>
    form "if" [condition.symbolic, success.symbolic, failure.symbolic]
  | .whileLoop _ condition body => form "while" [condition.symbolic, body.symbolic]
  | .forLoop _ start condition step body =>
    form "for" [start.symbolic, condition.symbolic, step.symbolic, body.symbolic]
  | .forEach _ walk name enumerable body =>
    form (walkHead walk) [name, enumerable.symbolic, body.symbolic]
  | .index _ target position => form "index" [target.symbolic, position.symbolic]
  | .method _ receiver name arguments =>
    form ("method " ++ name) (receiver.symbolic :: symbolicAll arguments)
  | .range _ first last step inclusive =>
    form (if inclusive then "..=" else "..") [first.symbolic, last.symbolic, step.symbolic]
  | .shift _ source target => form ">>" [source.symbolic, target.symbolic]
  | .pop _ source position => form "pop" [source.symbolic, position.symbolic]
  | .push _ target position value =>
    form "push" [target.symbolic, position.symbolic, value.symbolic]

/-- The symbolic forms of expressions, in order. -/
def symbolicAll : List Expr → List String
  | [] => []
  | e :: rest => e.symbolic :: symbolicAll rest

end

/-- The structural text of a node of the given kind. -/
def inspectNode (kind : String) (span : Span) : String :=
  Text.Inspect.record "Expression" [("kind", kind), ("span", span.inspect)]

/-- The structural text of a block. -/
def inspectBlock (body : List String) (span : Span) : String :=
  Text.Inspect.record "Block" [("body", Text.Inspect.list body), ("span", span.inspect)]

open Text.Inspect in
mutual

/-- The structural text of an expression. -/
def inspect : Expr → String
  | .number span value => inspectNode (variant "Number" [value.inspect]) span
  | .boolean span value => inspectNode (variant "Bool" [Text.Inspect.boolean value]) span
  | .null span => inspectNode "Null" span
  | .string span text => inspectNode (variant "StringLiteral" [Text.quoteString text]) span
  | .character span value => inspectNode (variant "Character" [Text.quoteChar value]) span
  | .identifier span name => inspectNode (variant "Identifier" [Text.quoteString name]) span
  | .list span items => inspectNode (variant "List" [Text.Inspect.list (inspectAll items)]) span
  | .block span body => inspectNode (variant "Block" [inspectBlock (inspectAll body) span]) span
  | .group span inner => inspectNode (variant "Group" [inner.inspect]) span
  | .control span signal =>
    inspectNode
      (record "Control" [("kind", signal.kind.inspect), ("carry", toString signal.carry)]) span
  | .unary span operator operand =>
    inspectNode
      (record "Prefix" [("operator", operator.inspect), ("operand", operand.inspect)]) span
  | .update span step after operand =>
    inspectNode
      (record (if after then "Postfix" else "Prefix")
        [("operator", step.inspect), ("operand", operand.inspect)]) span
  | .binary span operator lhs rhs =>
    inspectNode
      (record "Infix" [("operator", operator.inspect), ("lhs", lhs.inspect), ("rhs", rhs.inspect)])
      span
  | .assign span target value limit mode =>
    inspectNode
      (variant "Assignment"
        [record "Assignment"
          [("target", target.inspect), ("value", value.inspect), ("limit", limit.inspect),
            ("is_const", Text.Inspect.boolean mode.isConst),
            ("is_ref", Text.Inspect.boolean mode.isRef)]]) span
  | .call span callee arguments =>
    inspectNode
      (record "Call"
        [("callee", callee.inspect), ("arguments", Text.Inspect.list (inspectAll arguments))]) span
  | .function span parameters body bodySpan =>
    inspectNode
      (record "Function"
        [("parameters", names parameters), ("body", inspectBlock (inspectAll body) bodySpan)]) span
  | .branch span condition success none =>
    inspectNode
      (record "If"
        [("condition", condition.inspect), ("success", success.inspect), ("failure", option none)])
      span
  | .branch span condition success (some failure) =>
    inspectNode
      (record "If"
        [("condition", condition.inspect), ("success", success.inspect),
          ("failure", option (some failure.inspect))]) span
  | .whileLoop span condition body =>
    inspectNode (record "While" [("condition", condition.inspect), ("body", body.inspect)]) span
  | .forLoop span start condition step body =>
    inspectNode
      (variant "For"
        [record "Traditional"
          [("initializer", start.inspect), ("condition", condition.inspect), ("step", step.inspect),
            ("body", body.inspect)]]) span
  | .forEach span walk name enumerable body =>
    inspectNode
      (variant "For"
        [record (match walk with | .positions => "In" | .elements => "Of")
          [("variable", Text.quoteString name), ("enumerable", enumerable.inspect),
            ("body", body.inspect)]]) span
  | .index span target position =>
    inspectNode (record "Index" [("target", target.inspect), ("index", position.inspect)]) span
  | .method span receiver name arguments =>
    inspectNode
      (record "Method"
        [("receiver", receiver.inspect), ("name", Text.quoteString name),
          ("arguments", Text.Inspect.list (inspectAll arguments))]) span
  | .range span first last step inclusive =>
    inspectNode
      (record "Range"
        [("start", first.inspect), ("end", last.inspect), ("step", step.inspect),
          ("inclusive", Text.Inspect.boolean inclusive)]) span
  | .shift span source target =>
    inspectNode (record "Shift" [("source", source.inspect), ("target", target.inspect)]) span
  | .pop span source position =>
    inspectNode (record "Pop" [("list", source.inspect), ("index", position.inspect)]) span
  | .push span target position value =>
    inspectNode
      (record "Push"
        [("list", target.inspect), ("index", position.inspect), ("value", value.inspect)]) span

/-- The structural texts of expressions, in order. -/
def inspectAll : List Expr → List String
  | [] => []
  | e :: rest => e.inspect :: inspectAll rest

end

end ListScript.Expr

namespace ListScript.Block

/-- The symbolic forms of a block's expressions, one on each line. -/
def symbolic (block : Block) : String := String.intercalate "\n" (Expr.symbolicAll block.body)

/-- The structural texts of a block's expressions, one on each line. -/
def inspectLines (block : Block) : String := String.intercalate "\n" (Expr.inspectAll block.body)

end ListScript.Block
