import ListScript.Proofs.Expr.Erasure
import ListScript.Proofs.Text.Datum
import ListScript.Proofs.Token.Joining

/-!
# Trees as data

The symbolic form of a tree is the text of a datum (`Expr.text_datum`): a list headed by the word of
the construct. The word and the number of items tell the construct (`Head.eq_of_word_eq`), since
unary and binary operators of one spelling differ in the latter. The text tells the datum if the tree
is such as a text can give and its numbers are finite (`Expr.isReadable_datum`).
-/

namespace ListScript

/-! ## Heads -/

/-- What heads the list of a construct. -/
inductive Head where
  | list | block | group
  | control (kind : Control.Kind)
  | unary (operator : Unary)
  | update (step : Step) (after : Bool)
  | binary (operator : Binary)
  | assign (mode : BindingMode)
  | call | function | branch | whileLoop | forLoop
  | forEach (walk : Walk)
  | index | method
  | range (inclusive : Bool)
  | shift | pop | push
  deriving DecidableEq

namespace Head

/-- The head's word. -/
def word : Head → String
  | .list => "list"
  | .block => "block"
  | .group => "group"
  | .control kind => kind.word
  | .unary operator => operator.symbol
  | .update step after => if after then "post" ++ step.symbol else step.symbol
  | .binary operator => operator.symbol
  | .assign mode => Expr.assignmentHead mode
  | .call => "call"
  | .function => "fn"
  | .branch => "if"
  | .whileLoop => "while"
  | .forLoop => "for"
  | .forEach walk => Expr.walkHead walk
  | .index => "index"
  | .method => "method"
  | .range inclusive => if inclusive then "..=" else ".."
  | .shift => ">>"
  | .pop => "pop"
  | .push => "push"

/-- Every head. -/
def all : List Head := [
  .list, .block, .group, .control .stop, .control .next, .unary .negate, .unary .not, .unary .copy,
  .update .increment false, .update .increment true, .update .decrement false,
  .update .decrement true, .binary .add, .binary .subtract, .binary .multiply, .binary .divide,
  .binary .remainder, .binary .greater, .binary .less, .binary .greaterEqual, .binary .lessEqual,
  .binary .equal, .binary .and, .binary .or, .assign ⟨false, false⟩, .assign ⟨false, true⟩,
  .assign ⟨true, false⟩, .assign ⟨true, true⟩, .call, .function, .branch, .whileLoop, .forLoop,
  .forEach .positions, .forEach .elements, .index, .method, .range false, .range true, .shift, .pop,
  .push]

theorem mem_all (head : Head) : head ∈ all := by
  cases head with
  | list | block | group | call | function | branch | whileLoop | forLoop | index | method | shift
  | pop | push => decide
  | control kind => cases kind <;> decide
  | unary operator => cases operator <;> decide
  | update step after => cases step <;> cases after <;> decide
  | binary operator => cases operator <;> decide
  | assign mode => obtain ⟨isConst, isRef⟩ := mode; cases isConst <;> cases isRef <;> decide
  | forEach walk => cases walk <;> decide
  | range inclusive => cases inclusive <;> decide

/-- The list of the construct can have that many items. -/
def admits : Head → Nat → Bool
  | .list, _ | .block, _ => true
  | .group, n | .control _, n | .unary _, n | .update _ _, n => n == 1
  | .binary _, n | .function, n | .whileLoop, n | .index, n | .shift, n | .pop, n => n == 2
  | .assign _, n | .branch, n => n == 2 || n == 3
  | .forEach _, n | .range _, n | .push, n => n == 3
  | .forLoop, n => n == 4
  | .call, n => 1 ≤ n
  | .method, n => 2 ≤ n

/-- The head is an operator before its operand. -/
def isUnary : Head → Bool
  | .unary _ => true
  | _ => false

/-- The head is an operator between its operands. -/
def isBinary : Head → Bool
  | .binary _ => true
  | _ => false

/-- Only a unary and a binary operator share a word. -/
theorem eq_or_of_word_eq : ∀ head ∈ all, ∀ head' ∈ all, head.word = head'.word →
    head = head' ∨ (head.isUnary && head'.isBinary || head.isBinary && head'.isUnary) = true := by
  decide +kernel

theorem eq_one_of_isUnary {head : Head} {n : Nat} (h : head.admits n = true)
    (hunary : head.isUnary = true) : n = 1 := by
  cases head with
  | unary operator => exact beq_iff_eq.1 h
  | _ => cases hunary

theorem eq_two_of_isBinary {head : Head} {n : Nat} (h : head.admits n = true)
    (hbinary : head.isBinary = true) : n = 2 := by
  cases head with
  | binary operator => exact beq_iff_eq.1 h
  | _ => cases hbinary

/-- The word and the number of items tell the head. -/
theorem eq_of_word_eq {head head' : Head} {n : Nat} (hword : head.word = head'.word)
    (h : head.admits n = true) (h' : head'.admits n = true) : head = head' := by
  obtain heq | hshared := eq_or_of_word_eq head head.mem_all head' head'.mem_all hword
  · exact heq
  rw [Bool.or_eq_true, Bool.and_eq_true, Bool.and_eq_true] at hshared
  obtain ⟨hunary, hbinary⟩ | ⟨hbinary, hunary⟩ := hshared
  · have hone := eq_one_of_isUnary h hunary
    have htwo := eq_two_of_isBinary h' hbinary
    omega
  · have hone := eq_one_of_isUnary h' hunary
    have htwo := eq_two_of_isBinary h hbinary
    omega

/-- The head of a list with the given word and number of items. -/
def of? (word : String) (n : Nat) : Option Head :=
  all.find? fun head => head.word == word && head.admits n

theorem of?_word {head : Head} {n : Nat} (h : head.admits n = true) :
    of? head.word n = some head := by
  unfold of?
  cases hfind : all.find? fun head' => head'.word == head.word && head'.admits n with
  | none =>
      have hno := List.find?_eq_none.1 hfind head head.mem_all
      rw [h, beq_self_eq_true] at hno
      exact absurd rfl hno
  | some head' =>
      have hyes := List.find?_some hfind
      rw [Bool.and_eq_true, beq_iff_eq] at hyes
      rw [eq_of_word_eq hyes.1 hyes.2 h]

/-- Heads are words. -/
theorem isWord_word (head : Head) : Datum.isWord head.word = true := by
  have hall : ∀ head ∈ all, Datum.isWord head.word = true := by decide +kernel
  exact hall head head.mem_all

end Head

/-! ## Trees as data -/

/-- The list that a head makes of its items. -/
def Datum.node (head : Head) (items : List Datum) : Datum := .list (.word head.word :: items)

namespace Expr

mutual

/-- The datum of an expression. -/
@[simp]
def datum : Expr → Datum
  | .number _ value => .number value
  | .boolean _ value => .word (Text.Inspect.boolean value)
  | .null _ => .word "null"
  | .string _ text => .string text
  | .character _ value => .character value
  | .identifier _ name => .word name
  | .list _ items => .node .list (dataAll items)
  | .block _ body => .node .block (dataAll body)
  | .group _ inner => .node .group [inner.datum]
  | .control _ signal => .node (.control signal.kind) [.count signal.carry]
  | .unary _ operator operand => .node (.unary operator) [operand.datum]
  | .update _ step after operand => .node (.update step after) [operand.datum]
  | .binary _ operator lhs rhs => .node (.binary operator) [lhs.datum, rhs.datum]
  | .assign _ target value limit mode =>
    .node (.assign mode)
      (if limit.isDefaultLimit then [target.datum, value.datum]
       else [target.datum, value.datum, limit.datum])
  | .call _ callee arguments => .node .call (callee.datum :: dataAll arguments)
  | .function _ parameters body _ =>
    .node .function [.list (parameters.map .word), .node .block (dataAll body)]
  | .branch _ condition success none => .node .branch [condition.datum, success.datum]
  | .branch _ condition success (some failure) =>
    .node .branch [condition.datum, success.datum, failure.datum]
  | .whileLoop _ condition body => .node .whileLoop [condition.datum, body.datum]
  | .forLoop _ start condition step body =>
    .node .forLoop [start.datum, condition.datum, step.datum, body.datum]
  | .forEach _ walk name enumerable body =>
    .node (.forEach walk) [.word name, enumerable.datum, body.datum]
  | .index _ target position => .node .index [target.datum, position.datum]
  | .method _ receiver name arguments =>
    .node .method (.word name :: receiver.datum :: dataAll arguments)
  | .range _ first last step inclusive =>
    .node (.range inclusive) [first.datum, last.datum, step.datum]
  | .shift _ source target => .node .shift [source.datum, target.datum]
  | .pop _ source position => .node .pop [source.datum, position.datum]
  | .push _ target position value => .node .push [target.datum, position.datum, value.datum]

/-- The data of expressions, in order. -/
@[simp]
def dataAll : List Expr → List Datum
  | [] => []
  | e :: rest => e.datum :: dataAll rest

end

section

variable {items : List String} {data : List Datum}
  (h : data.map Datum.text = items.map String.toList)

include h

/-- Texts with a separator before each of them. -/
theorem following_eq (separator : Char) :
    Datum.following separator data =
      (String.join (items.map (String.singleton separator ++ ·))).toList := by
  induction data generalizing items with
  | nil =>
      rw [List.map_nil, eq_comm, List.map_eq_nil_iff] at h
      rw [h]
      rfl
  | cons d data ih =>
      cases items with
      | nil => cases h
      | cons item items =>
          rw [List.map_cons, List.map_cons, List.cons.injEq] at h
          rw [List.map_cons, String.join_cons, String.toList_append, String.toList_append, ← h.1,
            ← ih h.2, String.toList_singleton, Datum.following]
          rfl

/-- Texts with a separator between each two of them. -/
theorem joined_eq (separator : Char) :
    Datum.joined separator data =
      (String.intercalate (String.singleton separator) items).toList := by
  induction data generalizing items with
  | nil =>
      rw [List.map_nil, eq_comm, List.map_eq_nil_iff] at h
      rw [h]
      rfl
  | cons d data ih =>
      cases items with
      | nil => cases h
      | cons item items =>
          rw [List.map_cons, List.map_cons, List.cons.injEq] at h
          cases data with
          | nil =>
              have hitems : items = [] := List.map_eq_nil_iff.1 h.2.symm
              rw [hitems, String.intercalate_singleton, ← h.1, Datum.joined, Datum.following,
                List.append_nil]
          | cons d' data =>
              cases items with
              | nil => cases h.2
              | cons item' items =>
                  rw [String.intercalate_cons_cons, String.toList_append, String.toList_append,
                    ← h.1, ← ih h.2, String.toList_singleton, Datum.joined, Datum.joined,
                    Datum.following, List.append_assoc]
                  rfl

/-- The text of a node is the form of its construct. -/
theorem text_node (head : Head) :
    (Datum.node head data).text = (form head.word items).toList := by
  unfold form Datum.node
  rw [Datum.text, Datum.joined, Datum.text, String.toList_append, String.toList_append,
    String.toList_append, following_eq h ' ']
  simp

end

theorem text_parameters (parameters : List String) :
    (Datum.list (parameters.map .word)).text =
      ("(" ++ String.intercalate " " parameters ++ ")").toList := by
  have hwords : (parameters.map Datum.word).map Datum.text = parameters.map String.toList := by
    rw [List.map_map]
    rfl
  rw [String.toList_append, String.toList_append, Datum.text, joined_eq hwords ' ']
  rfl

theorem form_method (name : String) (items : List String) :
    form ("method " ++ name) items = form "method" (name :: items) := by
  unfold form
  rw [List.map_cons, String.join_cons]
  apply String.toList_inj.1
  simp

mutual

/-- The text of an expression's datum is its symbolic form. -/
theorem text_datum (e : Expr) : e.datum.text = e.symbolic.toList := by
  cases e with
  | number | boolean | null | string | identifier => rw [symbolic, datum, Datum.text]
  | character _ value =>
      rw [symbolic, String.toList_append]
      rfl
  | list _ es | block _ es =>
      rw [symbolic, datum]
      exact text_node (texts_dataAll es) _
  | control _ signal =>
      rw [symbolic, datum]
      refine text_node ?_ _
      rw [List.map_cons, List.map_cons, Nat.toString_eq_ofList_toDigits, String.toList_ofList]
      rfl
  | group _ a | unary _ _ a | update _ _ _ a =>
      rw [symbolic, datum]
      refine text_node ?_ _
      rw [List.map_cons, List.map_cons, text_datum a, List.map_nil, List.map_nil]
  | binary _ _ a b | whileLoop _ a b | index _ a b | shift _ a b | pop _ a b =>
      rw [symbolic, datum]
      refine text_node ?_ _
      simp only [List.map_cons, List.map_nil, text_datum a, text_datum b]
  | range _ a b c _ | push _ a b c =>
      rw [symbolic, datum]
      refine text_node ?_ _
      simp only [List.map_cons, List.map_nil, text_datum a, text_datum b, text_datum c]
  | forLoop _ a b c d =>
      rw [symbolic, datum]
      refine text_node ?_ _
      simp only [List.map_cons, List.map_nil, text_datum a, text_datum b, text_datum c,
        text_datum d]
  | forEach _ walk name a b =>
      rw [symbolic, datum]
      refine text_node ?_ _
      simp only [List.map_cons, List.map_nil, text_datum a, text_datum b, Datum.text]
  | assign _ a b c mode =>
      rw [symbolic, datum]
      refine text_node ?_ _
      split <;> simp only [List.map_cons, List.map_nil, text_datum a, text_datum b, text_datum c]
  | branch _ a b failure =>
      cases failure with
      | none =>
          rw [symbolic, datum]
          refine text_node ?_ _
          simp only [List.map_cons, List.map_nil, text_datum a, text_datum b]
      | some c =>
          rw [symbolic, datum]
          refine text_node ?_ _
          simp only [List.map_cons, List.map_nil, text_datum a, text_datum b, text_datum c]
  | call _ a es =>
      rw [symbolic, datum]
      refine text_node ?_ _
      rw [List.map_cons, List.map_cons, text_datum a, texts_dataAll es]
  | method _ a name es =>
      rw [symbolic, datum, form_method]
      refine text_node ?_ _
      simp only [List.map_cons, text_datum a, texts_dataAll es, Datum.text]
  | function _ parameters es _ =>
      rw [symbolic, datum]
      refine text_node ?_ _
      rw [List.map_cons, List.map_cons, List.map_cons, List.map_cons, text_parameters,
        text_node (texts_dataAll es) .block]
      rfl

theorem texts_dataAll (es : List Expr) :
    (dataAll es).map Datum.text = (symbolicAll es).map String.toList := by
  cases es with
  | nil => rfl
  | cons e es =>
      rw [symbolicAll, dataAll, List.map_cons, List.map_cons, text_datum e, texts_dataAll es]

end

/-! ## Trees of which the text can be read -/

/-- The node is no number beyond all finite ones. -/
@[simp]
def isFiniteNode : Expr → Bool
  | .number _ value => value.isFinite
  | _ => true

theorem isWordPart_of_isWordStart {c : Char} (h : Token.isWordStart c = true) :
    Token.isWordPart c = true := by
  unfold Token.isWordStart at h
  unfold Token.isWordPart Char.isAlphanum
  rw [Bool.or_eq_true] at h ⊢
  exact h.imp_left fun h => by rw [h]; rfl

/-- Names are words. -/
theorem isWord_of_isName {name : String} (h : Token.isName name = true) :
    Datum.isWord name = true := by
  unfold Token.isName at h
  unfold Datum.isWord
  split at h
  · cases h
  · rename_i first rest htext
    rw [Bool.and_eq_true, Bool.and_eq_true, List.all_eq_true] at h
    obtain ⟨⟨hstart, hrest⟩, -⟩ := h
    have hplain : ∀ c ∈ first :: rest, Datum.isPlain c = true := by
      intro c hc
      refine Datum.isPlain_of_class (P := Token.isWordPart) rfl ?_
      obtain rfl | hc := List.mem_cons.1 hc
      · exact isWordPart_of_isWordStart hstart
      · exact hrest c hc
    have hnumber : Number.startsNumber (first :: rest) = false := by
      unfold Number.startsNumber
      split
      · rename_i heq
        rw [(List.cons.inj heq).1] at hstart
        exact absurd hstart (by decide)
      · rename_i heq
        rw [← (List.cons.inj heq).1]
        exact Token.isDigit_of_isWordStart hstart
      · rfl
    rw [htext, hnumber, List.all_eq_true.2 hplain]
    rfl

theorem areReadable_words {parameters : List String} (h : parameters.all Token.isName = true) :
    Datum.areReadable (parameters.map .word) = true := by
  induction parameters with
  | nil => rfl
  | cons name parameters ih =>
      rw [List.all_cons, Bool.and_eq_true] at h
      rw [List.map_cons, Datum.areReadable, Datum.isReadable, isWord_of_isName h.1, ih h.2]
      rfl

theorem isReadable_node (head : Head) (items : List Datum) :
    (Datum.node head items).isReadable = Datum.areReadable items := by
  unfold Datum.node
  rw [Datum.isReadable, Datum.areReadable, Datum.isReadable, head.isWord_word, Bool.true_and]

mutual

/-- What a text can give, with finite numbers only, is told by its symbolic form. -/
theorem isReadable_datum (e : Expr) (hlegible : e.every legible = true)
    (hfinite : e.every isFiniteNode = true) : e.datum.isReadable = true := by
  cases e with
  | number _ value => simpa using hfinite
  | boolean _ value =>
      rw [datum]
      cases value <;> decide
  | null =>
      rw [datum]
      decide
  | string | character => rfl
  | identifier _ name =>
      rw [every, legible, Bool.and_true] at hlegible
      exact isWord_of_isName hlegible
  | control _ signal =>
      rw [datum, isReadable_node]
      rfl
  | list _ es | block _ es =>
      simp only [every, Bool.and_eq_true] at hlegible hfinite
      rw [datum, isReadable_node]
      exact areReadable_dataAll es hlegible.2 hfinite.2
  | group _ a | unary _ _ a | update _ _ _ a =>
      simp only [every, Bool.and_eq_true] at hlegible hfinite
      rw [datum, isReadable_node]
      simp [isReadable_datum a hlegible.2 hfinite.2]
  | binary _ _ a b | whileLoop _ a b | index _ a b | shift _ a b | pop _ a b =>
      simp only [every, Bool.and_eq_true] at hlegible hfinite
      rw [datum, isReadable_node]
      simp [isReadable_datum a hlegible.2.1 hfinite.2.1,
        isReadable_datum b hlegible.2.2 hfinite.2.2]
  | range _ a b c _ | push _ a b c =>
      simp only [every, Bool.and_eq_true] at hlegible hfinite
      rw [datum, isReadable_node]
      simp [isReadable_datum a hlegible.2.1.1 hfinite.2.1.1,
        isReadable_datum b hlegible.2.1.2 hfinite.2.1.2,
        isReadable_datum c hlegible.2.2 hfinite.2.2]
  | forLoop _ a b c d =>
      simp only [every, Bool.and_eq_true] at hlegible hfinite
      rw [datum, isReadable_node]
      simp [isReadable_datum a hlegible.2.1.1.1 hfinite.2.1.1.1,
        isReadable_datum b hlegible.2.1.1.2 hfinite.2.1.1.2,
        isReadable_datum c hlegible.2.1.2 hfinite.2.1.2,
        isReadable_datum d hlegible.2.2 hfinite.2.2]
  | forEach _ walk name a b =>
      simp only [every, Bool.and_eq_true] at hlegible hfinite
      rw [datum, isReadable_node]
      simp [isWord_of_isName hlegible.1, isReadable_datum a hlegible.2.1 hfinite.2.1,
        isReadable_datum b hlegible.2.2 hfinite.2.2]
  | assign _ a b c mode =>
      simp only [every, Bool.and_eq_true] at hlegible hfinite
      rw [datum, isReadable_node]
      split <;> simp [isReadable_datum a hlegible.2.1.1 hfinite.2.1.1,
        isReadable_datum b hlegible.2.1.2 hfinite.2.1.2,
        isReadable_datum c hlegible.2.2 hfinite.2.2]
  | branch _ a b failure =>
      cases failure with
      | none =>
          simp only [every, Bool.and_eq_true] at hlegible hfinite
          rw [datum, isReadable_node]
          simp [isReadable_datum a hlegible.2.1 hfinite.2.1,
            isReadable_datum b hlegible.2.2 hfinite.2.2]
      | some c =>
          simp only [every, Bool.and_eq_true] at hlegible hfinite
          rw [datum, isReadable_node]
          simp [isReadable_datum a hlegible.2.1.1 hfinite.2.1.1,
            isReadable_datum b hlegible.2.1.2 hfinite.2.1.2,
            isReadable_datum c hlegible.2.2 hfinite.2.2]
  | call _ a es =>
      simp only [every, Bool.and_eq_true] at hlegible hfinite
      rw [datum, isReadable_node]
      simp [isReadable_datum a hlegible.2.1 hfinite.2.1,
        areReadable_dataAll es hlegible.2.2 hfinite.2.2]
  | method _ a name es =>
      simp only [every, Bool.and_eq_true] at hlegible hfinite
      rw [datum, isReadable_node]
      simp [isWord_of_isName hlegible.1, isReadable_datum a hlegible.2.1 hfinite.2.1,
        areReadable_dataAll es hlegible.2.2 hfinite.2.2]
  | function _ parameters es _ =>
      simp only [every, Bool.and_eq_true] at hlegible hfinite
      rw [datum, isReadable_node]
      simp [areReadable_words hlegible.1, isReadable_node,
        areReadable_dataAll es hlegible.2 hfinite.2]

theorem areReadable_dataAll (es : List Expr) (hlegible : everyAll legible es = true)
    (hfinite : everyAll isFiniteNode es = true) : Datum.areReadable (dataAll es) = true := by
  cases es with
  | nil => rfl
  | cons e es =>
      rw [everyAll, Bool.and_eq_true] at hlegible hfinite
      rw [dataAll, Datum.areReadable, isReadable_datum e hlegible.1 hfinite.1,
        areReadable_dataAll es hlegible.2 hfinite.2]
      rfl

end

end Expr

end ListScript
