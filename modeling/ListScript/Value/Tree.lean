import ListScript.Value.Path

/-!
# Values as trees

The texts of a value are texts of a finite tree: the value with its lists unfolded, each list that
is met inside itself being cut off.
-/

namespace ListScript

/-- A value with its lists unfolded. -/
inductive Tree where
  /-- A value that is no list. -/
  | leaf (value : Value)
  /-- A list. -/
  | node (items : List Tree)
  /-- A list met inside itself. -/
  | cycle

/-- The tree of a value met inside the lists of a path. -/
def Heap.treeWithin (heap : Heap) (path : List ListId) : Value → Tree
  | .list id =>
    if _hpath : id ∈ path then .cycle
    else if _hsize : id < heap.size then
      .node ((heap.items id).map fun item => heap.treeWithin (id :: path) item)
    else .node []
  | value => .leaf value
termination_by heap.outside path
decreasing_by exact outside_cons_lt _hsize _hpath

/-- The tree of a value. -/
def Heap.tree (heap : Heap) (value : Value) : Tree := heap.treeWithin [] value

namespace Native

/-- The name under which scripts find the function. -/
def name : Native → String
  | .print => "print"
  | .len => "len"
  | .clock => "clock"

/-- The function's name in structural text. -/
def inspect : Native → String
  | .print => "NativePrint"
  | .len => "NativeLen"
  | .clock => "NativeClock"

end Native

namespace Tree

/-- The tree is a character. -/
def isCharacter : Tree → Bool
  | .leaf value => value.isCharacter
  | _ => false

/-- The print form of a value that is no list. -/
def printLeaf : Value → String
  | .null => "null"
  | .number value => value.print
  | .boolean value => Text.Inspect.boolean value
  | .character value => value.toString
  | .list _ => "[...]"
  | .function closure => "<fn(" ++ String.intercalate ", " closure.parameters ++ ")>"
  | .native function => "<native fn " ++ function.name ++ ">"
  | .control signal => "<" ++ signal.kind.word ++ ">"
  | .nothing => "none"

/-- The structural text of a value that is no list. -/
def inspectLeaf : Value → String
  | .null => "Null"
  | .number value => Text.Inspect.variant "Number" [value.inspect]
  | .boolean value => Text.Inspect.variant "Boolean" [Text.Inspect.boolean value]
  | .character value => Text.Inspect.variant "Character" [Text.quoteChar value]
  | .list _ => Text.Inspect.variant "List" ["[...]"]
  | .function closure =>
    Text.Inspect.variant "Function"
      [Text.Inspect.record "Function"
        [("parameters", Text.Inspect.names closure.parameters ++ ", ..")]]
  | .native native => Text.Inspect.variant "NativeFunction" [native.inspect]
  | .control signal =>
    Text.Inspect.variant "Control"
      [Text.Inspect.record "Control"
        [("kind", signal.kind.inspect), ("carry", toString signal.carry)]]
  | .nothing => "None"

/-- The text of a value that is no list; functions, signals and nothing have none. -/
def textLeaf : Value → Except Fault String
  | .null => .ok "null"
  | .number value => .ok value.print
  | .boolean value => .ok (Text.Inspect.boolean value)
  | .character value => .ok value.toString
  | value => .error (.nonStringable value.kind)

mutual

/-- The print form. A list of characters, unless it is empty, prints as the text that it spells. -/
def print : Tree → String
  | .leaf value => printLeaf value
  | .node items =>
    if !items.isEmpty && items.all isCharacter then String.join (printAll items)
    else "[" ++ String.intercalate ", " (printAll items) ++ "]"
  | .cycle => "[...]"

/-- The print forms of trees, in order. -/
def printAll : List Tree → List String
  | [] => []
  | tree :: rest => tree.print :: printAll rest

end

mutual

/-- The structural text. -/
def inspect : Tree → String
  | .leaf value => inspectLeaf value
  | .node items => Text.Inspect.variant "List" [Text.Inspect.list (inspectAll items)]
  | .cycle => Text.Inspect.variant "List" ["[...]"]

/-- The structural texts of trees, in order. -/
def inspectAll : List Tree → List String
  | [] => []
  | tree :: rest => tree.inspect :: inspectAll rest

end

mutual

/-- The text that a value spells, without any mark around or between a list's elements. -/
def text : Tree → Except Fault String
  | .leaf value => textLeaf value
  | .node items => String.join <$> textAll items
  | .cycle => .ok ""

/-- The texts of trees, in order. -/
def textAll : List Tree → Except Fault (List String)
  | [] => .ok []
  | tree :: rest => do
    let first ← tree.text
    let others ← textAll rest
    return first :: others

end

end Tree

namespace Value

/-- The form in which scripts print a value. -/
def print (heap : Heap) (value : Value) : String := (heap.tree value).print

/-- The structural text of a value. -/
def inspect (heap : Heap) (value : Value) : String := (heap.tree value).inspect

/-- The text that a value spells. -/
def text (heap : Heap) (value : Value) : Except Fault String := (heap.tree value).text

/-- The structural text of some values in brackets. -/
def inspectList (heap : Heap) (values : List Value) : String :=
  Text.Inspect.list (values.map (·.inspect heap))

end Value

end ListScript
