import ListScript.Expr.Basic

/-!
# Values

What expressions evaluate to. A list is known by its identity in the heap, a function by its literal
and the scope that the literal was evaluated in. Two kinds of value never stay: control signals on
their way out, and the mark of an expression that yields nothing.
-/

namespace ListScript

/-- The identity of a list in the heap. -/
abbrev ListId := Nat

/-- The identity of a scope. -/
abbrev ScopeId := Nat

/-- The functions that every script finds bound. -/
inductive Native where
  /-- Write the arguments to the output. -/
  | print
  /-- The length of a list. -/
  | len
  /-- The time of day. -/
  | clock
  deriving DecidableEq, Repr

/-- A function literal together with its scope. -/
structure Closure where
  /-- The names of the parameters. -/
  parameters : List String
  /-- The expressions of the body. -/
  body : List Expr
  /-- The scope that the literal was evaluated in. -/
  scope : ScopeId

/-- A value. -/
inductive Value where
  /-- The null value. -/
  | null
  /-- A number. -/
  | number (value : Number)
  /-- A truth value. -/
  | boolean (value : Bool)
  /-- A character. -/
  | character (value : Char)
  /-- A list. -/
  | list (id : ListId)
  /-- A function of the script. -/
  | function (closure : Closure)
  /-- A function of the host. -/
  | native (native : Native)
  /-- A control signal on its way. -/
  | control (signal : Control)
  /-- The mark of an expression that yields nothing. -/
  | nothing

instance : Inhabited Value := ⟨.null⟩

namespace Value

/-- The kinds of values. -/
inductive Kind where
  | null | number | boolean | character | list | function | native | control | nothing
  deriving DecidableEq, Repr

/-- What messages call the kind. -/
def Kind.label : Kind → String
  | .null => "Null"
  | .number => "Number"
  | .boolean => "Boolean"
  | .character => "Character"
  | .list => "List"
  | .function => "Function"
  | .native => "NativeFunction"
  | .control => "Control"
  | .nothing => "None"

/-- The kind of a value. -/
def kind : Value → Kind
  | .null => .null
  | .number _ => .number
  | .boolean _ => .boolean
  | .character _ => .character
  | .list _ => .list
  | .function _ => .function
  | .native _ => .native
  | .control _ => .control
  | .nothing => .nothing

/-- The value is the null value. -/
def isNull : Value → Bool
  | .null => true
  | _ => false

/-- The value has elements. -/
def isIndexable : Value → Bool
  | .list _ => true
  | _ => false

/-- The value is a character. -/
def isCharacter : Value → Bool
  | .character _ => true
  | _ => false

end Value

end ListScript
