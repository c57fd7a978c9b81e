import ListScript.Eval.Basic

/-!
# Sessions

A session runs one program after the other on the same machine. What a program has done before it
failed stays done.
-/

namespace ListScript

/-- A machine together with the global scope of the programs that run on it. -/
structure Session where
  /-- What the programs are told from outside. -/
  config : Config
  /-- The global scope. -/
  scope : ScopeId
  /-- The state that the programs so far have left. -/
  machine : Machine

namespace Session

/-- A session in which no program has run yet. -/
def start (config : Config) : Session :=
  let (scope, scopes) := Scopes.none.newGlobal
  ⟨config, scope, ⟨.empty, scopes, #[], 0, 0⟩⟩

/-- Where the next program of the session is evaluated. -/
def context (session : Session) : Context :=
  ⟨session.config,
    Closure.call session.config (session.config.maxCallDepth - session.machine.depth),
    session.scope⟩

/-- Evaluate something in the session. -/
def perform (session : Session) (action : Context → Eval Value) :
    Except RuntimeError Value × Session :=
  let context := session.context
  let ⟨config, scope, machine⟩ := session
  match action context machine with
  | .ok value machine => (.ok value, ⟨config, scope, machine⟩)
  | .error error machine => (.error error, ⟨config, scope, machine⟩)

/-- Run a program and yield its last value. The session remembers each value on the way. -/
def run (session : Session) (program : Block) : Except RuntimeError Value × Session :=
  session.perform fun context => do
    let value ← Expr.evalBlock context true .nothing program.body
    Eval.settle program.span value

/-- Evaluate one expression, which may also yield a control signal or nothing. -/
def evaluate (session : Session) (e : Expr) : Except RuntimeError Value × Session :=
  session.perform fun context => e.eval context

/-- The last value that a program yielded. -/
def lastOutput? (session : Session) : Option Value :=
  session.machine.scopes.lastOutput? session.scope

/-- The text that a value prints as in the present state. -/
def print (session : Session) (value : Value) : String := value.print session.machine.heap

/-- The structural text of a value in the present state. -/
def inspect (session : Session) (value : Value) : String := value.inspect session.machine.heap

/-- Texts as they are written, each with an end of line. -/
def written (texts : List String) : String := String.join (texts.map (· ++ "\n"))

/-- The lines that a text makes up, without the carriage returns at their ends. -/
def linesOf (text : String) : List String :=
  (text.splitOn "\n").map fun line =>
    if line.endsWith "\r" then (line.dropEnd 1).toString else line

/-- The number of texts printed so far. -/
def printed (session : Session) : Nat := session.machine.output.size

/-- The texts printed after the first ones. -/
def printedSince (session : Session) (count : Nat) : List String :=
  session.machine.output.toList.drop count

/-- Everything printed so far. -/
def output (session : Session) : String := written (session.printedSince 0)

/-- The lines printed after the first texts. -/
def linesSince (session : Session) (count : Nat) : List String :=
  (session.printedSince count).flatMap linesOf

end Session

namespace Scopes

/-- A function of the host under the name that it has from the start. -/
def isBuiltin : String × Value → Bool
  | (name, .native native) => name = native.name
  | _ => false

/-- The names bound in a scope, sorted, with the structural texts of their values. The functions of
the host are left out where they have their own names. -/
def listing (s : Scopes) (heap : Heap) (id : ScopeId) : List (String × String) :=
  ((s.contents id).filter (!isBuiltin ·)).map fun (name, value) => (name, value.inspect heap)

end Scopes

/-- The names that programs have bound, sorted, with the structural texts of their values. -/
def Session.globals (session : Session) : List (String × String) :=
  session.machine.scopes.listing session.machine.heap session.scope

end ListScript
