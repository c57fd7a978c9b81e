import ListScript.Expr.Parser
import ListScript.Expr.Printer
import ListScript.Report
import ListScript.Session
import ListScript.Token.Listing

/-!
# Commands

What can be done with a script from the command line: list its tokens, show its expressions, or run
it, with or without showing the value that it yields. A command is a function of the script's text
and yields all that is written and the exit code.
-/

namespace ListScript

/-- How results and errors are shown. -/
inductive Format where
  /-- The structural form. -/
  | debug
  /-- The plain form; for errors, a line each. -/
  | basic
  /-- The plain form; for errors, a report. -/
  | pretty
  deriving DecidableEq, Repr

/-- What can be done with a script. -/
inductive Command where
  /-- List the tokens. -/
  | tokenize (format : Format)
  /-- Show the expressions. -/
  | parse (format : Format)
  /-- Run the script, and show its value if asked to. -/
  | execute (format : Format) (config : Config) (showsValue : Bool)

namespace Command

/-- What is written about errors. -/
inductive Diagnostics where
  /-- Lines of text. -/
  | lines (lines : List String)
  /-- A report. -/
  | report (report : Report)

/-- What a command does. -/
structure Outcome where
  /-- The exit code. -/
  exit : Nat
  /-- The lines written as results. -/
  results : List String
  /-- What is written about errors. -/
  diagnostics : Diagnostics

/-- The exit code of a script that cannot be read. -/
def exitUnreadable : Nat := 65

/-- The exit code of a script that fails. -/
def exitFailed : Nat := 70

/-- What is written about a script that cannot be read. -/
def parseDiagnostics (format : Format) (text path : String) (error : ParseError) : Diagnostics :=
  match format with
  | .debug => .lines [error.inspect]
  | .basic => .lines [error.summary (.ofText text)]
  | .pretty => .report (.ofParseError text path error)

/-- What is written about a script that fails. -/
def runtimeDiagnostics (format : Format) (text path : String) (error : RuntimeError) :
    Diagnostics :=
  match format with
  | .debug => .lines [error.inspect]
  | .basic => .lines [error.summary (.ofText text)]
  | .pretty => .report (.ofRuntimeError text path error)

/-- A value that a script yields, as it is shown. -/
def shownValue (format : Format) (session : Session) (value : Value) : String :=
  match format with
  | .debug => session.inspect value
  | .basic | .pretty => session.print value

/-- List the tokens of a text, going on after what is no token. -/
def listTokens (format : Format) (text : String) : Outcome :=
  let items := Token.scan text
  let lines := Lines.ofText text
  let showToken (token : Token) : String :=
    match format with
    | .debug => token.inspect
    | .basic | .pretty => token.listing
  let showError (error : LexError) : String :=
    match format with
    | .debug => error.inspect
    | .basic | .pretty => error.listing lines
  let errors := items.filterMap fun
    | .ok _ => none
    | .error error => some error
  let tokens := items.filterMap fun
    | .ok token => some token
    | .error _ => none
  { exit := if errors.isEmpty then 0 else exitUnreadable
    results := (tokens ++ [Token.ending text.utf8ByteSize]).map showToken
    diagnostics := .lines (errors.map showError) }

/-- Show the expressions of a text. -/
def showExpressions (format : Format) (text path : String) : Outcome :=
  match Block.parse text with
  | .error error => ⟨exitUnreadable, [], parseDiagnostics format text path error⟩
  | .ok program =>
    let shown := match format with
      | .debug => program.inspectLines
      | .basic | .pretty => program.symbolic
    ⟨0, [shown], .lines []⟩

/-- Run a text as a program, with whatever carries programs out. -/
def runScriptBy (run : Session → Block → Except RuntimeError Value × Session) (format : Format)
    (config : Config) (showsValue : Bool) (text path : String) : Outcome :=
  match Block.parse text with
  | .error error => ⟨exitUnreadable, [], parseDiagnostics format text path error⟩
  | .ok program =>
    match run (Session.start config) program with
    | (.error error, session) =>
      ⟨exitFailed, session.printedSince 0, runtimeDiagnostics format text path error⟩
    | (.ok value, session) =>
      let shown := if showsValue then [shownValue format session value] else []
      ⟨0, session.printedSince 0 ++ shown, .lines []⟩

/-- Run a text as a program. -/
def runScript : Format → Config → Bool → String → String → Outcome := runScriptBy Session.run

/-- Carry out a command on the text of a script at a path. -/
def perform (text path : String) : Command → Outcome
  | .tokenize format => listTokens format text
  | .parse format => showExpressions format text path
  | .execute format config showsValue => runScript format config showsValue text path

/-- Settings that the arguments of a command give. -/
structure Settings where
  /-- How results and errors are shown. -/
  format : Format := .basic
  /-- What the script is told from outside. -/
  config : Config

/-- A natural number as it is written in an argument. -/
def natural? (text : String) : Option Nat :=
  let digits := match text.toList with
    | '+' :: rest => rest
    | all => all
  if digits.isEmpty || !digits.all Char.isDigit then none
  else some (digits.foldl (fun n c => 10 * n + (c.toNat - '0'.toNat)) 0)

/-- A format that is one of those allowed, by its name. -/
def format? (allowed : List (String × Format)) (name : String) : Option Format :=
  allowed.lookup name

/-- One setting changed. The limits belong to the commands that run a script. -/
def setting? (allowed : List (String × Format)) (runs : Bool) (settings : Settings)
    (name value : String) : Option Settings :=
  match name, runs with
  | "--format", _ => (format? allowed value).map fun format => { settings with format }
  | "--max-iterations", true => (natural? value).map fun maxIterations =>
    { settings with config := { settings.config with maxIterations } }
  | "--max-call-depth", true => (natural? value).map fun maxCallDepth =>
    { settings with config := { settings.config with maxCallDepth } }
  | _, _ => none

/-- A setting and its value in one argument, joined by an equals sign. -/
def joined? (argument : String) : Option (String × String) :=
  match argument.splitOn "=" with
  | name :: first :: rest => some (name, "=".intercalate (first :: rest))
  | _ => none

/-- Read the settings out of arguments. -/
def settings? (allowed : List (String × Format)) (runs : Bool) :
    List String → Settings → Option Settings
  | [], settings => some settings
  | argument :: rest, settings =>
    match joined? argument, rest with
    | some (name, value), rest => do
      settings? allowed runs rest (← setting? allowed runs settings name value)
    | none, value :: rest => do
      settings? allowed runs rest (← setting? allowed runs settings argument value)
    | none, [] => none

/-- The formats of tokens. -/
def tokenFormats : List (String × Format) := [("debug", .debug), ("basic", .basic)]

/-- The formats of expressions. -/
def expressionFormats : List (String × Format) := [("debug", .debug), ("sexpr", .basic)]

/-- The formats of errors. -/
def errorFormats : List (String × Format) :=
  [("debug", .debug), ("basic", .basic), ("pretty", .pretty)]

/-- The command of the given name with the given arguments. -/
def ofArguments? (config : Config) (name : String) (arguments : List String) : Option Command :=
  match name with
  | "tokenize" => do
    let settings ← settings? tokenFormats false arguments { config }
    return .tokenize settings.format
  | "parse" => do
    let settings ← settings? expressionFormats false arguments { config }
    return .parse settings.format
  | "evaluate" => do
    let settings ← settings? errorFormats true arguments { config }
    return .execute settings.format settings.config true
  | "run" => do
    let settings ← settings? errorFormats true arguments { config }
    return .execute settings.format settings.config false
  | _ => none

end Command

end ListScript
