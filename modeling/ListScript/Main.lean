import ListScript.Command
import Mathlib.Init

/-!
# The command line

Reads a script from a file, carries out a command on it, and writes what the command yields.
-/

namespace ListScript

/-- How the command line is used. -/
def usage : String :=
  "usage: listscript (tokenize | parse | evaluate | run) FILE [--format FORMAT]"
    ++ " [--max-iterations N] [--max-call-depth N]"

/-- Write what a command yields, and exit as it says. -/
def Command.Outcome.write (outcome : Command.Outcome) : IO UInt32 := do
  for line in outcome.results do IO.println line
  let errors := match outcome.diagnostics with
    | .lines lines => lines
    | .report report => report.lines
  for line in errors do IO.eprintln line
  return outcome.exit.toUInt32

/-- The time in seconds since the epoch. -/
def secondsSinceEpoch : IO Number := do
  let time ← Std.Time.Timestamp.now
  let nanos := time.toNanosecondsSinceUnixEpoch.val.toNat
  return .ofNat (nanos / 1000000000) + .ofNat (nanos % 1000000000) / .ofNat 1000000000

/-- Carry out the command that the arguments give. Running a script is a function of what its clock
will show, so every reading gives the time at which the command began. -/
def runArguments : List String → IO UInt32
  | name :: path :: rest => do
    let time ← secondsSinceEpoch
    match Command.ofArguments? { now := fun _ => time } name rest with
    | some command => (command.perform (← IO.FS.readFile path) path).write
    | none => do
      IO.eprintln usage
      return 2
  | _ => do
    IO.eprintln usage
    return 2

end ListScript

/-- The entry point. -/
def main (arguments : List String) : IO UInt32 := ListScript.runArguments arguments
