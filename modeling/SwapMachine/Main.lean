import SwapMachine.Tool.Demonstration
import SwapMachine.Tool.Disassembly
import Std.Time.DateTime.Timestamp

/-!
# SwapMachine.Main — the command line

* `disassemble --hex=DIGITS` and `disassemble --file=PATH` list a program.
* `demo` runs the demonstration with the settings of the environment and the time of the clock.
-/

namespace SwapMachine.CommandLine

open Tool

/-- What is printed when the arguments make no command. -/
def usage : String := "usage: disassemble --hex=DIGITS | disassemble --file=PATH | demo"

/-- The value of an argument with a name. -/
def valueOf? (name arg : String) : Option String :=
  if arg.startsWith name then some (arg.drop name.length).toString else none

/-- The variables that settings are read from. -/
def variableNames : List String :=
  ["MAX_PROGRAM_BYTES", "CORRECTION_MAX_ITERATIONS", "CORRECTION_MIN_STEP",
    "REQUIRE_REGISTRATION"].map (Settings.variablePrefix ++ ·)

/-- Prints a result. -/
def finish (r : Result) : IO UInt32 := do
  IO.print r.text
  return UInt32.ofNat r.code

/-- Prints the lines of the log that matter to a user. -/
def printLog (log : List LogLine) : IO Unit :=
  (log.filter fun l => l.level ≠ .debug).forM fun l =>
    IO.eprintln s!"[swapvm-demo] {l.level.name} {l.source}: {l.text}"

/-- Runs the demonstration. -/
def demonstrate : IO UInt32 := do
  let mut env : Settings.Environment := []
  for name in variableNames do
    match ← IO.getEnv name with
    | some value => env := (name, value) :: env
    | none => pure ()
  let time ← Std.Time.Timestamp.now
  let report := Demonstration.run env time.toSecondsSinceUnixEpoch.val
  printLog report.log
  match report.outcome with
  | .ok result => finish result
  | .error f =>
    IO.eprintln s!"{f.kind.name}: {f.message}"
    return 1

/-- Runs the command that the arguments give. -/
def run (args : List String) : IO UInt32 := do
  match args with
  | ["demo"] => demonstrate
  | ["disassemble", arg] =>
    match valueOf? "--hex=" arg, valueOf? "--file=" arg with
    | some text, _ => finish (Disassembly.run text)
    | none, some path => finish (Disassembly.run (← IO.FS.readFile path))
    | none, none =>
      IO.eprintln usage
      return 2
  | _ =>
    IO.eprintln usage
    return 2

end SwapMachine.CommandLine

def main (args : List String) : IO UInt32 := SwapMachine.CommandLine.run args
