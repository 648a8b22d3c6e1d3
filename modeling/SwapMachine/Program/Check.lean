import SwapMachine.Program.Record

/-!
# SwapMachine.Program.Check — what can be said of a program without running it

* `validate` decodes all records, then parses each and checks that it jumps only forward and only to
  the start of a record or to the end of the program.
* `swapPoint` finds the first swap; records behind it are not looked at.
* `listing` shows one instruction a line.
-/

namespace SwapMachine.Program

/-- The places where a record starts or the program ends. -/
def boundaries (records : List Record) (program : Bytes) : List Nat :=
  program.length :: records.map Record.pc

/-- Refuses a record that does not parse or that jumps elsewhere than ahead to a boundary. -/
def checkRecord (places : List Nat) (r : Record) : Outcome Unit := do
  match (← r.parse).target? with
  | none => return
  | some target =>
    if target ≤ r.pc ∨ ¬ places.contains target then .error (.program (.badJump r.pc target))

/-- Checks records in turn. -/
def checkRecords (places : List Nat) : List Record → Outcome Unit
  | [] => .ok ()
  | r :: rs => do
    checkRecord places r
    checkRecords places rs

/-- The records of a valid program. -/
def validate (set : InstructionSet) (program : Bytes) : Outcome (List Record) := do
  let records ← (Scan.of set program).all
  checkRecords (boundaries records program) records
  return records

/-- The place of the first swap. -/
def swapPoint (set : InstructionSet) (program : Bytes) : Outcome Nat :=
  let scan := Scan.of set program
  match scan.records.find? fun r => r.opcode.isSwap with
  | some r => .ok r.pc
  | none =>
    match scan.fault with
    | some f => .error f
    | none => .error (.program .noSwap)

/-- The instructions of records. -/
def parseRecords : List Record → Outcome (List Instruction)
  | [] => .ok []
  | r :: rs => do
    let i ← r.parse
    return i :: (← parseRecords rs)

/-- The instructions of a program; a record that does not parse is reported before a malformation
behind it. -/
def instructions (set : InstructionSet) (program : Bytes) : Outcome (List Instruction) := do
  let scan := Scan.of set program
  scan.result (← parseRecords scan.records)

/-- A place in four digits at least. -/
def displayPlace (pc : Nat) : String :=
  let ds := toString pc
  String.ofList (List.replicate (4 - ds.length) '0') ++ ds

/-- The line of a record; parameters are shown if there are argument bytes. -/
def line (r : Record) (i : Instruction) : String :=
  let head := s!"{displayPlace r.pc}: {r.opcode.name}"
  if r.args.isEmpty then head else s!"{head} {i.display}"

/-- The listing of a program. -/
def listing (set : InstructionSet) (program : Bytes) : Outcome String := do
  let instructions ← instructions set program
  let records := (Scan.of set program).records
  return "\n".intercalate (List.zipWith line records instructions)

end SwapMachine.Program
