import SwapMachine.Intake.Field
import SwapMachine.Program.Record

/-!
# SwapMachine.Intake.Record — programs and instruction sets from data not yet looked at

* `records` writes one record after another, so that whatever stands behind a bad one is not looked
  at. Of one record the number is looked at first, then the size of the arguments, then the
  arguments.
* `instructionSet` adds numbers one by one in the same way.
-/

namespace SwapMachine.Intake

/-! ### Programs -/

/-- The record of an opcode number and arguments. -/
def record (number args : Datum) : Outcome Bytes := do
  let n ← numeral "opcode" number
  Record.requireNumber n
  let header ← Record.header n (← size args)
  return header ++ (← rawField args)

/-- The program of records given by opcode numbers and arguments. -/
def records : List (Datum × Datum) → Outcome Bytes
  | [] => .ok []
  | (number, args) :: rs => do
    let r ← record number args
    return r ++ (← records rs)

/-! ### Instruction sets -/

/-- The opcode number that a datum holds; numbers out of range are refused as they were given. -/
def opcodeNumber (d : Datum) : Outcome Int :=
  if ¬ ((Datum.int 0).isBelow d ∧ d.isBelow (.int 256)) then
    .error (.program (.opcodeRange d))
  else
    match d with
    | .int n => .ok n
    | .bool b => .ok (if b then 1 else 0)
    | _ => .error (.notInt "opcode")

/-- Adds opcode numbers one by one. -/
def addNumbers (known : List Nat) : List Datum → Outcome (List Nat)
  | [] => .ok known
  | d :: ds => do addNumbers (← InstructionSet.addAll known [← opcodeNumber d]) ds

/-- The set of the given opcode numbers. -/
def instructionSet (ds : List Datum) : Outcome InstructionSet := return ⟨← addNumbers [] ds⟩

/-! ### Places -/

/-- The place where a walk of a program is to start; one out of range is refused as it was given. -/
def startPlace (program : Bytes) (d : Datum) : Outcome Int :=
  match d with
  | .int n => .ok n
  | .bool b => .ok (if b then 1 else 0)
  | d =>
    if (Datum.int 0).isAtMost d ∧ d.isAtMost (.int program.length) then .error (.notInt "start_pc")
    else .error (.program (.startOutOfRange d))

end SwapMachine.Intake
