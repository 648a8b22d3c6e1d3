import SwapMachine.Intake.Field
import SwapMachine.Program.Record

/-!
# SwapMachine.Program.Assembly — programs put together step by step, with labels for jump targets

A step appends an instruction or sets a label at the place reached so far. Operands are encoded when
the step is taken, except those of jumps: their labels may be set later, so they are encoded when
the program is built.

* `Assembly.step` takes a step, `Assembly.build` gives the program, `Assembly.assemble` does both.
* The size of every instruction is known when it is appended, so labels are places from the start.
-/

namespace SwapMachine

open Block

/-- A step of an assembly; operands are as the caller gives them. -/
inductive Step where
  | raw (number args : Datum)
  | label (name : String)
  | jump (label : String)
  | jumpIfTokenIn (token : Datum) (label : String)
  | jumpIfTokenOut (token : Datum) (label : String)
  | deadline (time : Datum)
  | takerHolds (token : Datum)
  | takerHoldsAtLeast (token minimum : Datum)
  | takerShareAtLeast (token minimum : Datum)
  | salt (bytes : Datum)
  | staticBalances (entries : List (Datum × Datum))
  | dynamicBalances (entries : List (Datum × Datum))
  | decay (period : Datum)
  | concentrate (tokenA deltaA tokenB deltaB liquidity : Datum)
  | flatFeeIn (fee : Datum)
  | flatFeeOut (fee : Datum)
  | dynamicFeeIn (source : Datum)
  | constantProduct (alpha : Datum)
  | pegged (rate : Datum)
  | density (capacity basePrice strength shape spread : Datum)

/-- The arguments of an appended instruction: bytes, or what becomes bytes once labels are known. -/
inductive Operands where
  | bytes (args : Bytes)
  | target (label : String)
  | tokenTarget (token : Datum) (label : String)

/-- The number of bytes that the operands take. -/
def Operands.size : Operands → Nat
  | bytes args => args.length
  | target _ => 2
  | tokenTarget .. => 22

/-- An appended instruction. -/
structure Item where
  number : Datum
  operands : Operands

/-- The instructions appended so far, the labels set so far, and the place reached. -/
structure Assembly where
  items : List Item
  labels : List (String × Nat)
  size : Nat

namespace Assembly

/-- Nothing appended yet. -/
def empty : Assembly := ⟨[], [], 0⟩

/-- Appends an instruction with an opcode number, which is looked at when the program is built. -/
def append (a : Assembly) (number : Datum) (operands : Operands) : Assembly :=
  { a with
    items := a.items ++ [⟨number, operands⟩]
    size := a.size + Record.headerSize + operands.size }

/-- Appends an operation whose fields are known. -/
def appendFields (a : Assembly) (op : Opcode) (fields : Outcome Bytes) : Outcome Assembly := do
  return a.append (.int op.number) (.bytes (← Writer.complete (← fields)))

/-- A token and a number of the given width. -/
def tokenAnd (token : Datum) (bits : Int) (value : Datum) : Outcome Bytes :=
  return (← Intake.addressField token) ++ (← Intake.uintField bits value)

/-- The fields of a concentration. -/
def concentrationFields (tokenA deltaA tokenB deltaB liquidity : Datum) : Outcome Bytes :=
  return (← tokenAnd tokenA 256 deltaA) ++ (← tokenAnd tokenB 256 deltaB)
    ++ (← Intake.uintField 256 liquidity)

/-- The fields of a density curve. -/
def densityFields (capacity basePrice strength shape spread : Datum) : Outcome Bytes :=
  return (← Intake.uintField 256 capacity) ++ (← Intake.uintField 256 basePrice)
    ++ (← Intake.uintField 256 strength)
    ++ (← Intake.uintField 8 (.int (← Intake.numeral "shape" shape)))
    ++ (← Intake.uintField 16 spread)

/-- The assembly after a step. -/
def step (a : Assembly) : Step → Outcome Assembly
  | .raw number args => do
    let bs ← Intake.rawField args
    let _ ← Intake.size args
    return a.append number (.bytes bs)
  | .label name =>
    if (a.labels.lookup name).isSome then .error (.program (.duplicateLabel name))
    else .ok { a with labels := (name, a.size) :: a.labels }
  | .jump label => .ok (a.append (.int Opcode.jump.number) (.target label))
  | .jumpIfTokenIn token label =>
    .ok (a.append (.int Opcode.jumpIfTokenIn.number) (.tokenTarget token label))
  | .jumpIfTokenOut token label =>
    .ok (a.append (.int Opcode.jumpIfTokenOut.number) (.tokenTarget token label))
  | .deadline time => a.appendFields .deadline (Intake.uintField 64 time)
  | .takerHolds token => a.appendFields .takerHolds (Intake.addressField token)
  | .takerHoldsAtLeast token minimum =>
    a.appendFields .takerHoldsAtLeast (tokenAnd token 256 minimum)
  | .takerShareAtLeast token minimum =>
    a.appendFields .takerShareAtLeast (tokenAnd token 256 minimum)
  | .salt bytes => return a.append (.int Opcode.salt.number) (.bytes (← Intake.rawField bytes))
  | .staticBalances entries => a.appendFields .staticBalances (Intake.balancesField entries)
  | .dynamicBalances entries => a.appendFields .dynamicBalances (Intake.balancesField entries)
  | .decay period => a.appendFields .decay (Intake.uintField 32 period)
  | .concentrate tokenA deltaA tokenB deltaB liquidity =>
    a.appendFields .concentrate (concentrationFields tokenA deltaA tokenB deltaB liquidity)
  | .flatFeeIn fee => a.appendFields .flatFeeIn (Intake.uintField 16 fee)
  | .flatFeeOut fee => a.appendFields .flatFeeOut (Intake.uintField 16 fee)
  | .dynamicFeeIn source => a.appendFields .dynamicFeeIn (Intake.addressField source)
  | .constantProduct alpha => a.appendFields .constantProduct (Intake.uintField 64 alpha)
  | .pegged rate => a.appendFields .pegged (Intake.uintField 256 rate)
  | .density capacity basePrice strength shape spread =>
    a.appendFields .density (densityFields capacity basePrice strength shape spread)

/-- The place of a label. -/
def place (a : Assembly) (label : String) : Outcome Nat :=
  match a.labels.lookup label with
  | some pc => .ok pc
  | none => .error (.program (.undefinedLabel label))

/-- The argument block of appended operands. -/
def resolve (a : Assembly) : Operands → Outcome Bytes
  | .bytes args => .ok args
  | .target label => do Writer.complete (← Writer.uint 16 (← a.place label))
  | .tokenTarget token label => do
    let pc ← a.place label
    Writer.complete (← tokenAnd token 16 (.int pc))

/-- The record of an opcode number and arguments. No record has a fraction for its opcode. -/
def encode (number : Datum) (args : Bytes) : Outcome Bytes :=
  match number with
  | .int n => Record.encode n args
  | .bool b => Record.encode (if b then 1 else 0) args
  | d =>
    if ¬ ((Datum.int 0).isAtMost d ∧ d.isAtMost (.int 255)) then
      .error (.program (.opcodeRange d))
    else if 255 < args.length then .error (.program (.argsTooLong args.length))
    else .error (.notInt "opcode")

/-- The records of appended instructions. -/
def records (a : Assembly) : List Item → Outcome Bytes
  | [] => .ok []
  | item :: items => do
    let args ← a.resolve item.operands
    let r ← encode item.number args
    return r ++ (← a.records items)

/-- The program. -/
def build (a : Assembly) : Outcome Bytes := a.records a.items

/-- The assembly after steps in turn. -/
def steps (a : Assembly) : List Step → Outcome Assembly
  | [] => .ok a
  | s :: ss => do steps (← a.step s) ss

/-- The program that steps make. -/
def assemble (ss : List Step) : Outcome Bytes := do (← empty.steps ss).build

end Assembly

end SwapMachine
