import SwapMachine.Block.Slice
import SwapMachine.Program.Instruction

/-!
# SwapMachine.Program.Record — programs as rows of records

A program is a row of records without anything between them: an opcode byte, a byte with the length
of the arguments, the arguments. A record is well formed if its header fits, then its arguments fit,
then its opcode is in the instruction set; the first of these that fails is reported.

* `Record.first` splits a record off the front; `Record.decodeAt` decodes the one at a place, and
  `Record.excerptAt` does so for places that are counted from the end.
* `Scan.of` splits off records as long as that succeeds: `records` and the `fault` that ended it.
* `Record.encode` and `encodeAll` write records.
-/

namespace SwapMachine

/-- A decoded record. -/
structure Record where
  pc : Nat
  opcode : Opcode
  args : Bytes
  deriving DecidableEq

namespace Record

/-- The number of bytes before the arguments. -/
def headerSize : Nat := 2

/-- The place behind the record. -/
def next (r : Record) : Nat := r.pc + headerSize + r.args.length

/-- The instruction of the record. -/
def parse (r : Record) : Outcome Instruction := Instruction.parse r.opcode r.args

/-- The record at the front of the bytes from place `pc` on, and the bytes behind it. -/
def first (set : InstructionSet) (pc : Nat) : Bytes → Outcome (Record × Bytes)
  | code :: length :: body =>
    if body.length < length.toNat then .error (.program (.argsOverrun pc length.toNat))
    else do
      let opcode ← set.lookup pc code.toNat
      return (⟨pc, opcode, body.take length.toNat⟩, body.drop length.toNat)
  | _ => .error (.program (.headerCut pc))

/-- The record at a place of a program. -/
def decodeAt (set : InstructionSet) (program : Bytes) (pc : Nat) : Outcome Record :=
  Prod.fst <$> first set pc (program.drop pc)

theorem first_eq_ok {set : InstructionSet} {pc : Nat} {bs rest : Bytes} {r : Record}
    (h : first set pc bs = .ok (r, rest)) :
    r.pc = pc ∧ bs.length = headerSize + r.args.length + rest.length := by
  match bs with
  | [] => simp [first] at h
  | [_] => simp [first] at h
  | code :: length :: body =>
    simp only [first] at h
    by_cases hl : body.length < length.toNat
    · rw [if_pos hl] at h; cases h
    · rw [if_neg hl] at h
      cases ho : set.lookup pc code.toNat with
      | error f => rw [ho] at h; cases h
      | ok op =>
        rw [ho] at h
        injection h with h
        injection h with hr hrest
        subst hr hrest
        simp only [List.length_cons, List.length_take, List.length_drop, headerSize, true_and]
        omega

theorem decodeAt_eq_ok {set : InstructionSet} {program : Bytes} {pc : Nat} {r : Record}
    (h : decodeAt set program pc = .ok r) : r.pc = pc ∧ r.next ≤ program.length := by
  unfold decodeAt at h
  cases hf : first set pc (program.drop pc) with
  | error f => rw [hf] at h; cases h
  | ok p =>
    obtain ⟨r', rest⟩ := p
    rw [hf] at h
    injection h with h
    obtain rfl : r' = r := h
    obtain ⟨hpc, hl⟩ := first_eq_ok hf
    rw [List.length_drop] at hl
    refine ⟨hpc, ?_⟩
    simp only [next, headerSize] at *
    omega

/-! ### Places from the end -/

/-- What a record at a place holds; the place may be counted from the end. -/
structure Excerpt where
  pc : Int
  opcode : Opcode
  args : Bytes

/-- The place behind an excerpt. -/
def Excerpt.next (x : Excerpt) : Int := x.pc + headerSize + x.args.length

/-- The record at a place of a program, which may be counted from the end; then its parts are still
taken at the places behind it, so that they run on at the front. -/
def excerptAt (set : InstructionSet) (program : Bytes) (pc : Int) : Outcome Excerpt :=
  match Block.Slice.byteAt? program pc, Block.Slice.byteAt? program (pc + 1) with
  | some code, some length =>
    let stop := pc + headerSize + length.toNat
    if (program.length : Int) ≤ pc + 1 then .error (.program (.headerCut pc))
    else if (program.length : Int) < stop then .error (.program (.argsOverrun pc length.toNat))
    else do
      return ⟨pc, ← set.lookup pc code.toNat, Block.Slice.between program (pc + headerSize) stop⟩
  | _, _ => .error (.program (.headerCut pc))

/-! ### Writing -/

/-- Refuses an opcode number that is no byte. -/
def requireNumber (number : Int) : Outcome Unit :=
  if 0 ≤ number ∧ number ≤ 255 then .ok () else .error (.program (.opcodeRange (.int number)))

/-- The bytes in front of so many argument bytes. -/
def header (number : Int) (size : Nat) : Outcome Bytes := do
  requireNumber number
  if 255 < size then .error (.program (.argsTooLong size))
  else return [UInt8.ofNat number.toNat, UInt8.ofNat size]

/-- A record of the given opcode number and arguments. -/
def encode (number : Int) (args : Bytes) : Outcome Bytes :=
  return (← header number args.length) ++ args

/-- Records one after another. -/
def encodeAll : List (Int × Bytes) → Outcome Bytes
  | [] => .ok []
  | (number, args) :: rs => do
    let r ← encode number args
    return r ++ (← encodeAll rs)

end Record

/-- The records up to the first malformation, and the malformation if there is one. -/
structure Scan where
  records : List Record
  fault : Option Fault

namespace Scan

/-- The scan of the bytes from place `pc` on. -/
def suffix (set : InstructionSet) (pc : Nat) (bs : Bytes) : Scan :=
  if bs.isEmpty then ⟨[], none⟩
  else
    match h : Record.first set pc bs with
    | .error f => ⟨[], some f⟩
    | .ok (r, rest) =>
      have := (Record.first_eq_ok h).2
      let scan := suffix set r.next rest
      ⟨r :: scan.records, scan.fault⟩
termination_by bs.length
decreasing_by
  simp only [Record.headerSize] at this
  omega

/-- The scan of a program. -/
def of (set : InstructionSet) (program : Bytes) : Scan := suffix set 0 program

/-- The result of going through the records, if no malformation comes first. -/
def result {α : Type} (s : Scan) (a : α) : Outcome α :=
  match s.fault with
  | some f => .error f
  | none => .ok a

/-- The records of a program without malformation. -/
def all (s : Scan) : Outcome (List Record) := s.result s.records

end Scan

end SwapMachine
