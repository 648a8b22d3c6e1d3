import SwapMachine.Program.Check
import SwapMachine.Text.Blank

/-!
# SwapMachine.Tool.Disassembly — the listing of a program given in hexadecimal digits

* `readProgram` takes digits of either case with blanks anywhere and an optional prefix.
* `run` lists a valid program with a swap, and tells what is wrong with any other.
-/

namespace SwapMachine.Tool

/-- What a tool prints and the code that it exits with. -/
structure Result where
  code : Nat
  text : String
  deriving DecidableEq

namespace Disassembly

/-- Digits are read only from a text of seven-bit characters. -/
def isSevenBit (c : Char) : Bool := decide (c.toNat < 128)

/-- The place of the first character that stops the reading of digits: one that is not of seven bits
comes before all others, then one that is no digit; with an odd number of digits it is the place
behind the last. -/
def faultPlace (ds : List Char) : Nat :=
  if ds.all isSevenBit then (ds.takeWhile Text.Hex.isDigit).length
  else (ds.takeWhile isSevenBit).length

/-- The bytes of a program, or the place where its digits cannot be read. -/
def readProgram (text : String) : Except Nat Bytes :=
  let ds := Address.unprefixed (Text.squeeze text.toList)
  match Text.Hex.toBytes? ds with
  | some bs => .ok bs
  | none => .error (faultPlace ds)

/-- The listing of a valid program, and where its first swap is. -/
def examine (program : Bytes) : Outcome (String × Nat) := do
  let _ ← Program.validate .standard program
  let swapPc ← Program.swapPoint .standard program
  return (← Program.listing .standard program, swapPc)

/-- The line about an end of the tool. -/
def statusLine (text : String) : String := s!"[disassemble] {text}\n"

/-- The result of the tool for a text. -/
def run (text : String) : Result :=
  match readProgram text with
  | .error n =>
    let reason := s!"non-hexadecimal number found in fromhex() arg at position {n}"
    ⟨2, statusLine s!"FAIL: not hex: {reason}"⟩
  | .ok program =>
    match examine program with
    | .error f => ⟨1, statusLine s!"FAIL: {f.kind.name}: {f.message}"⟩
    | .ok (listing, swapPc) =>
      ⟨0, listing ++ "\n" ++ statusLine s!"OK: {program.length} bytes, swap at pc={swapPc}"⟩

end Disassembly

end SwapMachine.Tool
