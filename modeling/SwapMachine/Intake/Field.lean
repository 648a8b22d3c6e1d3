import SwapMachine.Block.Writer
import SwapMachine.Text.DecimalDigit

/-!
# SwapMachine.Intake.Field — fields of a block from data not yet looked at

* Each function checks the sort of its datum and encodes it.
* `block` is the block that a list of fields makes; the first field that does not encode is
  reported.
-/

namespace SwapMachine.Intake

open Block

/-- An unsigned number of the given width; none is as narrow as a negative width. -/
def uintField (bits : Int) (value : Datum) : Outcome Bytes := do
  let n ← value.toInt "value"
  if bits < 0 then .error (.block (.doesNotFit n bits)) else Writer.uint bits.toNat n

/-- An address. -/
def addressField (token : Datum) : Outcome Bytes := Outcome.ofHex (Address.datumBytes token)

/-- Pairs of token and amount. -/
def entryFields : List (Datum × Datum) → Outcome Bytes
  | [] => .ok []
  | (token, amount) :: es => do
    let t ← addressField token
    let a ← uintField 256 amount
    return t ++ a ++ (← entryFields es)

/-- A counted list of balances. -/
def balancesField (entries : List (Datum × Datum)) : Outcome Bytes := do
  let count ← Writer.uint 8 entries.length
  return count ++ (← entryFields entries)

/-- A byte that a datum holds. -/
def byte? (d : Datum) : Option UInt8 :=
  match d with
  | .float _ => none
  | d => d.whole?.bind fun n => if 0 ≤ n ∧ n < 256 then some (UInt8.ofNat n.toNat) else none

/-- What a value of several items yields when it is gone through: a mapping yields its keys. -/
def items? (d : Datum) : Option (List Datum) :=
  match d with
  | .list items => some items
  | .dict entries => some (entries.map Prod.fst)
  | _ => none

/-- The bytes that a datum stands for: items may each hold one, and a number stands for so many zero
bytes. -/
def bytes? (d : Datum) : Option Bytes :=
  match d, items? d with
  | .bytes bs, _ => some bs
  | _, some items => items.mapM byte?
  | .float _, none => none
  | d, none => d.whole?.map fun n => List.replicate n.toNat 0

/-- A byte string. -/
def rawField (value : Datum) : Outcome Bytes :=
  match bytes? value with
  | some bs => .ok bs
  | none => .error (.identity .programNotBytes)

/-- How many parts a value has that has parts at all. -/
def size (d : Datum) : Outcome Nat :=
  match d, items? d with
  | .bytes bs, _ => .ok bs.length
  | .text s, _ => .ok s.length
  | .loose points, _ => .ok points.length
  | _, some items => .ok items.length
  | _, none => .error (.identity .programNotBytes)

/-- The canonical text of what may be an address's bytes; their number is looked at first. -/
def addressText (value : Datum) : Outcome String := do
  let n ← size value
  if n ≠ Address.size then .error (.identity (.addressSize n))
  let bs ← rawField value
  return Address.ofBytes bs

/-- The whole number that a datum can be turned into: fractions are cut off, digits are read. -/
def numeral (field : String) (d : Datum) : Outcome Int :=
  let number? :=
    match d with
    | .float x => x.truncate?
    | .text s => Text.numeral? s.toList
    | .bytes bs => Text.numeral? (bs.map fun b => Char.ofNat b.toNat)
    | d => d.whole?
  match number? with
  | some n => .ok n
  | none => .error (.notInt field)

/-- A field of a block. -/
inductive Field where
  | uint (bits : Int) (value : Datum)
  | address (token : Datum)
  | raw (bytes : Datum)
  | balances (entries : List (Datum × Datum))

/-- The bytes of a field. -/
def Field.encode : Field → Outcome Bytes
  | uint bits value => uintField bits value
  | address token => addressField token
  | raw bytes => rawField bytes
  | balances entries => balancesField entries

/-- The bytes of fields in turn. -/
def fields : List Field → Outcome Bytes
  | [] => .ok []
  | f :: fs => do
    let bs ← f.encode
    return bs ++ (← fields fs)

/-- The block that fields make. -/
def block (fs : List Field) : Outcome Bytes := do Writer.complete (← fields fs)

end SwapMachine.Intake
