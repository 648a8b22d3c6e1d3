import SwapMachine.Fault
import SwapMachine.Text.Blank

/-!
# SwapMachine.Identity.Address — addresses of accounts and tokens

An address is 20 bytes. Its one canonical text is `0x` and 40 lower-case digits; `canonical` accepts
digits of either case, an optional prefix and blanks around them.

* `hexText` does the same for any number of bytes.
* `toBytes` and `ofBytes` go between a text and the bytes.
-/

namespace SwapMachine

/-- A string of bytes. -/
abbrev Bytes := List UInt8

namespace Address

/-- The number of bytes in an address. -/
def size : Nat := 20

/-- The digits behind a `0x` or `0X`, if there is one. -/
def unprefixed : List Char → List Char
  | '0' :: 'x' :: ds => ds
  | '0' :: 'X' :: ds => ds
  | ds => ds

/-- The canonical text of a number of hexadecimal digits; `count` is what a field calls that number
in bytes. -/
def hexDigits (field : String) (count : Datum) (digits : Int) (s : String) :
    Except HexFault String :=
  let ds := unprefixed (Text.strip s.toList)
  if (ds.length : Int) ≠ digits then .error (.wrongLength field count)
  else if ds.all Text.Hex.isDigit then .ok (String.ofList ('0' :: 'x' :: ds.map Char.toLower))
  else .error (.notDigits field)

/-- The canonical text of `count` bytes written in hexadecimal digits. -/
def hexText (field : String) (count : Int) (s : String) : Except HexFault String :=
  hexDigits field (.int count) (2 * count) s

/-- The canonical text of an address. -/
def canonical (field : String) (s : String) : Except HexFault String := hexText field size s

/-- The bytes of an address. -/
def toBytes (s : String) : Except HexFault Bytes := do
  let text ← canonical "address" s
  match Text.Hex.toBytes? (unprefixed text.toList) with
  | some bs => .ok bs
  | none => .error (.notDigits "address")

/-- The canonical text of an address's bytes. -/
def ofBytes (bs : Bytes) : String := String.ofList ('0' :: 'x' :: Text.Hex.ofBytes bs)

/-- The canonical text of bytes that a field holds, their number being given by any value; where
twice the value is no whole number, no text is that long. -/
def hexDatum (field : String) (count d : Datum) : Except HexFault String :=
  match d.text? with
  | some s => hexDigits field count (count.doubled.whole?.getD (-1)) s
  | none => .error (.notText field)

/-- The canonical text of an address that a field holds. -/
def ofDatum (field : String) (d : Datum) : Except HexFault String :=
  match d.text? with
  | some s => canonical field s
  | none => .error (.notText field)

/-- The bytes of an address that a datum holds. -/
def datumBytes (d : Datum) : Except HexFault Bytes :=
  match d.text? with
  | some s => toBytes s
  | none => .error (.notText "address")

end Address

/-- A failed reading of hexadecimal digits as a failure of the whole. -/
def Outcome.ofHex {α : Type} : Except HexFault α → Outcome α
  | .ok a => .ok a
  | .error f => .error (.hex f)

end SwapMachine
