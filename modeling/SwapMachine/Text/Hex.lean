import SwapMachine.Text.Quoted

/-!
# SwapMachine.Text.Hex — numbers and byte strings in hexadecimal digits

* `ofBytes` writes two digits a byte; `toBytes?` reads pairs of digits of either case back.
* `opcode` writes the number of an instruction: `0x` and two digits at least, a minus sign counting
  as one of them.
-/

namespace SwapMachine.Text.Hex

/-- The value of a hexadecimal digit of either case. -/
def digitValue? (c : Char) : Option Nat :=
  if '0' ≤ c && c ≤ '9' then some (c.toNat - 0x30)
  else if 'a' ≤ c && c ≤ 'f' then some (c.toNat - 0x57)
  else if 'A' ≤ c && c ≤ 'F' then some (c.toNat - 0x37)
  else none

/-- The character is a hexadecimal digit. -/
def isDigit (c : Char) : Bool := (digitValue? c).isSome

/-- The two digits of a byte. -/
def ofByte (b : UInt8) : List Char :=
  [Quoted.hexDigit (b.toNat / 16), Quoted.hexDigit (b.toNat % 16)]

/-- The digits of a byte string. -/
def ofBytes (bs : List UInt8) : List Char := bs.flatMap ofByte

/-- The bytes that pairs of digits stand for. -/
def toBytes? : List Char → Option (List UInt8)
  | [] => some []
  | [_] => none
  | h :: l :: cs =>
    match digitValue? h, digitValue? l, toBytes? cs with
    | some x, some y, some bs => some (UInt8.ofNat (16 * x + y) :: bs)
    | _, _, _ => none

/-- The digits of `n` without leading zeros. -/
def digits (n : Nat) : List Char :=
  if n < 16 then [Quoted.hexDigit n] else digits (n / 16) ++ [Quoted.hexDigit (n % 16)]
termination_by n

/-- The number of an instruction, in two places at least. -/
def opcode (n : Int) : String :=
  let body := if n < 0 then '-' :: digits n.natAbs
    else if n < 16 then '0' :: digits n.natAbs else digits n.natAbs
  String.ofList ('0' :: 'x' :: body)

end SwapMachine.Text.Hex
