import SwapMachine.Text.Blank
import SwapMachine.Text.Decimal

/-!
# SwapMachine.Text.DecimalDigit — decimal digits of all scripts, and numerals written in them

* `zeros` lists the zero of every script; the other nine digits follow it.
* `numeral?` reads a signed whole number: blanks around it are ignored, digits of any script count,
  and a single low line may stand between two digits. Rows that are too long are not read.
-/

namespace SwapMachine.Text

/-- The digit zero of every script. -/
def zeros : List Nat :=
  [0x30, 0x660, 0x6f0, 0x7c0, 0x966, 0x9e6, 0xa66, 0xae6, 0xb66, 0xbe6, 0xc66, 0xce6, 0xd66,
    0xde6, 0xe50, 0xed0, 0xf20, 0x1040, 0x1090, 0x17e0, 0x1810, 0x1946, 0x19d0, 0x1a80, 0x1a90,
    0x1b50, 0x1bb0, 0x1c40, 0x1c50, 0xa620, 0xa8d0, 0xa900, 0xa9d0, 0xa9f0, 0xaa50, 0xabf0,
    0xff10, 0x104a0, 0x10d30, 0x11066, 0x110f0, 0x11136, 0x111d0, 0x112f0, 0x11450, 0x114d0,
    0x11650, 0x116c0, 0x11730, 0x118e0, 0x11950, 0x11c50, 0x11d50, 0x11da0, 0x16a60, 0x16ac0,
    0x16b50, 0x1d7ce, 0x1d7d8, 0x1d7e2, 0x1d7ec, 0x1d7f6, 0x1e140, 0x1e2f0, 0x1e950, 0x1fbf0]

/-- The value of a decimal digit of any script. -/
def digitValue? (c : Char) : Option Nat :=
  (zeros.find? fun z => z ≤ c.toNat && c.toNat < z + 10).map (c.toNat - ·)

/-- The digit values of a numeral without sign; `after` tells whether a digit has just been read, so
that a low line may follow. -/
def digitRow? (after : Bool) : List Char → Option (List Nat)
  | [] => if after then some [] else none
  | c :: cs =>
    match digitValue? c with
    | some d => (digitRow? true cs).map (d :: ·)
    | none => if after && c == '_' then digitRow? false cs else none

/-- The number of a numeral without sign, if it has few enough digits. -/
def row? (cs : List Char) : Option Int :=
  ((digitRow? false cs).filter fun r => r.length ≤ Decimal.digitLimit).map fun r =>
    (Decimal.value r : Int)

/-- The whole number that the characters spell. -/
def numeral? (cs : List Char) : Option Int :=
  match strip cs with
  | '-' :: ds => (row? ds).map Int.neg
  | '+' :: ds => row? ds
  | ds => row? ds

end SwapMachine.Text
