import SwapMachine.Text.Printable

/-!
# SwapMachine.Text.Quoted — texts and byte strings in quotation marks

A text stands in single quotation marks, or in double ones when it holds a single and no double one.
Line breaks, tabs, backslashes, the mark itself and unprintable characters are escaped, so the
result is one line of printable characters.
-/

namespace SwapMachine.Text.Quoted

/-- The hexadecimal digit for a number below sixteen. -/
def hexDigit (d : Nat) : Char := Char.ofNat (if d < 10 then 0x30 + d else 0x57 + d)

/-- The lowest `width` hexadecimal digits of `n`, the most significant first. -/
def hexDigits : Nat → Nat → List Char
  | 0, _ => []
  | width + 1, n => hexDigits width (n / 16) ++ [hexDigit (n % 16)]

/-- The quotation mark that a text is set in. -/
def mark (cs : List Char) : Char :=
  if cs.contains '\'' && !cs.contains '"' then '"' else '\''

/-- The escape common to texts and bytes, if the character has one. -/
def shortEscape? (quote c : Char) : Option (List Char) :=
  if c == '\\' || c == quote then some ['\\', c]
  else if c == '\n' then some ['\\', 'n']
  else if c == '\r' then some ['\\', 'r']
  else if c == '\t' then some ['\\', 't']
  else none

/-- A character of a text as it stands between quotation marks. -/
def textChar (quote c : Char) : List Char :=
  match shortEscape? quote c with
  | some e => e
  | none =>
    if isPrintable c then [c]
    else if c.toNat < 0x100 then '\\' :: 'x' :: hexDigits 2 c.toNat
    else if c.toNat < 0x10000 then '\\' :: 'u' :: hexDigits 4 c.toNat
    else '\\' :: 'U' :: hexDigits 8 c.toNat

/-- A byte as it stands between quotation marks. -/
def byteChar (quote : Char) (b : UInt8) : List Char :=
  let c := Char.ofNat b.toNat
  match shortEscape? quote c with
  | some e => e
  | none =>
    if 0x20 ≤ b.toNat && b.toNat ≤ 0x7e then [c] else '\\' :: 'x' :: hexDigits 2 b.toNat

/-- A text in quotation marks. -/
def text (cs : List Char) : List Char :=
  let q := mark cs
  q :: cs.flatMap (textChar q) ++ [q]

/-- A code point as it stands between quotation marks; one that is no character is escaped. -/
def pointChar (quote : Char) (n : Nat) : List Char :=
  if n.isValidChar then textChar quote (Char.ofNat n) else '\\' :: 'u' :: hexDigits 4 n

/-- A text given by code points, in quotation marks. -/
def points (ps : List Nat) : List Char :=
  let q := mark (ps.map Char.ofNat)
  q :: ps.flatMap (pointChar q) ++ [q]

/-- A byte string in quotation marks, after a `b`. -/
def bytes (bs : List UInt8) : List Char :=
  let q := mark (bs.map fun b => Char.ofNat b.toNat)
  'b' :: q :: bs.flatMap (byteChar q) ++ [q]

end SwapMachine.Text.Quoted
