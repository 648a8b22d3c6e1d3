import SwapMachine.Identity.Address
import SwapMachine.Identity.Canonical

/-!
# SwapMachine.Identity.Domain — prefixes that keep hashes of different things apart

What is hashed starts with a prefix that names its sort and version and ends in a NUL. Labels hold
no NUL, so where the prefix ends is never in doubt.
-/

namespace SwapMachine.Domain

/-- The characters of the prefix for a label and a version. -/
def prefixText (label : String) (version : Nat) : List Char :=
  "swapvm:".toList ++ label.toList ++ ':' :: 'v' :: Text.Decimal.digits version ++ [Char.ofNat 0]

/-- The byte of an ASCII character. -/
def asciiByte (c : Char) : UInt8 := UInt8.ofNat c.toNat

/-- A label that a prefix may hold: not empty, ASCII, no NUL. -/
def label : Datum → Except IdentityFault String
  | .text s =>
    if s.isEmpty then .error .labelNotText
    else if s.toList.contains (Char.ofNat 0) then .error .labelHasNul
    else if s.toList.any fun c => 0x80 ≤ c.toNat then .error .labelNotAscii
    else .ok s
  | .loose points => .error (if points.contains 0 then .labelHasNul else .labelNotAscii)
  | _ => .error .labelNotText

/-- A positive version. -/
def version : Datum → Except IdentityFault Nat
  | .int z => if 0 < z then .ok z.toNat else .error .versionNotPositive
  | _ => .error .versionNotPositive

/-- The prefix for a label and a version. -/
def separator (l v : Datum) : Except IdentityFault Bytes := do
  let l ← label l
  let v ← version v
  return (prefixText l v).map asciiByte

end SwapMachine.Domain
