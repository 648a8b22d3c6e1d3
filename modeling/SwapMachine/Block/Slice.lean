import SwapMachine.Identity.Address

/-!
# SwapMachine.Block.Slice — parts of byte strings between two places

A place that is negative is counted from the end, as in `between bytes (-2) bytes.length`, which is
the last two bytes. Places beyond either end stand for that end, and where the second place is not
behind the first there is nothing between them.
-/

namespace SwapMachine.Block.Slice

/-- A place counted from the front: negative ones are counted from the end. -/
def fromFront (bytes : Bytes) (place : Int) : Int :=
  if place < 0 then place + bytes.length else place

/-- The byte at a place. -/
def byteAt? (bytes : Bytes) (place : Int) : Option UInt8 :=
  let i := fromFront bytes place
  if i < 0 then none else bytes[i.toNat]?

/-- The bytes from one place up to another. -/
def between (bytes : Bytes) (start stop : Int) : Bytes :=
  let lo := (fromFront bytes start).toNat
  let hi := (fromFront bytes stop).toNat
  (bytes.take hi).drop lo

end SwapMachine.Block.Slice
