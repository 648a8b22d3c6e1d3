import SwapMachine.Block.Reader
import SwapMachine.Block.Slice

/-!
# SwapMachine.Block.Cursor — reading fields at a place that may move back

A `Reader` only goes forward. Where the width of a number may be negative, the place moves back by
it, even to before the front; what is then read lies between two places as `Slice.between` takes
them. While no width is negative, both read the same.

* `take` is the only action that moves the place by a given amount; all others are built from it and
  from `rest`.
-/

namespace SwapMachine.Block

/-- A place among bytes. -/
structure Cursor where
  bytes : Bytes
  place : Int

/-- Reads a value at the place of a cursor and moves it. -/
abbrev Seeker := ExceptT Fault (StateM Cursor)

namespace Seeker

/-- The number of bytes from the place to the end. -/
def remaining : Seeker Int := do
  let c ← get
  return c.bytes.length - c.place

/-- The bytes up to `count` places on, or nothing if that is beyond the end. -/
def take (count : Int) (what : String) : Seeker Bytes := do
  let c ← get
  let left := c.bytes.length - c.place
  if left < count then
    throw (.block (.truncated what count left))
  else
    set { c with place := c.place + count }
    return Slice.between c.bytes c.place (c.place + count)

/-- An unsigned number of the given width; bits beyond whole bytes are not read. -/
def uint (bits : Int) : Seeker Nat :=
  return Number.ofBytes (← take (Int.fdiv bits 8) s!"uint{bits}")

/-- An address, as its canonical text. -/
def address : Seeker String := do
  let bs ← take Address.size "address"
  if bs.length ≠ Address.size then throw (.identity (.addressSize bs.length))
  return Address.ofBytes bs

/-- All bytes from the place on. -/
def rest : Seeker Bytes := do
  let c ← get
  set { c with place := c.bytes.length }
  return Slice.between c.bytes c.place c.bytes.length

/-- A counted list of balances. -/
def balances : Seeker (List (String × Nat)) := do
  pairs address (uint 256) (← uint 8) []

/-- Refuses bytes that are left over. -/
def finish : Seeker Unit := do
  let left ← remaining
  if left ≠ 0 then throw (.block (.trailing left.toNat))

end Seeker

end SwapMachine.Block
