import SwapMachine.Block.Number

/-!
# SwapMachine.Block.Reader — reading an argument block

A block is packed without padding: numbers big-endian, addresses as 20 bytes, a list of balances as
a count and then that many pairs of address and 256-bit amount. A reader takes its value off the
front of what is left; one that fails leaves what it has not taken.

* `take` is the only reader that consumes; all others are built from it and from `rest`.
* `whole` runs a reader that has to use up the block.
-/

namespace SwapMachine.Block

/-- Reads a value off the front of the bytes that are left. -/
abbrev Reader := ExceptT Fault (StateM Bytes)

/-- So many pairs of token and amount, no token being among `seen` or listed twice. -/
def pairs {m : Type → Type} [Monad m] [MonadExceptOf Fault m] (token : m String) (amount : m Nat) :
    Nat → List String → m (List (String × Nat))
  | 0, _ => return []
  | count + 1, seen => do
    let t ← token
    if seen.contains t then throw (.block (.duplicateToken t))
    let a ← amount
    return (t, a) :: (← pairs token amount count (t :: seen))

namespace Reader

/-- The number of bytes left. -/
def remaining : Reader Nat := return (← get).length

/-- The next `count` bytes, or nothing if fewer are left. -/
def take (count : Nat) (what : String) : Reader Bytes := do
  let left ← get
  if left.length < count then
    throw (.block (.truncated what count left.length))
  else
    set (left.drop count)
    return left.take count

/-- An unsigned number of the given width; bits beyond whole bytes are not read. -/
def uint (bits : Nat) : Reader Nat := return Number.ofBytes (← take (bits / 8) s!"uint{bits}")

/-- An address, as its canonical text. -/
def address : Reader String := return Address.ofBytes (← take Address.size "address")

/-- All that is left. -/
def rest : Reader Bytes := do
  let left ← get
  set ([] : Bytes)
  return left

/-- A counted list of balances. -/
def balances : Reader (List (String × Nat)) := do pairs address (uint 256) (← uint 8) []

/-- Refuses bytes that are left over. -/
def finish : Reader Unit := do
  let left ← remaining
  if left ≠ 0 then throw (.block (.trailing left))

/-- The value of a block that the reader uses up. -/
def whole {α : Type} (reader : Reader α) (block : Bytes) : Outcome α :=
  let all : Reader α := do
    let a ← reader
    finish
    return a
  (all.run.run block).1

end Reader

end SwapMachine.Block
