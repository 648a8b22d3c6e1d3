import SwapMachine.Block.Number

/-!
# SwapMachine.Block.Writer — writing an argument block

Each function gives the bytes of one field, or refuses a value that does not fit; a complete block
is the fields one after another, 255 bytes at most.
-/

namespace SwapMachine.Block.Writer

/-- The number of bytes that a block may have. -/
def maxSize : Nat := 255

/-- An unsigned number of the given width. -/
def uint (bits : Nat) (value : Int) : Outcome Bytes :=
  if value < 0 ∨ (Nat.pow 2 bits : Int) ≤ value then .error (.block (.doesNotFit value bits))
  else .ok (Number.toBytes (bits / 8) value.toNat)

/-- An address. -/
def address (token : String) : Outcome Bytes := Outcome.ofHex (Address.toBytes token)

/-- Pairs of token and amount. -/
def entries : List (String × Int) → Outcome Bytes
  | [] => .ok []
  | (token, amount) :: es => do
    let t ← address token
    let a ← uint 256 amount
    return t ++ a ++ (← entries es)

/-- A counted list of balances. -/
def balances (es : List (String × Int)) : Outcome Bytes := do
  let count ← uint 8 es.length
  return count ++ (← entries es)

/-- The block, if it is not too long. -/
def complete (bs : Bytes) : Outcome Bytes :=
  if maxSize < bs.length then .error (.block (.tooLong bs.length)) else .ok bs

end SwapMachine.Block.Writer
