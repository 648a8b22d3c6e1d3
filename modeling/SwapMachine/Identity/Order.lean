import SwapMachine.Digest.Sha256
import SwapMachine.Identity.Domain

/-!
# SwapMachine.Identity.Order — orders and their hashes

An order is a maker's commitment: who provides liquidity, for which two tokens, and by which
program. Its hash is the key of its state, so orders of one content share their state.

* `Order.make` builds an order from data not yet looked at.
* `Order.preimage` are the bytes that are hashed: the prefix of orders and the canonical text.
-/

namespace SwapMachine

/-- A failed building of an identity as a failure of the whole. -/
def Outcome.ofIdentity {α : Type} : Except IdentityFault α → Outcome α
  | .ok a => .ok a
  | .error f => .error (.identity f)

/-- An order; its addresses are canonical and its tokens differ. -/
structure Order where
  maker : String
  token0 : String
  token1 : String
  program : Bytes
  flags : Nat

namespace Order

/-- A program that a field holds. -/
def programOf : Datum → Outcome Bytes
  | .bytes bs => .ok bs
  | _ => .error (.identity .programNotBytes)

/-- Flags that a field holds. -/
def flagsOf : Datum → Outcome Nat
  | .int z => if 0 ≤ z then .ok z.toNat else .error (.identity .flagsNegative)
  | _ => .error (.identity .flagsNegative)

/-- The order of the given content, the first bad field being reported. -/
def make (maker token0 token1 program flags : Datum) : Outcome Order := do
  let m ← Outcome.ofHex (Address.ofDatum "maker" maker)
  let a ← Outcome.ofHex (Address.ofDatum "token0" token0)
  let b ← Outcome.ofHex (Address.ofDatum "token1" token1)
  if a = b then .error (.identity .sameTokens)
  else return ⟨m, a, b, ← programOf program, ← flagsOf flags⟩

/-- The order exchanges one of the tokens for the other. -/
def trades (o : Order) (tokenIn tokenOut : String) : Bool :=
  (tokenIn == o.token0 && tokenOut == o.token1) || (tokenIn == o.token1 && tokenOut == o.token0)

/-- The program in hexadecimal digits. -/
def programText (o : Order) : String := String.ofList ('0' :: 'x' :: Text.Hex.ofBytes o.program)

/-- The content of the order as a value. -/
def content (o : Order) : Datum :=
  .dict [(.text "maker", .text o.maker), (.text "token0", .text o.token0),
    (.text "token1", .text o.token1), (.text "program", .text o.programText),
    (.text "flags", .int o.flags)]

/-- The bytes that identify the order. -/
def preimage (o : Order) : Bytes :=
  (Domain.prefixText "order" 1).map Domain.asciiByte
    ++ Canonical.utf8 (String.ofList (Canonical.render o.content))

/-- The hash of the order. -/
def hash (o : Order) : String := Sha256.text o.preimage

end Order

end SwapMachine
