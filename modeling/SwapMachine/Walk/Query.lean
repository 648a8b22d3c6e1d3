import SwapMachine.Curve.Power
import SwapMachine.Identity.Address
import SwapMachine.Program.Opcode
import SwapMachine.State.Index

/-!
# SwapMachine.Walk.Query — what a walk is asked, and whom it may ask

A walk of a program serves one query. Beside its own state it may consult a ledger about the taker
and sources of fees; neither is trusted, so an answer may be any datum and a call may fail with a
reason, or with one that cannot be told.

* `Terms` is all that stays the same while a walk goes on.
-/

namespace SwapMachine

/-- A trade to be priced. -/
structure Query where
  order : String
  maker : String
  taker : String
  tokenIn : String
  tokenOut : String
  isExactIn : Bool
  deriving DecidableEq

/-- The answer of an outside party, or its reason for giving none, if that can be told. -/
abbrev Answer := Except (Option String) Datum

/-- What holdings of tokens are asked of. -/
structure Ledger where
  balanceOf : String → String → Answer
  totalSupply : String → Answer

/-- What a fee is asked of. -/
abbrev FeeSource := Query → Answer

namespace Walk

/-- What stays the same during a walk: the program and how to read it, the query, the time, the
outside parties, the limits of corrections, and whether the walk ends at the first swap. -/
structure Terms where
  program : Bytes
  instructions : InstructionSet
  query : Query
  now : Int
  ledger : Option Ledger
  feeSources : Index String FeeSource
  limits : Curve.Power.Limits
  stopAtSwap : Bool

end Walk

end SwapMachine
