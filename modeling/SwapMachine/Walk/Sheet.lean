import SwapMachine.State.Overlay
import SwapMachine.Walk.Query

/-!
# SwapMachine.Walk.Sheet — what a walk has worked out so far

A sheet holds the figures of the trade, the pending writes to the order's state, where the first
swap was, and notes on what the walk met. Where the walk stands in the program is not on the sheet.

* `Sheet.swapped` enters that a swap has computed its amounts.
-/

namespace SwapMachine.Walk

/-- The balances and amounts that a trade is computed from and ends with. -/
structure Figures where
  balanceIn : Int
  balanceOut : Int
  amountIn : Int
  amountOut : Int
  deriving DecidableEq

/-- Something worth noting on a walk. -/
inductive Finding where
  | dynamicFee (fee : Int)
  | corrections (count : Nat)
  deriving DecidableEq

namespace Finding

/-- What was found. -/
def name : Finding → String
  | dynamicFee _ => "dynamic_fee"
  | corrections _ => "corrections"

/-- How much was found. -/
def value : Finding → Int
  | dynamicFee fee => fee
  | corrections count => count

end Finding

/-- A finding and the place of the instruction that made it. -/
structure Note where
  pc : Nat
  finding : Finding
  deriving DecidableEq

/-- The state of a walk apart from its place in the program. -/
structure Sheet where
  figures : Figures
  overlay : Overlay
  notes : List Note
  swapPc : Option Nat
  isComputed : Bool
  isHalted : Bool

namespace Sheet

/-- The sheet before the first instruction. -/
def start (figures : Figures) (overlay : Overlay) : Sheet :=
  ⟨figures, overlay, [], none, false, false⟩

/-- The sheet with other balances. -/
def withBalances (s : Sheet) (balanceIn balanceOut : Int) : Sheet :=
  { s with figures := { s.figures with balanceIn, balanceOut } }

/-- The sheet with another amount in. -/
def withAmountIn (s : Sheet) (amountIn : Int) : Sheet :=
  { s with figures := { s.figures with amountIn } }

/-- The sheet with another amount out. -/
def withAmountOut (s : Sheet) (amountOut : Int) : Sheet :=
  { s with figures := { s.figures with amountOut } }

/-- The sheet with a note more. -/
def note (s : Sheet) (pc : Nat) (finding : Finding) : Sheet :=
  { s with notes := s.notes ++ [⟨pc, finding⟩] }

/-- The sheet after the swap at a place; the first swap is the one remembered. -/
def swapped (s : Sheet) (pc : Nat) (stop : Bool) : Sheet :=
  { s with swapPc := some (s.swapPc.getD pc), isComputed := true, isHalted := s.isHalted || stop }

end Sheet

end SwapMachine.Walk
