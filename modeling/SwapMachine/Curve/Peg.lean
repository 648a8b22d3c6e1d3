import SwapMachine.Curve.Amount
import SwapMachine.FixedPoint.Scale

/-!
# SwapMachine.Curve.Peg — a constant rate until the balance is used up

`rate` is output per input at 18 places. The output is rounded down, the input up, and no more than
the balance is paid out.
-/

namespace SwapMachine.Curve.Peg

open FixedPoint

/-- Refuses a rate that is not positive. -/
def requireRate (rate : Int) : Outcome Unit :=
  if rate ≤ 0 then .error (.curve (.rateNotPositive rate)) else .ok ()

/-- Refuses to pay out more than the balance. -/
def requireWithin (amountOut balanceOut : Int) : Outcome Unit :=
  if balanceOut < amountOut then .error (.curve (.overdrawn (.int amountOut) (.int balanceOut)))
  else .ok ()

/-- The output for a fixed input. -/
def exactIn (balanceOut amountIn rate : Int) : Outcome Int := do
  requireRate rate
  requirePositive "amount_in" amountIn
  let amountOut ← mulDivDown amountIn rate one
  requireWithin amountOut balanceOut
  return amountOut

/-- The input for a fixed output. -/
def exactOut (balanceOut amountOut rate : Int) : Outcome Int := do
  requireRate rate
  requirePositive "amount_out" amountOut
  requireWithin amountOut balanceOut
  mulDivUp amountOut one rate

/-- Input per output, rounded up. -/
def spotPrice (rate : Int) : Outcome Int := do
  requireRate rate
  mulDivUp one one rate

end SwapMachine.Curve.Peg
