import SwapMachine.Curve.Amount
import SwapMachine.FixedPoint.Power

/-!
# SwapMachine.Curve.Power — the power curve: constant product with the fee as an exponent

`balanceIn ^ alpha · balanceOut` stays constant along the curve, with `0 < alpha ≤ 1`; the whole
input is added to the balance. At `alpha = 1` the exact whole-number formulas of the constant
product apply.

* Every rounding goes against the taker.
* The estimate of `exactOut` comes from approximate powers, so it is checked by `exactIn`: a quote
  that falls short is raised in growing steps (`correct`), and one that had to be raised is then
  trimmed by bisection against the last short one (`tighten`).
-/

namespace SwapMachine.Curve.Power

open Number FixedPoint

/-- How often a short quote is raised unless told otherwise. -/
def defaultIterations : Int := 32

/-- The least raise of a short quote unless told otherwise. -/
def defaultStep : Int := 1

/-- Limits of the correction of short quotes. -/
structure Limits where
  iterations : Int := defaultIterations
  step : Int := defaultStep

/-- An amount in and an amount out, with the number of raises it took. -/
structure Quote where
  amountIn : Int
  amountOut : Int
  corrections : Nat

/-- Refuses an exponent outside `(0, 1]`. -/
def requireAlpha (alpha : Int) : Outcome Unit :=
  if 0 < alpha ∧ alpha ≤ one then .ok () else .error (.curve (.alphaRange alpha))

/-- Refuses negative balances, then empty ones. -/
def requireBalances (balanceIn balanceOut : Int) : Outcome Unit :=
  if balanceIn < 0 ∨ balanceOut < 0 then .error (.curve (.negativeBalances balanceIn balanceOut))
  else if balanceIn = 0 ∨ balanceOut = 0 then .error (.curve .emptyBalance)
  else .ok ()

/-- The output for an input, with a factor of the output balance rounded against the taker. -/
def outputFor (balanceIn balanceOut amountIn alpha : Int) : Outcome Int :=
  if alpha = one then mulDivDown balanceOut amountIn (balanceIn + amountIn)
  else do
    let ratio ← divUp balanceIn (balanceIn + amountIn)
    let power ← powUp ratio alpha
    mulDivDown balanceOut (one - min power one) one

/-- The output for a fixed input, rounded down. -/
def exactIn (balanceIn balanceOut amountIn alpha : Int) : Outcome Int := do
  requireBalances balanceIn balanceOut
  requireAlpha alpha
  requirePositive "amount_in" amountIn
  outputFor balanceIn balanceOut amountIn alpha

/-- A first input for a fixed output; exact when `alpha` is one. -/
def estimate (balanceIn balanceOut amountOut alpha : Int) : Outcome Int :=
  if alpha = one then quotientUp (balanceIn * amountOut) (balanceOut - amountOut)
  else do
    let ratio ← divUp balanceOut (balanceOut - amountOut)
    let inverse ← divUp one alpha
    let power ← powUp ratio inverse
    if power ≤ one then .ok 1 else mulDivUp balanceIn (power - one) one

/-- The least input above `short`, found by bisection, that is `enough`. -/
def tighten (isEnough : Int → Outcome Bool) (short enough : Int) : Outcome Int :=
  if 1 < enough - short then do
    let middle := floorDiv (short + enough) 2
    if ← isEnough middle then tighten isEnough short middle else tighten isEnough middle enough
  else .ok enough
termination_by (enough - short).toNat
decreasing_by
  all_goals
    have : middle = (short + enough) / 2 := Int.fdiv_eq_ediv_of_nonneg _ (by decide)
    omega

/-- The request that a correction serves. -/
structure Target where
  balanceIn : Int
  balanceOut : Int
  amountOut : Int
  alpha : Int

/-- The raise that is made where one is suggested: not less than the least one. -/
def Limits.raise (limits : Limits) (suggested : Int) : Outcome Int :=
  .ok (max limits.step suggested)

/-- The step that the marginal price suggests for a shortfall, rounded up. -/
def marginalStep (t : Target) (candidate delivered : Int) : Outcome Int :=
  divideUp ((t.amountOut - delivered) * (t.balanceIn + candidate) * one)
    (t.alpha * (t.balanceOut - delivered))

/-- The input that delivers, once a candidate does: trimmed if an earlier candidate fell short. -/
def settle (t : Target) (candidate : Int) : Option Int → Outcome Int
  | none => .ok candidate
  | some short =>
    tighten
      (fun c => return decide (t.amountOut ≤ (← exactIn t.balanceIn t.balanceOut c t.alpha)))
      short candidate

/-- Raises a candidate until it delivers, at most `left` times more. The raise that is suggested is
the marginal step, or twice the last one if that is more. -/
def correct (t : Target) (raise : Int → Outcome Int) (left corrections : Nat)
    (candidate step : Int) (short : Option Int) : Outcome Quote := do
  let delivered ← exactIn t.balanceIn t.balanceOut candidate t.alpha
  if t.amountOut ≤ delivered then
    return ⟨← settle t candidate short, t.amountOut, corrections⟩
  else
    match left with
    | 0 => .error (.curve (.noConvergence (.int corrections) (t.amountOut - delivered)))
    | left + 1 =>
      let step ← raise (max (← marginalStep t candidate delivered) (2 * step))
      correct t raise left (corrections + 1) (candidate + step) step (some candidate)

/-- The first candidate: the estimate, but one at least. -/
def firstCandidate (t : Target) : Outcome Int :=
  return max 1 (← estimate t.balanceIn t.balanceOut t.amountOut t.alpha)

/-- Refuses a request that the balance cannot serve. -/
def requireTarget (t : Target) : Outcome Unit := do
  requireBalances t.balanceIn t.balanceOut
  requireAlpha t.alpha
  requirePositive "amount_out" t.amountOut
  if t.balanceOut ≤ t.amountOut then .error (.curve (.exceedsBalance t.amountOut t.balanceOut))
  else .ok ()

/-- The input for a fixed output, rounded up and checked against `exactIn`. -/
def exactOut (balanceIn balanceOut amountOut alpha : Int) (limits : Limits) : Outcome Quote := do
  let t : Target := ⟨balanceIn, balanceOut, amountOut, alpha⟩
  requireTarget t
  if limits.iterations < 0 ∨ limits.step ≤ 0 then .error (.curve .correctionLimits)
  else correct t limits.raise limits.iterations.toNat 0 (← firstCandidate t) 0 none

/-- The price of one more unit of output, in units of input, rounded up. -/
def spotPrice (balanceIn balanceOut alpha : Int) : Outcome Int := do
  requireBalances balanceIn balanceOut
  requireAlpha alpha
  mulDivUp (balanceIn * one) one (alpha * balanceOut)

/-- The average price of a fill, in units of input, rounded up. -/
def averagePrice (amountIn amountOut : Int) : Outcome Int :=
  if amountOut ≤ 0 then .error (.curve .averageOfNothing) else mulDivUp amountIn one amountOut

end SwapMachine.Curve.Power
