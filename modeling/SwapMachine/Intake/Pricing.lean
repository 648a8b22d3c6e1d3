import SwapMachine.Curve.Power
import SwapMachine.Curve.Density
import SwapMachine.Curve.Peg

/-!
# SwapMachine.Intake.Pricing — curves asked with data not yet looked at

As in `SwapMachine.Intake.Arithmetic`, the first fault in the order of the checks is reported. Where
an operation only computes with an operand, a truth value counts as zero or one (`number`). Where it
only compares an operand, fractions and truth values are compared by value, and a message shows them
as they were given.
-/

namespace SwapMachine.Intake

open Curve

/-- A number that is computed with and not otherwise checked. -/
def number (field : String) (d : Datum) : Outcome Int :=
  match d.whole? with
  | some z => .ok z
  | none => .error (.notInt field)

/-- Refuses an amount that is a number at most zero; what is no number passes. -/
def requirePositive (field : String) (d : Datum) : Outcome Unit :=
  match d.quantity? with
  | some q =>
    if q.isAtMost (.whole 0) then .error (.curve (.amountNotPositive field d)) else .ok ()
  | none => .error (.notInt field)

/-! ### Parameters -/

def alpha (d : Datum) : Outcome Int := do
  let a ← d.toInt "alpha"
  Power.requireAlpha a
  return a

def rate (d : Datum) : Outcome Int := do
  let r ← d.toInt "rate"
  Peg.requireRate r
  return r

def fee (d : Datum) : Outcome Int :=
  match fee? d with
  | .ok bps => .ok bps
  | .error f => .error (.fee f)

/-! ### The power curve -/

/-- Balances and exponent, checked in this order. -/
def powerCurve (balanceIn balanceOut exponent : Datum) : Outcome (Int × Int × Int) := do
  let i ← balanceIn.toInt "balance_in"
  let o ← balanceOut.toInt "balance_out"
  Power.requireBalances i o
  let a ← alpha exponent
  return (i, o, a)

def powerExactIn (balanceIn balanceOut amountIn exponent : Datum) : Outcome Int := do
  let (i, o, a) ← powerCurve balanceIn balanceOut exponent
  Power.exactIn i o (← amountIn.toInt "amount_in") a

/-- A fixed input with its output, as a quote without corrections. -/
def powerSwap (balanceIn balanceOut amountIn exponent : Datum) : Outcome Power.Quote := do
  let out ← powerExactIn balanceIn balanceOut amountIn exponent
  return ⟨← amountIn.toInt "amount_in", out, 0⟩

/-- Refuses a number of raises below zero, and a least raise that is not above zero. -/
def requireLimits (iterations step : Datum) : Outcome Unit :=
  if iterations.isBelow (.int 0) || step.isAtMost (.int 0) then .error (.curve .correctionLimits)
  else .ok ()

/-- The raise that is made where one is suggested. A least raise that is a fraction gives no amount
where it counts. -/
def raise (step : Datum) (suggested : Int) : Outcome Int :=
  match step with
  | .float x =>
    if (Number.Quantity.fraction x).isBelow (.whole suggested) then .ok suggested
    else .error (.notInt "amount_in")
  | d => do return max (← number "min_step" d) suggested

/-- How often a quote may be raised. -/
def repetitions (iterations : Datum) : Outcome Nat :=
  match iterations with
  | .float _ => .error (.notInt "max_iterations")
  | d => Int.toNat <$> number "max_iterations" d

/-- An outcome whose fault shows the number of raises as it was given. -/
def showing (iterations : Datum) (r : Outcome Power.Quote) : Outcome Power.Quote :=
  match r with
  | .error (.curve (.noConvergence _ shortfall)) =>
    .error (.curve (.noConvergence iterations shortfall))
  | r => r

def powerExactOut (balanceIn balanceOut amountOut exponent iterations step : Datum) :
    Outcome Power.Quote := do
  let (i, o, a) ← powerCurve balanceIn balanceOut exponent
  let t : Power.Target := ⟨i, o, ← amountOut.toInt "amount_out", a⟩
  Power.requireTarget t
  requireLimits iterations step
  let first ← Power.firstCandidate t
  let times ← repetitions iterations
  showing iterations (Power.correct t (raise step) times 0 first 0 none)

def powerSpotPrice (balanceIn balanceOut exponent : Datum) : Outcome Int := do
  let (i, o, a) ← powerCurve balanceIn balanceOut exponent
  Power.spotPrice i o a

def powerAveragePrice (amountIn amountOut : Datum) : Outcome Int := do
  let i ← amountIn.toInt "amount_in"
  let o ← amountOut.toInt "amount_out"
  Power.averagePrice i o

/-! ### The peg -/

/-- Refuses to pay out more than the balance; a balance that is no number is no bound. -/
def requireWithin (amountOut balanceOut : Datum) : Outcome Unit :=
  match balanceOut.quantity? with
  | some _ =>
    if balanceOut.isBelow amountOut then .error (.curve (.overdrawn amountOut balanceOut))
    else .ok ()
  | none => .error (.notInt "balance_out")

def pegExactIn (balanceOut amountIn pegRate : Datum) : Outcome Int := do
  let r ← rate pegRate
  requirePositive "amount_in" amountIn
  let out ← FixedPoint.mulDivDown (← amountIn.toInt "a") r FixedPoint.one
  requireWithin (.int out) balanceOut
  return out

def pegExactOut (balanceOut amountOut pegRate : Datum) : Outcome Int := do
  let r ← rate pegRate
  requirePositive "amount_out" amountOut
  requireWithin amountOut balanceOut
  FixedPoint.mulDivUp (← amountOut.toInt "a") FixedPoint.one r

def pegSpotPrice (pegRate : Datum) : Outcome Int := do Peg.spotPrice (← rate pegRate)

/-! ### The density curve -/

/-- The curve with these parameters: first all sorts are checked, then the values. -/
def density (capacity basePrice strength shape spread : Datum) : Outcome Density := do
  let c ← capacity.toInt "capacity"
  let b ← basePrice.toInt "base_price"
  let s ← strength.toInt "strength"
  let p ← spread.toInt "spread_bps"
  Density.make c b s shape p

def densityAveragePrice (c : Density) (x0 x1 : Datum) : Outcome Int := do
  let a ← x0.toInt "x"
  Density.requirePosition a
  c.averagePrice a (← x1.toInt "x")

/-- The cost of a stretch; nothing costs nothing, wherever the stretch starts. -/
def densityCost (c : Density) (soldBefore amountOut : Datum) : Outcome Int :=
  if amountOut.compare? (.int 0) == some .eq then .ok 0
  else do
    let s ← number "sold_before" soldBefore
    c.cost s (← number "amount_out" amountOut)

def densityExactOut (c : Density) (balanceOut amountOut : Datum) : Outcome Int := do
  let n ← amountOut.toInt "amount_out"
  Curve.requirePositive "amount_out" n
  c.exactOut (← balanceOut.toInt "balance_out") n

def densityExactIn (c : Density) (balanceOut amountIn : Datum) : Outcome Int := do
  let n ← amountIn.toInt "amount_in"
  Curve.requirePositive "amount_in" n
  c.exactIn (← balanceOut.toInt "balance_out") n

end SwapMachine.Intake
