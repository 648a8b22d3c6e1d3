import SwapMachine.FixedPoint.Scale

/-!
# SwapMachine.Curve.Amount — what every curve asks of an amount, and fees on amounts

* `requirePositive` refuses amounts that are not positive.
* A fee is a whole number of basis points below the whole. `afterFee` takes it from an amount paid
  in and `lessFee` from an amount paid out, both to the taker's cost; `beforeFee` is what has to be
  asked so that an amount is left.
-/

namespace SwapMachine.Curve

open FixedPoint

/-- Refuses an amount that is not positive. -/
def requirePositive (field : String) (amount : Int) : Outcome Unit :=
  if amount ≤ 0 then .error (.curve (.amountNotPositive field (.int amount))) else .ok ()

/-- The fee that a datum holds: a whole number of basis points below the whole. -/
def fee? (d : Datum) : Except FeeFault Int :=
  match d with
  | .int fee => if 0 ≤ fee ∧ fee < bpsWhole then .ok fee else .error (.outOfRange fee)
  | d => .error (.notInt d)

/-- What a fee, rounded up, leaves of an input. -/
def afterFee (amount fee : Int) : Outcome Int := return amount - (← mulDivUp amount fee bpsWhole)

/-- What a fee leaves of an output, rounded down. -/
def lessFee (amount fee : Int) : Outcome Int := mulDivDown amount (bpsWhole - fee) bpsWhole

/-- The amount of which a fee leaves a given one, rounded up. -/
def beforeFee (amount fee : Int) : Outcome Int := mulDivUp amount bpsWhole (bpsWhole - fee)

end SwapMachine.Curve
