import SwapMachine.FixedPoint.Power

/-!
# SwapMachine.Intake.Arithmetic — fixed-point operations on data not yet looked at

Each operation looks at its operands one by one, first at the sort and then at the range of each, so
that of several faults the first in this order is reported.
-/

namespace SwapMachine.Intake

open FixedPoint

/-- A 256-bit unsigned number. -/
def uint (field : String) (d : Datum) : Outcome Int := do
  let z ← d.toInt field
  requireUint field z
  return z

def ln (x : Datum) : Outcome Int := do FixedPoint.ln (← uint "x" x)

def exp (x : Datum) : Outcome Int := do FixedPoint.exp (← x.toInt "x")

/-- A power in one of its three roundings. -/
def power (rounding : Int → Int → Outcome Int) (base exponent : Datum) : Outcome Int := do
  let b ← uint "base" base
  let e ← uint "exponent" exponent
  rounding b e

/-- A product over a denominator in one of its two roundings. -/
def mulDiv (rounding : Int → Int → Int → Outcome Int) (a b denominator : Datum) : Outcome Int := do
  let x ← uint "a" a
  let y ← uint "b" b
  let d ← uint "denominator" denominator
  rounding x y d

/-- A product of fixed-point numbers. -/
def mul (rounding : Int → Int → Int → Outcome Int) (a b : Datum) : Outcome Int :=
  mulDiv rounding a b (.int one)

/-- A quotient of fixed-point numbers. -/
def div (rounding : Int → Int → Int → Outcome Int) (a b : Datum) : Outcome Int :=
  mulDiv rounding a (.int one) b

def quotientUp (numerator denominator : Datum) : Outcome Int := do
  let n ← uint "numerator" numerator
  let d ← denominator.toInt "denominator"
  FixedPoint.quotientUp n d

def applySpread (amount spread : Datum) (takerPays : Bool) : Outcome Int := do
  let a ← uint "amount" amount
  let s ← spread.toInt "spread_bps"
  FixedPoint.applySpread a s takerPays

end SwapMachine.Intake
