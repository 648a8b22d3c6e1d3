import SwapMachine.FixedPoint.Exponential

/-!
# SwapMachine.FixedPoint.Power — powers, plain and with a margin on either side

Near one the power is summed from the binomial series; elsewhere it is the exponential of the
exponent times the logarithm. `powUp` and `powDown` move the plain result by the margin of error
that both ways keep within, except where the power is exact.
-/

namespace SwapMachine.FixedPoint

open Number

/-- How far from one the binomial series is used, for the base and for deviation times exponent. -/
def nearOneBand : Int := 50000000000000000

/-- The number of binomial terms behind the leading one. -/
def nearOneTerms : Nat := 24

/-- The error that a power may have, in units of 18 places of its value. -/
def powError : Int := 10000

/-- The sum of `count` binomial terms of `(1 + d) ^ y` behind the term `term` of degree `degree`. -/
def binomial (d y : Int) : Nat → Nat → Int → Int
  | 0, _, _ => 0
  | count + 1, degree, term =>
    let next := truncDiv (truncDiv (term * (y - (degree : Int) * fine)) fine * d)
      (fine * ((degree + 1 : Nat) : Int))
    next + binomial d y count (degree + 1) next

/-- The power of a base near one, 36 places in the result. -/
def powNearOne (base exponent : Int) : Int :=
  fine + binomial ((base - one) * finePerUnit) (exponent * finePerUnit) nearOneTerms 0 fine

/-- The power of a positive base by way of its logarithm, 36 places in the result. -/
def powByLog (base exponent : Int) : Outcome Int :=
  expFine (truncDiv (lnFine (base * finePerUnit).toNat * exponent) one)

/-- The base and the exponent are close enough to one and zero for the binomial series. -/
def IsNearOne (base exponent : Int) : Prop :=
  ((base - one).natAbs : Int) ≤ nearOneBand ∧
    ((base - one).natAbs : Int) * exponent ≤ nearOneBand * one

instance (base exponent : Int) : Decidable (IsNearOne base exponent) :=
  inferInstanceAs (Decidable (_ ∧ _))

/-- The power at 36 places where no shortcut gives it. -/
def powFine (base exponent : Int) : Outcome Int :=
  if IsNearOne base exponent then .ok (powNearOne base exponent) else powByLog base exponent

/-- The power is known without a series. -/
def IsExactPower (base exponent : Int) : Prop :=
  exponent = 0 ∨ exponent = one ∨ base = 0 ∨ base = one

instance (base exponent : Int) : Decidable (IsExactPower base exponent) :=
  inferInstanceAs (Decidable (_ ∨ _ ∨ _ ∨ _))

/-- The power `base ^ exponent`, rounded down from the inner precision. -/
def pow (base exponent : Int) : Outcome Int := do
  requireUint "base" base
  requireUint "exponent" exponent
  if exponent = 0 then .ok one
  else if base = 0 then .ok 0
  else if exponent = one then .ok base
  else if base = one then .ok one
  else
    let r ← powFine base exponent
    let result := floorDiv r finePerUnit
    if maxUint < result then .error (.math .powTooWide) else .ok result

/-- How far the true power may be from the plain result. -/
def powMargin (raw : Int) : Outcome Int := return (← mulDivUp raw powError one) + 1

/-- The power `base ^ exponent`, not below the true one. -/
def powUp (base exponent : Int) : Outcome Int := do
  let raw ← pow base exponent
  if IsExactPower base exponent then .ok raw
  else return raw + (← powMargin raw)

/-- The power `base ^ exponent`, not above the true one. -/
def powDown (base exponent : Int) : Outcome Int := do
  let raw ← pow base exponent
  if IsExactPower base exponent then .ok raw
  else
    let margin ← powMargin raw
    if margin < raw then .ok (raw - margin) else .ok 0

end SwapMachine.FixedPoint
