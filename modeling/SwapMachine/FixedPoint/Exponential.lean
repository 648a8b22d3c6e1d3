import SwapMachine.FixedPoint.Logarithm

/-!
# SwapMachine.FixedPoint.Exponential — the exponential function

A whole number of `ln 2` is split off the exponent and becomes a binary shift of the result; the
rest is quartered, its exponential summed from the Taylor series and squared twice. Far below zero
the result is zero; above `expLimit` there is none.
-/

namespace SwapMachine.FixedPoint

open Number

/-- The largest exponent that has a result. -/
def expLimit : Int := 130000000000000000000

/-- Below this exponent the result is zero. -/
def expFloor : Int := -41000000000000000000

/-- The number of Taylor terms behind the leading one. -/
def expTerms : Nat := 14

/-- The sum of `count` Taylor terms of `e ^ h` behind the term `term` of degree `degree`. -/
def taylor (h : Int) : Nat → Nat → Int → Int
  | 0, _, _ => 0
  | count + 1, degree, term =>
    let next := truncDiv (term * h) (fine * ((degree + 1 : Nat) : Int))
    next + taylor h count (degree + 1) next

/-- The square at 36 places, rounded down. -/
def squareFine (x : Int) : Int := floorDiv (x * x) fine

/-- The exponential at 36 places on both sides, without its binary shift. -/
def expRemainder (r : Int) : Int :=
  squareFine (squareFine (fine + taylor (truncDiv r 4) expTerms 0 fine))

/-- The number moved by `k` binary places, rounded down. -/
def shift (x k : Int) : Int :=
  if 0 ≤ k then x * (Nat.pow 2 k.toNat : Nat) else floorDiv x (Nat.pow 2 (-k).toNat : Nat)

/-- The exponential at 36 places on both sides. -/
def expFine (r : Int) : Outcome Int :=
  if r < expFloor * finePerUnit then .ok 0
  else if expLimit * finePerUnit < r then
    .error (.math (.exponentTooLarge (floorDiv r finePerUnit)))
  else
    let k := nearestDiv r lnTwo
    .ok (shift (expRemainder (r - k * lnTwo)) k)

/-- The exponential, rounded down. -/
def exp (x : Int) : Outcome Int := do
  let r ← expFine (x * finePerUnit)
  let result := floorDiv r finePerUnit
  if maxUint < result then .error (.math .expTooWide) else .ok result

end SwapMachine.FixedPoint
