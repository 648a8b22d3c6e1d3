import SwapMachine.Fault
import SwapMachine.Number.Rounding

/-!
# SwapMachine.FixedPoint.Scale — fixed-point numbers and products with one rounding

A fixed-point number is a whole number of units of `1 / one`, that is 18 decimal places; inner
computations carry 36 places (`fine`). Operands and results are 256-bit unsigned numbers.

* `mulDivDown` and `mulDivUp` multiply and divide in one step: the product may be wider than its
  operands, and only the quotient is rounded and bounded.
* `divideDown` and `divideUp` do not bound anything; they only refuse to divide by zero.
-/

namespace SwapMachine.FixedPoint

open Number

/-- One, at 18 decimal places. -/
def one : Int := 1000000000000000000

/-- One, at 36 decimal places. -/
def fine : Int := 1000000000000000000000000000000000000

/-- Units of 36 places in one unit of 18. -/
def finePerUnit : Int := 1000000000000000000

/-- The largest 256-bit unsigned number. -/
def maxUint : Int :=
  115792089237316195423570985008687907853269984665640564039457584007913129639935

/-- Basis points in the whole. -/
def bpsWhole : Int := 10000

/-- The number is a 256-bit unsigned one. -/
def IsUint (z : Int) : Prop := 0 ≤ z ∧ z ≤ maxUint

instance (z : Int) : Decidable (IsUint z) := inferInstanceAs (Decidable (_ ∧ _))

/-- Refuses a number that is negative or wider than 256 bits. -/
def requireUint (field : String) (z : Int) : Outcome Unit :=
  if z < 0 then .error (.math (.negative field z))
  else if maxUint < z then .error (.math (.tooWide field))
  else .ok ()

/-- A quotient that has to fit in 256 bits. -/
def bounded (q : Int) : Outcome Int :=
  if maxUint < q then .error (.math .quotientTooWide) else .ok q

/-- The checks that `mulDivDown` and `mulDivUp` make of their operands. -/
def requireRatio (a b denominator : Int) : Outcome Unit := do
  requireUint "a" a
  requireUint "b" b
  requireUint "denominator" denominator
  if denominator = 0 then .error (.math .divisionByZero) else .ok ()

/-- The quotient `a * b / denominator`, rounded down. -/
def mulDivDown (a b denominator : Int) : Outcome Int := do
  requireRatio a b denominator
  bounded (floorDiv (a * b) denominator)

/-- The quotient `a * b / denominator`, rounded up. -/
def mulDivUp (a b denominator : Int) : Outcome Int := do
  requireRatio a b denominator
  bounded (ceilDiv (a * b) denominator)

/-- The quotient rounded down, of any whole numbers. -/
def divideDown (a b : Int) : Outcome Int :=
  if b = 0 then .error (.math .zeroDivisor) else .ok (floorDiv a b)

/-- The quotient rounded up, of any whole numbers. -/
def divideUp (a b : Int) : Outcome Int :=
  if b = 0 then .error (.math .zeroDivisor) else .ok (ceilDiv a b)

/-- The product of fixed-point numbers, rounded down. -/
def mulDown (a b : Int) : Outcome Int := mulDivDown a b one

/-- The product of fixed-point numbers, rounded up. -/
def mulUp (a b : Int) : Outcome Int := mulDivUp a b one

/-- The quotient of fixed-point numbers, rounded down. -/
def divDown (a b : Int) : Outcome Int := mulDivDown a one b

/-- The quotient of fixed-point numbers, rounded up. -/
def divUp (a b : Int) : Outcome Int := mulDivUp a one b

/-- The quotient rounded up; neither the denominator nor the result is bounded above. -/
def quotientUp (numerator denominator : Int) : Outcome Int := do
  requireUint "numerator" numerator
  if denominator ≤ 0 then .error (.math .denominatorNotPositive)
  else .ok (ceilDiv numerator denominator)

/-- An amount widened by a spread in the maker's favour: what the taker pays is rounded up, what the
taker receives is rounded down. -/
def applySpread (amount spread : Int) (takerPays : Bool) : Outcome Int := do
  requireUint "amount" amount
  if ¬ (0 ≤ spread ∧ spread < bpsWhole) then .error (.math (.spreadRange spread))
  else if takerPays then mulDivUp amount (bpsWhole + spread) bpsWhole
  else mulDivDown amount (bpsWhole - spread) bpsWhole

/-! ### The quotients are exact -/

theorem requireUint_eq_ok_iff {field : String} {z : Int} :
    requireUint field z = .ok () ↔ IsUint z := by
  unfold requireUint IsUint
  split
  · simp; omega
  · split <;> simp <;> omega

theorem bounded_eq_ok_iff {q r : Int} : bounded q = .ok r ↔ q = r ∧ q ≤ maxUint := by
  unfold bounded
  split
  · simp; omega
  · simp; omega

end SwapMachine.FixedPoint
