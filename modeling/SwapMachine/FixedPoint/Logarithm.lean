import SwapMachine.FixedPoint.Scale

/-!
# SwapMachine.FixedPoint.Logarithm — the natural logarithm

The argument is halved or doubled into the interval from `1 / √2` to `√2`, each step counting one
`ln 2`; there `ln a = 2 · artanh ((a − 1) / (a + 1))` is summed from its odd powers.

* `halvings` and `doublings` are the two halves of the reduction; at most one of them moves.
* `lnFine` works at 36 places on both sides, `ln` at 18 and rounds down.
-/

namespace SwapMachine.FixedPoint

open Number

/-- The constant `ln 2` at 36 places, cut off. -/
def lnTwo : Int := 693147180559945309417232121458176568

/-- The constant `√2` at 36 places, cut off. -/
def sqrtTwo : Nat := 1414213562373095048801688724209698078

/-- The constant `1 / √2` at 36 places, cut off. -/
def invSqrtTwo : Nat := 707106781186547524400844362104849039

/-- The last of the odd powers that are summed. -/
def lnLastPower : Nat := 23

/-- Halves until the number is at most `√2`, counting the halvings. -/
def halvings (a : Nat) (count : Nat) : Nat × Nat :=
  if a ≤ sqrtTwo then (a, count) else halvings (a / 2) (count + 1)
termination_by a
decreasing_by
  have : 0 < sqrtTwo := by decide
  omega

/-- Doubles until the number is at least `1 / √2`, counting the doublings. Zero stays as it is. -/
def doublings (a : Nat) (count : Nat) : Nat × Nat :=
  if 0 < a ∧ a < invSqrtTwo then doublings (2 * a) (count + 1) else (a, count)
termination_by invSqrtTwo - a

/-- A number brought near one, and the power of two that it was divided by. -/
structure Reduced where
  residue : Nat
  shift : Int

/-- Range reduction of a positive number. -/
def reduce (a : Nat) : Reduced :=
  let down := halvings a 0
  let up := doublings down.1 0
  ⟨up.1, (down.2 : Int) - (up.2 : Int)⟩

/-- The argument `(a − 1) / (a + 1)` of the series. -/
def artanhArgument (a : Nat) : Int := truncDiv (((a : Int) - fine) * fine) ((a : Int) + fine)

/-- The sum of `zⁱ / i` over the odd `i` from a given one on; `term` is the power before. -/
def oddPowers (square : Int) (power : Nat) (term : Int) : Int :=
  if lnLastPower < power then 0
  else
    let next := truncDiv (term * square) fine
    truncDiv next power + oddPowers square (power + 2) next
termination_by lnLastPower + 1 - power

/-- The inverse hyperbolic tangent by its odd powers. -/
def artanh (z : Int) : Int := z + oddPowers (truncDiv (z * z) fine) 3 z

/-- The natural logarithm of a positive number, 36 places on both sides. -/
def lnFine (a : Nat) : Int :=
  let r := reduce a
  2 * artanh (artanhArgument r.residue) + r.shift * lnTwo

/-- The natural logarithm, rounded down. -/
def ln (x : Int) : Outcome Int := do
  requireUint "x" x
  if x = 0 then .error (.math .lnOfZero)
  else .ok (floorDiv (lnFine (x * finePerUnit).toNat) finePerUnit)

end SwapMachine.FixedPoint
