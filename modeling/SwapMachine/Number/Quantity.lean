import SwapMachine.Number.Binary64

/-!
# SwapMachine.Number.Quantity — numbers of either form, in one order

A quantity is a whole number or a binary fraction. Quantities are compared by their exact values, so
that no rounding puts two different numbers in one place.

* `Quantity.compare?` gives no answer when one side is no number.
* Hence `isBelow` and `isAtMost` both fail there.
-/

namespace SwapMachine.Number

/-- A whole number or a binary fraction. -/
inductive Quantity where
  | whole (z : Int)
  | fraction (x : Binary64)

namespace Quantity

/-- Where a number stands: below or above all finite ones, or at an exact fraction. -/
inductive Position where
  | lowest
  | exactly (num : Int) (den : Nat)
  | highest

/-- The order of positions; fractions are compared by cross products. -/
def Position.compare : Position → Position → Ordering
  | lowest, lowest => .eq
  | lowest, _ => .lt
  | _, lowest => .gt
  | highest, highest => .eq
  | highest, _ => .gt
  | _, highest => .lt
  | .exactly a b, .exactly c d => Ord.compare (a * d) (c * b)

/-- Where a quantity stands, unless it is no number. -/
def position? : Quantity → Option Position
  | whole z => some (.exactly z 1)
  | fraction .nan => none
  | fraction (.infinite negative) => some (if negative then .lowest else .highest)
  | fraction (.finite negative m e) =>
    let exact := Binary64.scaled 2 m 1 e
    some (.exactly (Binary64.signed negative exact.1) exact.2)

/-- The order of two quantities, if both are numbers. -/
def compare? (a b : Quantity) : Option Ordering :=
  match a.position?, b.position? with
  | some x, some y => some (x.compare y)
  | _, _ => none

/-- The first quantity is less than the second. -/
def isBelow (a b : Quantity) : Bool := a.compare? b == some .lt

/-- The first quantity is less than the second or equal to it. -/
def isAtMost (a b : Quantity) : Bool :=
  match a.compare? b with
  | some .gt | none => false
  | some _ => true

/-- Between whole numbers the order is the usual one. -/
theorem isBelow_whole (a b : Int) : (whole a).isBelow (whole b) = decide (a < b) := by
  simp only [isBelow, compare?, position?, Position.compare, Int.natCast_one, Int.mul_one]
  rcases Int.lt_trichotomy a b with h | h | h
  · simp [compareOfLessAndEq, Ord.compare, h]
  · simp [compareOfLessAndEq, Ord.compare, h]
  · simp [compareOfLessAndEq, Ord.compare, Int.not_lt.mpr (Int.le_of_lt h), Int.ne_of_gt h]

theorem isAtMost_whole (a b : Int) : (whole a).isAtMost (whole b) = decide (a ≤ b) := by
  simp only [isAtMost, compare?, position?, Position.compare, Int.natCast_one, Int.mul_one]
  rcases Int.lt_trichotomy a b with h | h | h
  · simp [compareOfLessAndEq, Ord.compare, h, Int.le_of_lt h]
  · simp [compareOfLessAndEq, Ord.compare, h]
  · simp [compareOfLessAndEq, Ord.compare, Int.not_lt.mpr (Int.le_of_lt h), Int.ne_of_gt h,
      Int.not_le.mpr h]

end Quantity

end SwapMachine.Number
