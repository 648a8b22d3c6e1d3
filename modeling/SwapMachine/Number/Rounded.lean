import SwapMachine.Number.Quantity

/-!
# SwapMachine.Number.Rounded — sums and products of binary fractions

Each result is the exact one rounded once to the nearest value. A result of zero keeps the sign that
both operands of a sum have, or that the signs of the factors give.

* `Quantity.add?` and `Quantity.sum?` are exact as long as all is whole; from the first fraction on
  every sum is rounded, so that the order of the summands counts.
-/

namespace SwapMachine.Number

namespace Binary64

/-- The value nearest to a whole number. -/
def ofInt (z : Int) : Binary64 := ofRatio (decide (z < 0)) z.natAbs 1

/-- The same magnitude with the other sign. -/
def negate : Binary64 → Binary64
  | .nan => .nan
  | .infinite negative => .infinite (!negative)
  | .finite negative m e => .finite (!negative) m e

/-- The sum of two values. -/
def add (x y : Binary64) : Binary64 :=
  match x, y with
  | .finite s m e, .finite t n f =>
    let a := scaled 2 m 1 e
    let b := scaled 2 n 1 f
    let sum := signed s (a.1 * b.2) + signed t (b.1 * a.2)
    ofRatio (if sum = 0 then s && t else decide (sum < 0)) sum.natAbs (a.2 * b.2)
  | .infinite s, .infinite t => if s = t then .infinite s else .nan
  | .infinite s, .finite .. => .infinite s
  | .finite .., .infinite t => .infinite t
  | _, _ => .nan

/-- The product of two values. -/
def mul (x y : Binary64) : Binary64 :=
  match x, y with
  | .finite s m e, .finite t n f =>
    let product := scaled 2 (m * n) 1 (e + f)
    ofRatio (s != t) product.1 product.2
  | .infinite s, .infinite t => .infinite (s != t)
  | .infinite s, .finite t n _ => if n = 0 then .nan else .infinite (s != t)
  | .finite s m _, .infinite t => if m = 0 then .nan else .infinite (s != t)
  | _, _ => .nan

end Binary64

namespace Quantity

/-- The nearest fraction, unless a whole number is beyond all fractions. -/
def fraction? : Quantity → Option Binary64
  | whole z =>
    match Binary64.ofInt z with
    | .infinite _ => none
    | x => some x
  | fraction x => some x

/-- The sum of two quantities: whole if both are, else a fraction. -/
def add? (a b : Quantity) : Option Quantity :=
  match a, b with
  | whole y, whole z => some (whole (y + z))
  | a, b =>
    match a.fraction?, b.fraction? with
    | some x, some y => some (fraction (x.add y))
    | _, _ => none

/-- The quantities added to a first one in turn. -/
def sum? (first : Quantity) : List Quantity → Option Quantity
  | [] => some first
  | q :: qs => (first.add? q).bind fun s => sum? s qs

/-- Whole numbers have a whole sum. -/
theorem sum?_whole (z : Int) (zs : List Int) :
    sum? (whole z) (zs.map whole) = some (whole (zs.foldl (· + ·) z)) := by
  induction zs generalizing z with
  | nil => rfl
  | cons y ys ih => exact ih (z + y)

end Quantity

end SwapMachine.Number
