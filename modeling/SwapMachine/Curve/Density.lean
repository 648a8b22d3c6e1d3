import SwapMachine.Curve.Amount
import SwapMachine.FixedPoint.Scale

/-!
# SwapMachine.Curve.Density — a price that rises along the part already sold

The maker sells up to `capacity` units. At position `x`, the part sold, the price is
`basePrice · (1 + strength · xⁿ)`, where `n` is the degree of the shape. Amounts come from the
integral of the price as one exact fraction that is rounded once.

* `cost` is the exact price of a stretch of the curve, rounded up.
* `exactIn` is the largest output whose cost, spread included, the input covers, found by bisection.
-/

namespace SwapMachine.Curve

open Number FixedPoint

/-- The shape of the price along the curve. -/
inductive Shape where
  | constant
  | linear
  | quadratic
  | cubic
  deriving DecidableEq

namespace Shape

/-- The power of the position in the price, which is also the number of the shape in programs. -/
def degree : Shape → Nat
  | constant => 0
  | linear => 1
  | quadratic => 2
  | cubic => 3

/-- The name of the shape in listings. -/
def name : Shape → String
  | constant => "CONSTANT"
  | linear => "LINEAR"
  | quadratic => "QUADRATIC"
  | cubic => "CUBIC"

/-- The shape of a number. -/
def ofNumber? : Int → Option Shape
  | 0 => some constant
  | 1 => some linear
  | 2 => some quadratic
  | 3 => some cubic
  | _ => none

theorem ofNumber?_degree (s : Shape) : ofNumber? s.degree = some s := by cases s <;> rfl

end Shape

/-- A density curve; `spread` is in basis points, the price and the strength have 18 places. -/
structure Density where
  capacity : Int
  basePrice : Int
  strength : Int
  shape : Shape
  spread : Int
  capacity_pos : 0 < capacity
  basePrice_pos : 0 < basePrice
  strength_nonneg : 0 ≤ strength
  spread_nonneg : 0 ≤ spread
  spread_lt : spread < bpsWhole
  deriving DecidableEq

namespace Density

/-- The curve with these parameters, the first bad one being reported. -/
def make (capacity basePrice strength : Int) (shape : Datum) (spread : Int) : Outcome Density :=
  if hc : capacity ≤ 0 then .error (.curve (.capacityNotPositive capacity))
  else if hb : basePrice ≤ 0 then .error (.curve (.basePriceNotPositive basePrice))
  else if hs : strength < 0 then .error (.curve (.strengthNegative strength))
  else if hp : 0 ≤ spread ∧ spread < bpsWhole then
    match shape.whole?.bind Shape.ofNumber? with
    | some s =>
      .ok ⟨capacity, basePrice, strength, s, spread, by omega, by omega, by omega, hp.1, hp.2⟩
    | none => .error (.curve (.unknownShape shape))
  else .error (.curve (.spreadRange spread))

/-- The average density over a stretch, as a fraction; positions are in units of `scale`. -/
def averageDensity (shape : Shape) (lo hi scale : Int) : Int × Int :=
  let n := shape.degree
  (Int.pow hi (n + 1) - Int.pow lo (n + 1), ((n + 1 : Nat) : Int) * Int.pow scale n * (hi - lo))

/-- Refuses a position outside `[0, 1]`. -/
def requirePosition (x : Int) : Outcome Unit :=
  if 0 ≤ x ∧ x ≤ one then .ok () else .error (.curve (.positionRange x))

/-! ### Views by position, at 18 places -/

/-- The density at a position, rounded down. -/
def densityAt (c : Density) (x : Int) : Outcome Int := do
  requirePosition x
  let n := c.shape.degree
  return if n = 0 then one else floorDiv (Int.pow x n) (Int.pow one (n - 1))

/-- The price at a position within the curve, rounded down. -/
def pointPrice (c : Density) (x : Int) : Int :=
  let n := c.shape.degree
  let scale := Int.pow one (n + 1)
  floorDiv (c.basePrice * (scale + c.strength * Int.pow x n)) scale

/-- The price at a position, rounded down. -/
def priceAt (c : Density) (x : Int) : Outcome Int := do
  requirePosition x
  return c.pointPrice x

/-- The average price over a stretch, rounded down; over a point it is the price there. -/
def averagePrice (c : Density) (x0 x1 : Int) : Outcome Int := do
  requirePosition x0
  requirePosition x1
  if x1 < x0 then .error (.curve .rangeReversed)
  else if x0 = x1 then return c.pointPrice x0
  else
    let (num, den) := averageDensity c.shape x0 x1 one
    return floorDiv (c.basePrice * (one * den + c.strength * num)) (one * den)

/-! ### Amounts -/

/-- What has been sold when `balanceOut` is left; a balance above the capacity is at the start. -/
def soldAt (c : Density) (balanceOut : Int) : Int := max 0 (c.capacity - balanceOut)

/-- Refuses a negative remaining balance. -/
def requireRemainder (balanceOut : Int) : Outcome Unit :=
  if balanceOut < 0 then .error (.curve (.negativeRemainder balanceOut)) else .ok ()

/-- What has been sold when `balanceOut` is left. -/
def sold (c : Density) (balanceOut : Int) : Outcome Int := do
  requireRemainder balanceOut
  return c.soldAt balanceOut

/-- The part sold when `balanceOut` is left, at 18 places. -/
def position (c : Density) (balanceOut : Int) : Outcome Int :=
  return floorDiv ((← c.sold balanceOut) * one) c.capacity

/-- The price of the next `amountOut` units behind the first `soldBefore`, without the spread. -/
def cost (c : Density) (soldBefore amountOut : Int) : Outcome Int :=
  if amountOut = 0 then .ok 0
  else
    let (num, den) := averageDensity c.shape soldBefore (soldBefore + amountOut) c.capacity
    divideUp (c.basePrice * (amountOut * one * den + c.strength * amountOut * num)) (one * one * den)

/-- What the taker pays for a stretch, spread included. -/
def charge (c : Density) (soldBefore amountOut : Int) : Outcome Int := do
  applySpread (← c.cost soldBefore amountOut) c.spread true

/-- What is left to sell. -/
def available (c : Density) (balanceOut : Int) : Outcome Int :=
  return min balanceOut (c.capacity - (← c.sold balanceOut))

/-- The input for a fixed output, rounded up, spread included. -/
def exactOut (c : Density) (balanceOut amountOut : Int) : Outcome Int := do
  requirePositive "amount_out" amountOut
  let most ← c.available balanceOut
  if most < amountOut then .error (.curve (.exceedsAvailable amountOut most))
  else c.charge (c.soldAt balanceOut) amountOut

/-- The largest number from `lo` to `hi` that bisection finds to be affordable. -/
def bisect (isAffordable : Int → Outcome Bool) (lo hi : Int) : Outcome Int :=
  if lo < hi then do
    let middle := floorDiv (lo + hi + 1) 2
    if ← isAffordable middle then bisect isAffordable middle hi
    else bisect isAffordable lo (middle - 1)
  else .ok lo
termination_by (hi - lo).toNat
decreasing_by
  all_goals
    have : middle = (lo + hi + 1) / 2 := Int.fdiv_eq_ediv_of_nonneg _ (by decide)
    omega

/-- The largest output that a fixed input pays for. -/
def exactIn (c : Density) (balanceOut amountIn : Int) : Outcome Int := do
  requirePositive "amount_in" amountIn
  let most ← c.available balanceOut
  bisect (fun m => return decide ((← c.charge (c.soldAt balanceOut) m) ≤ amountIn)) 0 most

end Density

end SwapMachine.Curve
