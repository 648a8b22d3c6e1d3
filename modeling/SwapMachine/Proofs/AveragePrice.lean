import Mathlib.Tactic.Ring
import SwapMachine.Proofs.Stretch

/-!
# SwapMachine.Proofs.AveragePrice — average prices along a density curve

Positions are parts of the whole at 18 places, so the views by position are those of the curve whose
capacity is `one`.  There an average price is the integral over a stretch, divided by the length of
the stretch and rounded down once.

* `rate_mul_le_integral`, `integral_le_rate_mul`: the price rises, so a stretch is worth no less than
  at the price that it begins with, and no more than at the one that it ends with.
* `priceAt_eq`, `averagePrice_eq`: what is rounded down.
* `IsAverage c x y price`: the price is the average over a stretch, rounded down.
* `average_of_parts`: averages over two stretches in a row, each counted by its length, make up the
  average over both to within one unit at each position, and averages are between the prices at the
  ends.
-/

namespace SwapMachine.Curve.Density

open FixedPoint Number

variable {c : Density} {x y z m price first rest whole : Int}

/-! ### What a stretch is worth at one price -/

/-- A power grows over a step by no less than with its slope before the step. -/
theorem mul_pow_le_pow_sub (hx : 0 ≤ x) (hm : 0 ≤ m) (n : Nat) :
    ((n + 1 : Nat) : Int) * x ^ n * m ≤ (x + m) ^ (n + 1) - x ^ (n + 1) := by
  induction n with
  | zero => simp
  | succ n ih =>
    have hgrows : 0 ≤ (x + m) ^ (n + 1) - x ^ (n + 1) :=
      sub_nonneg.2 (pow_le_pow_left₀ hx (by omega) _)
    calc ((n + 1 + 1 : Nat) : Int) * x ^ (n + 1) * m
        = x * (((n + 1 : Nat) : Int) * x ^ n * m) + m * x ^ (n + 1) := by push_cast; ring
      _ ≤ x * ((x + m) ^ (n + 1) - x ^ (n + 1)) + m * x ^ (n + 1) :=
          Int.add_le_add_right (Int.mul_le_mul_of_nonneg_left ih hx) _
      _ ≤ (x + m) * ((x + m) ^ (n + 1) - x ^ (n + 1)) + m * x ^ (n + 1) :=
          Int.add_le_add_right (Int.mul_le_mul_of_nonneg_right (by omega) hgrows) _
      _ = (x + m) ^ (n + 1 + 1) - x ^ (n + 1 + 1) := by ring

/-- A power grows over a step by no more than with its slope behind the step. -/
theorem pow_sub_le_mul_pow (hx : 0 ≤ x) (hm : 0 ≤ m) (n : Nat) :
    (x + m) ^ (n + 1) - x ^ (n + 1) ≤ ((n + 1 : Nat) : Int) * (x + m) ^ n * m := by
  induction n with
  | zero => simp
  | succ n ih =>
    have hpow : x ^ (n + 1) ≤ (x + m) ^ (n + 1) := pow_le_pow_left₀ hx (by omega) _
    calc (x + m) ^ (n + 1 + 1) - x ^ (n + 1 + 1)
        = (x + m) * ((x + m) ^ (n + 1) - x ^ (n + 1)) + m * x ^ (n + 1) := by ring
      _ ≤ (x + m) * (((n + 1 : Nat) : Int) * (x + m) ^ n * m) + m * (x + m) ^ (n + 1) :=
          Int.add_le_add (Int.mul_le_mul_of_nonneg_left ih (by omega))
            (Int.mul_le_mul_of_nonneg_left hpow hm)
      _ = ((n + 1 + 1 : Nat) : Int) * (x + m) ^ (n + 1) * m := by push_cast; ring

/-- The price at a position, before it is divided. -/
def rate (c : Density) (x : Int) : Int :=
  c.basePrice * (one * c.unit +
    c.strength * (((c.shape.degree + 1 : Nat) : Int) * Int.pow x c.shape.degree))

theorem rate_mul (c : Density) (x m : Int) : c.rate x * m = c.basePrice * (one * c.unit * m +
    c.strength * (((c.shape.degree + 1 : Nat) : Int) * Int.pow x c.shape.degree * m)) := by
  unfold rate
  ring

/-- A stretch is worth no less than at the price that it begins with. -/
theorem rate_mul_le_integral (hx : 0 ≤ x) (hm : 0 ≤ m) : c.rate x * m ≤ c.integral x m := by
  have hslope := mul_pow_le_pow_sub hx hm c.shape.degree
  rw [rate_mul, integral]
  refine Int.mul_le_mul_of_nonneg_left ?_ (Int.le_of_lt c.basePrice_pos)
  exact Int.add_le_add_left (Int.mul_le_mul_of_nonneg_left hslope c.strength_nonneg) _

/-- A stretch is worth no more than at the price that it ends with. -/
theorem integral_le_rate_mul (hx : 0 ≤ x) (hm : 0 ≤ m) :
    c.integral x m ≤ c.rate (x + m) * m := by
  have hslope := pow_sub_le_mul_pow hx hm c.shape.degree
  rw [rate_mul, integral]
  refine Int.mul_le_mul_of_nonneg_left ?_ (Int.le_of_lt c.basePrice_pos)
  exact Int.add_le_add_left (Int.mul_le_mul_of_nonneg_left hslope c.strength_nonneg) _

/-! ### Prices by position -/

theorem whole_pos : 0 < one := by decide

/-- The curve counted in positions: its capacity is the whole. -/
def byPosition (c : Density) : Density := { c with capacity := one, capacity_pos := whole_pos }

/-- What an integral over positions is divided by for each position. -/
def positionUnit (c : Density) : Int := one * c.byPosition.unit

theorem positionUnit_pos (c : Density) : 0 < c.positionUnit :=
  Int.mul_pos whole_pos c.byPosition.unit_pos

theorem requirePosition_eq_ok_iff : requirePosition x = .ok () ↔ 0 ≤ x ∧ x ≤ one := by
  unfold requirePosition
  split
  · exact iff_of_true rfl ‹_›
  · exact iff_of_false (fun h => nomatch h) ‹_›

/-- The price at a position is the rate there, rounded down. -/
theorem priceAt_eq (h0 : 0 ≤ x) (h1 : x ≤ one) :
    c.priceAt x = .ok (floorDiv (c.byPosition.rate x) c.positionUnit) := by
  have hfactor : (0 : Int) < ((c.shape.degree + 1 : Nat) : Int) :=
    Int.natCast_pos.2 (Nat.succ_pos _)
  -- the price at a point is written without the factor that comes with the integral
  have hrate : c.byPosition.rate x = ((c.shape.degree + 1 : Nat) : Int) *
      (c.basePrice * (one ^ (c.shape.degree + 1) + c.strength * x ^ c.shape.degree)) := by
    show c.basePrice * (one * (((c.shape.degree + 1 : Nat) : Int) * one ^ c.shape.degree) +
      c.strength * (((c.shape.degree + 1 : Nat) : Int) * x ^ c.shape.degree)) = _
    ring
  have hunit : c.positionUnit =
      ((c.shape.degree + 1 : Nat) : Int) * one ^ (c.shape.degree + 1) := by
    show one * (((c.shape.degree + 1 : Nat) : Int) * one ^ c.shape.degree) = _
    ring
  have hpoint : floorDiv (c.byPosition.rate x) c.positionUnit = c.pointPrice x := by
    rw [hrate, hunit]
    exact Int.mul_fdiv_mul_of_pos _ _ hfactor
  rw [hpoint, priceAt, requirePosition_eq_ok_iff.2 ⟨h0, h1⟩]
  rfl

theorem averagePrice_self (h0 : 0 ≤ x) (h1 : x ≤ one) :
    c.averagePrice x x = .ok (c.pointPrice x) := by
  rw [averagePrice, requirePosition_eq_ok_iff.2 ⟨h0, h1⟩]
  show (if x < x then _ else if x = x then _ else _) = _
  rw [if_neg (lt_irrefl x), if_pos rfl]
  rfl

/-- The average price over a stretch is its integral by its length, rounded down. -/
theorem averagePrice_eq (h0 : 0 ≤ x) (hlt : x < y) (h1 : y ≤ one) :
    c.averagePrice x y = .ok (floorDiv (c.byPosition.integral x (y - x))
      (c.positionUnit * (y - x))) := by
  have hnum : c.byPosition.integral x (y - x) =
      c.basePrice * (one * (c.byPosition.unit * (y - x)) +
        c.strength * (Int.pow y (c.shape.degree + 1) - Int.pow x (c.shape.degree + 1))) := by
    have hend : x + (y - x) = y := by omega
    rw [integral, hend, Int.mul_assoc]
    rfl
  rw [averagePrice, requirePosition_eq_ok_iff.2 ⟨h0, by omega⟩,
    requirePosition_eq_ok_iff.2 ⟨by omega, h1⟩, hnum, positionUnit, Int.mul_assoc]
  show (if y < x then _ else if x = y then _ else _) = _
  rw [if_neg (by omega), if_neg (by omega)]
  rfl

/-! ### Averages, rounded down -/

/-- The price is the average over the stretch, rounded down: the stretch is worth no less than at the
price, and less than at the next one unless it is empty. -/
structure IsAverage (c : Density) (x y price : Int) : Prop where
  le_integral : (y - x) * price * c.positionUnit ≤ c.byPosition.integral x (y - x)
  integral_lt : x < y →
    c.byPosition.integral x (y - x) < (y - x) * (price + 1) * c.positionUnit

/-- An empty stretch is worth nothing at any price. -/
theorem isAverage_self (c : Density) (x price : Int) : c.IsAverage x x price := by
  refine ⟨?_, fun h => absurd h (lt_irrefl x)⟩
  rw [Int.sub_self, integral_zero, Int.zero_mul, Int.zero_mul]

theorem exists_averagePrice (c : Density) (h0 : 0 ≤ x) (hle : x ≤ y) (h1 : y ≤ one) :
    ∃ price, c.averagePrice x y = .ok price ∧ c.IsAverage x y price := by
  rcases eq_or_lt_of_le hle with rfl | hlt
  · exact ⟨_, averagePrice_self h0 h1, c.isAverage_self x _⟩
  · have hunit : 0 < c.positionUnit * (y - x) := Int.mul_pos c.positionUnit_pos (by omega)
    have hworth (p : Int) : (y - x) * p * c.positionUnit = p * (c.positionUnit * (y - x)) := by
      ring
    refine ⟨_, averagePrice_eq h0 hlt h1, ⟨?_, fun _ => ?_⟩⟩
    · rw [hworth]
      exact floorDiv_mul_le _ hunit
    · rw [hworth]
      exact (floorDiv_lt_iff hunit).1 (by omega)

namespace IsAverage

theorem integral_le (h : c.IsAverage x y price) (hle : x ≤ y) :
    c.byPosition.integral x (y - x) ≤ (y - x) * (price + 1) * c.positionUnit := by
  rcases eq_or_lt_of_le hle with rfl | hlt
  · rw [Int.sub_self, integral_zero, Int.zero_mul, Int.zero_mul]
  · exact Int.le_of_lt (h.integral_lt hlt)

/-- An average is no less than the price that the stretch begins with. -/
theorem floor_rate_le (h : c.IsAverage x y price) (h0 : 0 ≤ x) (hlt : x < y) :
    floorDiv (c.byPosition.rate x) c.positionUnit ≤ price := by
  have hlength : 0 ≤ y - x := by omega
  rw [← Int.lt_add_one_iff, floorDiv_lt_iff c.positionUnit_pos]
  refine Int.lt_of_mul_lt_mul_right ?_ hlength
  calc c.byPosition.rate x * (y - x)
      ≤ c.byPosition.integral x (y - x) := rate_mul_le_integral h0 hlength
    _ < (y - x) * (price + 1) * c.positionUnit := h.integral_lt hlt
    _ = (price + 1) * c.positionUnit * (y - x) := by ring

/-- An average is no more than the price that the stretch ends with. -/
theorem le_floor_rate (h : c.IsAverage x y price) (h0 : 0 ≤ x) (hlt : x < y) :
    price ≤ floorDiv (c.byPosition.rate y) c.positionUnit := by
  have hlength : 0 < y - x := by omega
  have hend : x + (y - x) = y := by omega
  rw [le_floorDiv_iff c.positionUnit_pos]
  refine Int.le_of_mul_le_mul_right ?_ hlength
  calc price * c.positionUnit * (y - x)
      = (y - x) * price * c.positionUnit := by ring
    _ ≤ c.byPosition.integral x (y - x) := h.le_integral
    _ ≤ c.byPosition.rate (x + (y - x)) * (y - x) :=
        integral_le_rate_mul h0 (Int.le_of_lt hlength)
    _ = c.byPosition.rate y * (y - x) := by rw [hend]

end IsAverage

theorem byPosition_integral_add (c : Density) (x y z : Int) :
    c.byPosition.integral x (z - x) =
      c.byPosition.integral x (y - x) + c.byPosition.integral y (z - y) := by
  have hsum : z - x = (y - x) + (z - y) := by omega
  have hend : x + (y - x) = y := by omega
  rw [hsum, integral_add, hend]

/-- The averages over two stretches in a row, each counted by its length, are off from the average
over both by less than its length. -/
theorem abs_parts_sub_lt (hfirst : c.IsAverage x y first) (hrest : c.IsAverage y z rest)
    (hwhole : c.IsAverage x z whole) (h : x ≤ y) (h' : y ≤ z) (hlt : x < z) :
    |(y - x) * first + (z - y) * rest - (z - x) * whole| < z - x := by
  have hunit := Int.le_of_lt c.positionUnit_pos
  have hadd := c.byPosition_integral_add x y z
  have hparts : (y - x) * first + (z - y) * rest < (z - x) * (whole + 1) := by
    refine Int.lt_of_mul_lt_mul_right ?_ hunit
    have hbelow := Int.add_le_add hfirst.le_integral hrest.le_integral
    rw [Int.add_mul]
    exact Int.lt_of_le_of_lt hbelow (hadd ▸ hwhole.integral_lt hlt)
  have hall : (z - x) * whole < (y - x) * (first + 1) + (z - y) * (rest + 1) := by
    refine Int.lt_of_mul_lt_mul_right ?_ hunit
    rw [Int.add_mul]
    refine Int.lt_of_le_of_lt (hadd ▸ hwhole.le_integral) ?_
    -- at most one of the two stretches is empty
    rcases eq_or_lt_of_le h with rfl | hpart
    · exact Int.add_lt_add_of_le_of_lt (hfirst.integral_le h) (hrest.integral_lt hlt)
    · exact Int.add_lt_add_of_lt_of_le (hfirst.integral_lt hpart) (hrest.integral_le h')
  rw [Int.mul_add, Int.mul_one] at hparts
  rw [Int.mul_add, Int.mul_add, Int.mul_one, Int.mul_one] at hall
  rw [abs_lt]
  omega

/-- **Average prices**: the averages over two stretches in a row, each counted by its length, are the
average over both up to less than one unit for each position; and an average is between the prices
at the ends of its stretch. -/
theorem average_of_parts (c : Density) (h0 : 0 ≤ x) (h : x ≤ y) (h' : y ≤ z) (h1 : z ≤ one)
    (hlt : x < z) :
    ∃ first rest whole low high, c.averagePrice x y = .ok first ∧
      c.averagePrice y z = .ok rest ∧ c.averagePrice x z = .ok whole ∧
      c.priceAt x = .ok low ∧ c.priceAt z = .ok high ∧
      |(y - x) * first + (z - y) * rest - (z - x) * whole| < z - x ∧
      low ≤ whole ∧ whole ≤ high := by
  obtain ⟨first, hfirst, hfirst'⟩ := c.exists_averagePrice h0 h (by omega)
  obtain ⟨rest, hrest, hrest'⟩ := c.exists_averagePrice (by omega) h' h1
  obtain ⟨whole, hwhole, hwhole'⟩ := c.exists_averagePrice h0 (by omega) h1
  exact ⟨first, rest, whole, _, _, hfirst, hrest, hwhole, priceAt_eq h0 (by omega),
    priceAt_eq (by omega) h1, abs_parts_sub_lt hfirst' hrest' hwhole' h h' hlt,
    hwhole'.floor_rate_le h0 hlt, hwhole'.le_floor_rate h0 hlt⟩

/-- At the first positions of the curve the parts make up one unit more than the whole. -/
theorem average_of_parts_rising :
    rising.averagePrice 0 1 = .ok one ∧ rising.averagePrice 1 3 = .ok (one + 2) ∧
      rising.averagePrice 0 3 = .ok (one + 1) ∧ rising.priceAt 0 = .ok one ∧
      rising.priceAt 3 = .ok (one + 3) ∧
      |((1 : Int) - 0) * one + (3 - 1) * (one + 2) - (3 - 0) * (one + 1)| < 3 - 0 ∧
      one ≤ one + 1 ∧ one + 1 ≤ one + 3 := by
  have hfirst : rising.averagePrice 0 1 = .ok one := by rfl
  have hrest : rising.averagePrice 1 3 = .ok (one + 2) := by rfl
  have hwhole : rising.averagePrice 0 3 = .ok (one + 1) := by rfl
  have hlow : rising.priceAt 0 = .ok one := by rfl
  have hhigh : rising.priceAt 3 = .ok (one + 3) := by rfl
  obtain ⟨first, rest, whole, low, high, h1, h2, h3, h4, h5, hparts, hbegin, hend⟩ :=
    average_of_parts rising (x := 0) (y := 1) (z := 3) (by decide) (by decide) (by decide)
      (by decide) (by decide)
  cases hfirst.symm.trans h1
  cases hrest.symm.trans h2
  cases hwhole.symm.trans h3
  cases hlow.symm.trans h4
  cases hhigh.symm.trans h5
  exact ⟨hfirst, hrest, hwhole, hlow, hhigh, hparts, hbegin, hend⟩

end SwapMachine.Curve.Density
