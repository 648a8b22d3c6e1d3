import Mathlib.Data.Real.Basic
import Mathlib.Tactic.FieldSimp
import Mathlib.Tactic.GCongr
import Mathlib.Tactic.Linarith
import Mathlib.Tactic.NormNum
import Mathlib.Tactic.Ring
import SwapMachine.Proofs.Quotient

/-!
# SwapMachine.Proofs.Grid — fixed-point numbers as reals

* `ofFine n`: the real number that `n` stands for at 36 places; `ulp` is the distance of two
  neighbours. `ofUnit n` is the one at 18 places.
* A quotient of whole numbers, whichever way it is rounded, is off by less than one; so a product or
  a quotient at 36 places is off by less than an `ulp` (`abs_ofFine_mul`, `abs_ofFine_div`).
-/

namespace SwapMachine

namespace Number

theorem abs_truncDiv_sub_le (a : Int) {b : Int} (hb : 0 < b) :
    |(truncDiv a b : ℝ) - a / b| ≤ 1 := by
  have hb' : (0 : ℝ) < b := by exact_mod_cast hb
  have hmod : truncDiv a b * b + a.tmod b = a := Int.tdiv_mul_add_tmod a b
  have hlt : |a.tmod b| < b := by
    have h := Int.tmod_lt_of_pos a hb
    have h' := Int.lt_tmod_of_pos a hb
    exact abs_lt.2 ⟨h', h⟩
  have hreal : (truncDiv a b : ℝ) - a / b = -((a.tmod b : ℤ) : ℝ) / b := by
    have : (a : ℝ) = truncDiv a b * b + ((a.tmod b : ℤ) : ℝ) := by exact_mod_cast hmod.symm
    rw [this]
    field_simp
    ring
  rw [hreal, abs_div, abs_neg, abs_of_pos hb', div_le_one hb']
  exact_mod_cast hlt.le

theorem floorDiv_le_div (a : Int) {b : Int} (hb : 0 < b) : (floorDiv a b : ℝ) ≤ a / b := by
  have hb' : (0 : ℝ) < b := by exact_mod_cast hb
  rw [le_div_iff₀ hb']
  exact_mod_cast floorDiv_mul_le a hb

theorem div_lt_floorDiv_add_one (a : Int) {b : Int} (hb : 0 < b) :
    (a / b : ℝ) < floorDiv a b + 1 := by
  have hb' : (0 : ℝ) < b := by exact_mod_cast hb
  rw [div_lt_iff₀ hb']
  have h : floorDiv a b < floorDiv a b + 1 := by omega
  rw [floorDiv_lt_iff hb] at h
  exact_mod_cast h

theorem div_le_ceilDiv (a : Int) {b : Int} (hb : 0 < b) : (a / b : ℝ) ≤ ceilDiv a b := by
  have hb' : (0 : ℝ) < b := by exact_mod_cast hb
  rw [div_le_iff₀ hb']
  exact_mod_cast le_ceilDiv_mul a hb

end Number

namespace FixedPoint

open Number

/-- The distance of two neighbours at 36 places. -/
noncomputable def ulp : ℝ := 1 / 10 ^ 36

/-- The real number that a whole number stands for at 36 places. -/
noncomputable def ofFine (n : Int) : ℝ := n * ulp

/-- The real number that a whole number stands for at 18 places. -/
noncomputable def ofUnit (n : Int) : ℝ := n / 10 ^ 18

theorem ulp_pos : 0 < ulp := by
  unfold ulp
  positivity

theorem ulp_le : ulp ≤ 1e-36 := by
  norm_num [ulp]

theorem fine_eq : (fine : ℝ) = 10 ^ 36 := by
  norm_num [fine]

theorem fine_mul_ulp : (fine : ℝ) * ulp = 1 := by
  rw [fine_eq, ulp]
  norm_num

theorem ofFine_fine : ofFine fine = 1 := fine_mul_ulp

theorem ofFine_add (a b : Int) : ofFine (a + b) = ofFine a + ofFine b := by
  simp only [ofFine, Int.cast_add, add_mul]

theorem ofFine_sub (a b : Int) : ofFine (a - b) = ofFine a - ofFine b := by
  simp only [ofFine, Int.cast_sub, sub_mul]

theorem ofFine_mul (a b : Int) : ofFine (a * b) = a * ofFine b := by
  simp only [ofFine, Int.cast_mul, mul_assoc]

theorem ofFine_le_ofFine {a b : Int} : ofFine a ≤ ofFine b ↔ a ≤ b := by
  rw [ofFine, ofFine, mul_le_mul_iff_left₀ ulp_pos, Int.cast_le]

theorem ofUnit_one : ofUnit one = 1 := by
  norm_num [ofUnit, one]

theorem ofUnit_le_ofUnit {a b : Int} : ofUnit a ≤ ofUnit b ↔ a ≤ b := by
  rw [ofUnit, ofUnit, div_le_div_iff_of_pos_right (by norm_num), Int.cast_le]

theorem ofUnit_nonneg {n : Int} (h : 0 ≤ n) : 0 ≤ ofUnit n := by
  have : (0 : ℝ) ≤ n := by exact_mod_cast h
  unfold ofUnit
  positivity

theorem ofUnit_pos {n : Int} (h : 0 < n) : 0 < ofUnit n := by
  have : (0 : ℝ) < n := by exact_mod_cast h
  unfold ofUnit
  positivity

theorem ofUnit_sub_one (n : Int) : ofUnit (n - one) = ofUnit n - 1 := by
  rw [← ofUnit_one, ofUnit, ofUnit, ofUnit, Int.cast_sub, sub_div]

/-- Different numbers are a unit or more apart. -/
theorem unit_le_abs_sub_one {n : Int} (h : n ≠ one) : 1e-18 ≤ |ofUnit n - 1| := by
  have hint : 1 ≤ |n - one| := Int.one_le_abs (sub_ne_zero.2 h)
  have hreal : (1 : ℝ) ≤ |((n - one : ℤ) : ℝ)| := by exact_mod_cast hint
  rw [← ofUnit_sub_one, ofUnit, abs_div, abs_of_pos (by norm_num : (0 : ℝ) < 10 ^ 18),
    le_div_iff₀ (by norm_num)]
  refine le_trans (le_of_eq ?_) hreal
  norm_num

theorem ofFine_mul_finePerUnit (n : Int) : ofFine (n * finePerUnit) = ofUnit n := by
  rw [ofFine, ofUnit, ulp, Int.cast_mul]
  norm_num [finePerUnit]
  ring

/-- What is left when the places behind the 18th are cut off. -/
theorem ofUnit_floorDiv_le (p : Int) : ofUnit (floorDiv p finePerUnit) ≤ ofFine p := by
  rw [← ofFine_mul_finePerUnit, ofFine_le_ofFine]
  exact floorDiv_mul_le p (by decide)

theorem lt_ofUnit_floorDiv_add (p : Int) :
    ofFine p < ofUnit (floorDiv p finePerUnit) + 1e-18 := by
  have h := div_lt_floorDiv_add_one p (b := finePerUnit) (by decide)
  have hunits : (finePerUnit : ℝ) = 10 ^ 18 := by norm_num [finePerUnit]
  rw [hunits] at h
  rw [ofFine, ofUnit, ulp]
  linarith

/-- Numbers that are no more than a unit apart are no more than a unit apart after the rest is cut
off. -/
theorem abs_floorDiv_sub_le_one {p q : Int} (h : |ofFine p - ofFine q| ≤ 1e-18) :
    |floorDiv p finePerUnit - floorDiv q finePerUnit| ≤ 1 := by
  have hp := ofUnit_floorDiv_le p
  have hp' := lt_ofUnit_floorDiv_add p
  have hq := ofUnit_floorDiv_le q
  have hq' := lt_ofUnit_floorDiv_add q
  rw [ofUnit] at hp hp' hq hq'
  rw [abs_le] at h
  have hreal : |(floorDiv p finePerUnit : ℝ) - floorDiv q finePerUnit| < 2 := by
    rw [abs_lt]
    constructor <;> linarith
  have hint : |floorDiv p finePerUnit - floorDiv q finePerUnit| < 2 := by exact_mod_cast hreal
  omega

/-- What is at least one unit of 18 places has at least one after the rest is cut off. -/
theorem one_le_floorDiv_finePerUnit {p : Int} (h : 1e-18 ≤ ofFine p) :
    1 ≤ floorDiv p finePerUnit := by
  rw [le_floorDiv_iff (by decide), ← ofFine_le_ofFine, ofFine_mul_finePerUnit]
  refine le_trans ?_ h
  norm_num [ofUnit]

/-- A quotient of whole numbers that is off by at most one is off by at most an `ulp` as a number of
36 places. -/
theorem abs_ofFine_sub_le {q : Int} {x : ℝ} (h : |(q : ℝ) - x| ≤ 1) :
    |ofFine q - x * ulp| ≤ ulp := by
  have hulp := ulp_pos
  rw [ofFine, ← sub_mul, abs_mul, abs_of_pos hulp]
  nlinarith

/-- A product, cut off. -/
theorem abs_ofFine_mul (a b : Int) :
    |ofFine (truncDiv (a * b) fine) - ofFine a * ofFine b| ≤ ulp := by
  have h := abs_ofFine_sub_le (abs_truncDiv_sub_le (a * b) (b := fine) (by decide))
  have heq : ((a * b : ℤ) : ℝ) / fine * ulp = ofFine a * ofFine b := by
    rw [fine_eq, ofFine, ofFine, ulp]
    push_cast
    field_simp
  rwa [heq] at h

/-- A quotient by a number, cut off. -/
theorem abs_ofFine_div (a : Int) {n : Nat} (hn : 0 < n) :
    |ofFine (truncDiv a n) - ofFine a / n| ≤ ulp := by
  have h := abs_ofFine_sub_le (abs_truncDiv_sub_le a (b := n) (by exact_mod_cast hn))
  have heq : (a : ℝ) / ((n : ℤ) : ℝ) * ulp = ofFine a / n := by
    rw [ofFine]
    push_cast
    ring
  rwa [heq] at h

/-- A product divided by a number, cut off. -/
theorem abs_ofFine_mul_div (a b : Int) {n : Nat} (hn : 0 < n) :
    |ofFine (truncDiv (a * b) (fine * n)) - ofFine a * ofFine b / n| ≤ ulp := by
  have hpos : 0 < fine * (n : ℤ) := Int.mul_pos (by decide) (by exact_mod_cast hn)
  have h := abs_ofFine_sub_le (abs_truncDiv_sub_le (a * b) hpos)
  have heq : ((a * b : ℤ) : ℝ) / ((fine * n : ℤ) : ℝ) * ulp = ofFine a * ofFine b / n := by
    push_cast
    rw [fine_eq, ofFine, ofFine, ulp]
    field_simp
  rwa [heq] at h

/-- A square, rounded down. -/
theorem abs_ofFine_floorDiv_mul (a b : Int) :
    |ofFine (floorDiv (a * b) fine) - ofFine a * ofFine b| ≤ ulp := by
  have hle := floorDiv_le_div (a * b) (b := fine) (by decide)
  have hlt := div_lt_floorDiv_add_one (a * b) (b := fine) (by decide)
  have h := abs_ofFine_sub_le (q := floorDiv (a * b) fine) (x := (a * b : ℤ) / fine)
    (abs_le.2 ⟨by linarith, by linarith⟩)
  have heq : ((a * b : ℤ) : ℝ) / fine * ulp = ofFine a * ofFine b := by
    rw [fine_eq, ofFine, ofFine, ulp]
    push_cast
    field_simp
  rwa [heq] at h

/-- What is close to a number is close to what that is close to. -/
theorem abs_sub_le_add {x y z p q : ℝ} (hxy : |x - y| ≤ p) (hyz : |y - z| ≤ q) :
    |x - z| ≤ p + q :=
  (abs_sub_le x y z).trans (add_le_add hxy hyz)

/-- The sum of two numbers that are each close to another one. -/
theorem abs_ofFine_add_sub_le {a b : Int} {x y p q : ℝ} (ha : |ofFine a - x| ≤ p)
    (hb : |ofFine b - y| ≤ q) : |ofFine (a + b) - (x + y)| ≤ p + q := by
  rw [ofFine_add, add_sub_add_comm]
  exact (abs_add_le _ _).trans (add_le_add ha hb)

/-- The product of two numbers that are each close to another one. -/
theorem abs_mul_sub_mul_le {x x' y y' p q : ℝ} (hx : |x - x'| ≤ p) (hy : |y - y'| ≤ q) :
    |x * y - x' * y'| ≤ p * |y| + |x'| * q := by
  have heq : x * y - x' * y' = (x - x') * y + x' * (y - y') := by ring
  calc |x * y - x' * y'| = |(x - x') * y + x' * (y - y')| := by rw [heq]
    _ ≤ |(x - x') * y| + |x' * (y - y')| := abs_add_le _ _
    _ = |x - x'| * |y| + |x'| * |y - y'| := by rw [abs_mul, abs_mul]
    _ ≤ p * |y| + |x'| * q := by gcongr

end FixedPoint

end SwapMachine
