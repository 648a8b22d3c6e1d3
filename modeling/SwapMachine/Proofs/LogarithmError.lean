import Mathlib.Analysis.SpecialFunctions.Log.Deriv
import SwapMachine.Proofs.Grid
import SwapMachine.Proofs.Reduction

/-!
# SwapMachine.Proofs.LogarithmError — how far the logarithm may be off

* `abs_oddPowers_sub_le`: every term of the series is off by two `ulp`s at most, so that the sum is
  off by that for each of its terms.
* `abs_artanh_sub_le`: with what the series leaves out.
* `abs_lnFine_sub_le`: with the cut argument, the halvings and the constant `ln 2`.
-/

namespace SwapMachine.FixedPoint

open Finset Number

/-- The odd powers from one on, each divided by its degree, as far as they are summed. -/
noncomputable def oddPowerSum (ζ : ℝ) (power : Nat) : ℝ :=
  ∑ i ∈ range ((lnLastPower + 2 - power) / 2), ζ ^ (power + 2 * i) / ((power + 2 * i : ℕ) : ℝ)

theorem oddPowerSum_of_lt (ζ : ℝ) {power : Nat} (h : lnLastPower < power) :
    oddPowerSum ζ power = 0 := by
  have hnone : (lnLastPower + 2 - power) / 2 = 0 := by omega
  rw [oddPowerSum, hnone, sum_range_zero]

theorem oddPowerSum_of_le (ζ : ℝ) {power : Nat} (h : power ≤ lnLastPower) :
    oddPowerSum ζ power = ζ ^ power / power + oddPowerSum ζ (power + 2) := by
  have hone : (lnLastPower + 2 - power) / 2 = (lnLastPower + 2 - (power + 2)) / 2 + 1 := by omega
  rw [oddPowerSum, hone, sum_range_succ', add_comm]
  congr 1
  refine sum_congr rfl fun i _ => ?_
  have hi : power + 2 * (i + 1) = power + 2 + 2 * i := by ring
  rw [hi]

/-- One more odd power: the term before it may be off by two `ulp`s, and so may it. -/
theorem abs_oddPower_sub_le {ζ : ℝ} {square term : Int} {m : Nat} (hζ : |ζ| ≤ 0.1716)
    (hsquare : |ofFine square - ζ ^ 2| ≤ ulp) (hm : 0 < m)
    (hterm : |ofFine term - ζ ^ m| ≤ 2 * ulp) :
    |ofFine (truncDiv (term * square) fine) - ζ ^ (m + 2)| ≤ 2 * ulp := by
  have hulp := ulp_pos
  have hcut := abs_ofFine_mul term square
  have hmul := abs_mul_sub_mul_le hterm hsquare
  have hpow : |ζ ^ m| ≤ 0.1716 := by
    rw [abs_pow]
    exact (pow_le_of_le_one (abs_nonneg ζ) (by linarith) (by omega)).trans hζ
  have hsq : |ofFine square| ≤ 0.1 := by
    have hζ2 : ζ ^ 2 ≤ 0.1716 ^ 2 := by
      rw [← sq_abs]
      exact pow_le_pow_left₀ (abs_nonneg ζ) hζ 2
    have hle := ulp_le
    have h := abs_sub_le_iff.1 hsquare
    rw [abs_le]
    constructor <;> nlinarith [sq_nonneg ζ]
  calc |ofFine (truncDiv (term * square) fine) - ζ ^ (m + 2)|
      = |ofFine (truncDiv (term * square) fine) - ζ ^ m * ζ ^ 2| := by rw [pow_add]
    _ ≤ ulp + (2 * ulp * |ofFine square| + |ζ ^ m| * ulp) := abs_sub_le_add hcut hmul
    _ ≤ 2 * ulp := by nlinarith

theorem abs_oddPowers_sub_le {ζ : ℝ} {square : Int} (hζ : |ζ| ≤ 0.1716)
    (hsquare : |ofFine square - ζ ^ 2| ≤ ulp) {power : Nat} {term : Int} (hpower : 3 ≤ power)
    (hterm : |ofFine term - ζ ^ (power - 2)| ≤ 2 * ulp) :
    |ofFine (oddPowers square power term) - oddPowerSum ζ power| ≤
      ((lnLastPower + 2 - power) / 2 : ℕ) * (2 * ulp) := by
  fun_induction oddPowers square power term with
  | case1 power term h =>
    rw [oddPowerSum_of_lt ζ h, sub_zero, ofFine, Int.cast_zero, zero_mul, abs_zero]
    have := ulp_pos
    positivity
  | case2 power term h next ih =>
    have hulp := ulp_pos
    have hnext : |ofFine next - ζ ^ power| ≤ 2 * ulp := by
      have h2 : power - 2 + 2 = power := by omega
      have := abs_oddPower_sub_le hζ hsquare (by omega) hterm
      rwa [h2] at this
    have hrest := ih (by omega) hnext
    have hpos : (3 : ℝ) ≤ power := by exact_mod_cast hpower
    have hdiv : |ofFine next / power - ζ ^ power / power| ≤ ulp := by
      rw [← sub_div, abs_div, Nat.abs_cast, div_le_iff₀ (by linarith)]
      nlinarith
    have hfirst : |ofFine (truncDiv next power) - ζ ^ power / power| ≤ ulp + ulp :=
      abs_sub_le_add (abs_ofFine_div next (by omega)) hdiv
    have hcount : (lnLastPower + 2 - power) / 2 = (lnLastPower + 2 - (power + 2)) / 2 + 1 := by
      omega
    rw [oddPowerSum_of_le ζ (by omega), hcount, Nat.cast_succ]
    refine (abs_ofFine_add_sub_le hfirst hrest).trans ?_
    linarith

/-- **The series**: the sum and what it leaves out. -/
theorem abs_artanh_sub_le {z : Int} (hz : |ofFine z| ≤ 0.1716) :
    |ofFine (2 * artanh z) - Real.log ((1 + ofFine z) / (1 - ofFine z))| ≤
      44 * ulp + 2 * (|ofFine z| ^ 25 / (1 - ofFine z ^ 2)) := by
  set ζ := ofFine z
  have hulp := ulp_pos
  have hsquare : |ofFine (truncDiv (z * z) fine) - ζ ^ 2| ≤ ulp := by
    rw [sq]
    exact abs_ofFine_mul z z
  have hterm : |ofFine z - ζ ^ (3 - 2)| ≤ 2 * ulp := by
    have hone : ζ ^ (3 - 2) = ofFine z := pow_one ζ
    rw [hone, sub_self, abs_zero]
    positivity
  have hsum : |ofFine (artanh z) - oddPowerSum ζ 1| ≤ 22 * ulp := by
    have h := abs_oddPowers_sub_le hz hsquare (le_refl 3) hterm
    have hone : oddPowerSum ζ 1 = ζ + oddPowerSum ζ 3 := by
      rw [oddPowerSum_of_le ζ (by decide), pow_one, Nat.cast_one, div_one]
    have hcount : (lnLastPower + 2 - 3) / 2 = 11 := by decide
    rw [hcount] at h
    rw [artanh, ofFine_add, hone, add_sub_add_left_eq_sub]
    push_cast at h
    linarith
  have htail := Real.sum_range_sub_log_div_le (x := ζ) (by linarith) 12
  have heq : oddPowerSum ζ 1 = ∑ i ∈ range 12, ζ ^ (2 * i + 1) / (2 * (i : ℝ) + 1) := by
    refine sum_congr (by decide) fun i _ => ?_
    rw [add_comm 1 (2 * i)]
    push_cast
    rfl
  rw [← heq] at htail
  have htwo : ofFine (2 * artanh z) = 2 * ofFine (artanh z) := by
    rw [ofFine_mul]
    norm_num
  rw [abs_le] at hsum htail ⊢
  rw [htwo]
  constructor <;> linarith

theorem mul_log_sub_log_le {x y c : ℝ} (hc : 0 < c) (hx : c ≤ x) (hy : c ≤ y) :
    c * (Real.log x - Real.log y) ≤ |x - y| := by
  have hx' : 0 < x := hc.trans_le hx
  have hy' : 0 < y := hc.trans_le hy
  have hlog : Real.log x - Real.log y ≤ |x - y| / y := by
    calc Real.log x - Real.log y = Real.log (x / y) := (Real.log_div hx'.ne' hy'.ne').symm
      _ ≤ x / y - 1 := Real.log_le_sub_one_of_pos (by positivity)
      _ = (x - y) / y := by field_simp
      _ ≤ |x - y| / y := by gcongr; exact le_abs_self _
  calc c * (Real.log x - Real.log y) ≤ c * (|x - y| / y) := by gcongr
    _ ≤ y * (|x - y| / y) := by gcongr
    _ = |x - y| := by field_simp

/-- Away from zero the logarithm does not move faster than its argument, up to a factor. -/
theorem mul_abs_log_sub_log_le {x y c : ℝ} (hc : 0 < c) (hx : c ≤ x) (hy : c ≤ y) :
    c * |Real.log x - Real.log y| ≤ |x - y| := by
  rcases abs_cases (Real.log x - Real.log y) with ⟨h, -⟩ | ⟨h, -⟩
  · rw [h]
    exact mul_log_sub_log_le hc hx hy
  · rw [h, neg_sub, abs_sub_comm]
    exact mul_log_sub_log_le hc hy hx

/-- A small move of the argument of the series. -/
theorem abs_log_ratio_sub_le {ζ ξ : ℝ} (hζ : |ζ| ≤ 0.18) (hξ : |ξ| ≤ 0.18) :
    |Real.log ((1 + ζ) / (1 - ζ)) - Real.log ((1 + ξ) / (1 - ξ))| ≤ 3 * |ζ - ξ| := by
  rw [abs_le] at hζ hξ
  have hplus := mul_abs_log_sub_log_le (x := 1 + ζ) (y := 1 + ξ) (c := 0.8) (by norm_num)
    (by linarith) (by linarith)
  have hminus := mul_abs_log_sub_log_le (x := 1 - ξ) (y := 1 - ζ) (c := 0.8) (by norm_num)
    (by linarith) (by linarith)
  rw [add_sub_add_left_eq_sub] at hplus
  rw [sub_sub_sub_cancel_left] at hminus
  have hpos := abs_nonneg (ζ - ξ)
  have heq : Real.log ((1 + ζ) / (1 - ζ)) - Real.log ((1 + ξ) / (1 - ξ)) =
      (Real.log (1 + ζ) - Real.log (1 + ξ)) + (Real.log (1 - ξ) - Real.log (1 - ζ)) := by
    rw [Real.log_div (by linarith) (by linarith), Real.log_div (by linarith) (by linarith)]
    ring
  rw [heq]
  refine (abs_add_le _ _).trans ?_
  linarith

/-- A residue as a real number. -/
theorem ofFine_residue {m : Nat} (hge : invSqrtTwo ≤ m) (hle : m ≤ sqrtTwo) :
    0.7071 ≤ ofFine m ∧ ofFine m ≤ 1.41422 := by
  have hge' : (707106781186547524400844362104849039 : ℝ) ≤ m := by exact_mod_cast hge
  have hle' : (m : ℝ) ≤ 1414213562373095048801688724209698078 := by exact_mod_cast hle
  norm_num only [ofFine, ulp, Int.cast_natCast]
  constructor <;> linarith

/-- The argument of the series is cut off. -/
theorem abs_artanhArgument_sub_le {m : Nat} (hm : 0 < m) :
    |ofFine (artanhArgument m) - (ofFine m - 1) / (ofFine m + 1)| ≤ ulp := by
  have hfine : (0 : Int) < fine := by decide
  have h := abs_ofFine_sub_le
    (abs_truncDiv_sub_le (((m : Int) - fine) * fine) (b := (m : Int) + fine) (by omega))
  have hm' : (0 : ℝ) < m := by exact_mod_cast hm
  have heq : ((((m : Int) - fine) * fine : ℤ) : ℝ) / (((m : Int) + fine : ℤ) : ℝ) * ulp =
      (ofFine m - 1) / (ofFine m + 1) := by
    rw [ofFine, ulp]
    push_cast
    rw [fine_eq]
    field_simp
  rwa [heq] at h

theorem abs_artanhArgument_le {m : Nat} (hge : invSqrtTwo ≤ m) (hle : m ≤ sqrtTwo) :
    |ofFine (artanhArgument m)| ≤ 0.1716 := by
  have hwhole : |((artanhArgument m : Int) : ℝ)| * 10000 ≤ 1716 * fine := by
    exact_mod_cast abs_artanhArgument_mul_le hge hle
  have hulp := ulp_pos
  calc |ofFine (artanhArgument m)| = |((artanhArgument m : Int) : ℝ)| * ulp := by
        rw [ofFine, abs_mul, abs_of_pos hulp]
    _ ≤ 0.1716 * fine * ulp := by
        gcongr
        linarith
    _ = 0.1716 := by rw [mul_assoc, fine_mul_ulp, mul_one]

/-- The logarithm of a residue: the series and its cut argument. -/
theorem abs_two_artanh_sub_log_le {m : Nat} (hge : invSqrtTwo ≤ m) (hle : m ≤ sqrtTwo) :
    |ofFine (2 * artanh (artanhArgument m)) - Real.log (ofFine m)| ≤
      47 * ulp + 2 * (|ofFine (artanhArgument m)| ^ 25 / (1 - ofFine (artanhArgument m) ^ 2)) := by
  obtain ⟨hlow, hhigh⟩ := ofFine_residue hge hle
  have hm : 0 < m := lt_of_lt_of_le (by decide) hge
  have hz := abs_artanhArgument_le hge hle
  have hseries := abs_artanh_sub_le hz
  have hcut := abs_artanhArgument_sub_le hm
  set ζ := ofFine (artanhArgument m)
  set ξ := (ofFine m - 1) / (ofFine m + 1) with hξ
  have hulp := ulp_le
  have hξ' : |ξ| ≤ 0.18 := by
    rw [abs_le] at *
    constructor <;> linarith
  have hmove := abs_log_ratio_sub_le (hz.trans (by norm_num)) hξ'
  have hratio : (1 + ξ) / (1 - ξ) = ofFine m := by
    have : ofFine m + 1 ≠ 0 := by linarith
    rw [hξ]
    field_simp
    ring
  rw [hratio] at hmove
  refine (abs_sub_le_add hseries hmove).trans ?_
  linarith

/-- The constant `ln 2` is cut off after its last place. -/
theorem abs_lnTwo_sub_le : |ofFine lnTwo - Real.log 2| ≤ ulp := by
  have h := Real.sum_range_sub_log_div_le (x := 1 / 3) (by norm_num [abs_of_pos]) 40
  have htwo : ((1 + 1 / 3) / (1 - 1 / 3) : ℝ) = 2 := by norm_num
  rw [htwo, abs_of_pos (by norm_num : (0 : ℝ) < 1 / 3), abs_le] at h
  norm_num [sum_range_succ] at h
  norm_num [ofFine, lnTwo, ulp]
  rw [abs_le]
  constructor <;> linarith

/-- What halvings round away moves the logarithm little; doublings are exact. -/
theorem abs_log_residue_sub_le {a : Nat} (ha : 0 < a) :
    |Real.log (ofFine (reduce a).residue) + (reduce a).shift * Real.log 2 - Real.log (ofFine a)| ≤
      2 * ulp := by
  have hulp := ulp_pos
  have ha' : 0 < ofFine a := mul_pos (by exact_mod_cast ha) hulp
  obtain ⟨hge, hle, j, ⟨hshift, hres⟩ | ⟨hshift, hres⟩⟩ := reduce_spec ha
  · obtain ⟨hlow, -⟩ := ofFine_residue hge hle
    have hcut : |ofFine (reduce a).residue - ofFine a / 2 ^ j| ≤ ulp := by
      have h := abs_ofFine_div a (n := 2 ^ j) (by positivity)
      rw [truncDiv, ← Int.ofNat_tdiv, ← hres] at h
      exact_mod_cast h
    have hsmall := ulp_le
    have hnear := abs_le.1 hcut
    have hlog := mul_abs_log_sub_log_le (c := 0.7) (by norm_num)
      (by linarith : 0.7 ≤ ofFine (reduce a).residue) (by linarith : 0.7 ≤ ofFine a / 2 ^ j)
    have hdiv : Real.log (ofFine a / 2 ^ j) = Real.log (ofFine a) - j * Real.log 2 := by
      rw [Real.log_div ha'.ne' (by positivity), Real.log_pow]
    rw [hdiv] at hlog
    have heq : Real.log (ofFine (reduce a).residue) + j * Real.log 2 - Real.log (ofFine a) =
        Real.log (ofFine (reduce a).residue) - (Real.log (ofFine a) - j * Real.log 2) := by ring
    rw [hshift, Int.cast_natCast, heq]
    linarith
  · have hmul : ofFine (reduce a).residue = ofFine a * 2 ^ j := by
      rw [hres, ofFine, ofFine]
      push_cast
      ring
    rw [hmul, Real.log_mul ha'.ne' (by positivity), Real.log_pow, hshift]
    push_cast
    rw [neg_mul, add_neg_cancel_right, sub_self, abs_zero]
    positivity

/-- **The logarithm** of a positive number, up to the last places and what the series leaves out. -/
theorem abs_lnFine_sub_le {a : Nat} (ha : 0 < a) :
    |ofFine (lnFine a) - Real.log (ofFine a)| ≤ (49 + |((reduce a).shift : ℝ)|) * ulp +
      2 * (|ofFine (artanhArgument (reduce a).residue)| ^ 25 /
        (1 - ofFine (artanhArgument (reduce a).residue) ^ 2)) := by
  obtain ⟨hge, hle, -⟩ := reduce_spec ha
  have hseries := abs_two_artanh_sub_log_le hge hle
  have hresidue := abs_log_residue_sub_le ha
  set r := reduce a
  have htwo : |(r.shift : ℝ) * ofFine lnTwo - r.shift * Real.log 2| ≤ |(r.shift : ℝ)| * ulp := by
    rw [← mul_sub, abs_mul]
    exact mul_le_mul_of_nonneg_left abs_lnTwo_sub_le (abs_nonneg _)
  have hln : ofFine (lnFine a) = ofFine (2 * artanh (artanhArgument r.residue)) +
      r.shift * ofFine lnTwo := by
    rw [← ofFine_mul, ← ofFine_add]
    rfl
  rw [hln]
  rw [abs_le] at *
  constructor <;> linarith

/-- A number is moved by no more binary places than it has, or than one has at 36 places. -/
theorem abs_shift_le {a m n : Nat} (ha : 0 < a) (hlt : a < 2 ^ m * 2 ^ n) (hmn : 121 ≤ m + n) :
    |((reduce a).shift : ℝ)| ≤ ((m + n : ℕ) : ℝ) := by
  rw [← Nat.pow_add] at hlt
  obtain ⟨hge, hle, j, ⟨hshift, hres⟩ | ⟨hshift, hres⟩⟩ := reduce_spec ha
  · have hpos : 0 < a / 2 ^ j := hres ▸ lt_of_lt_of_le (by decide) hge
    have hpow : 2 ^ j < 2 ^ (m + n) := lt_of_le_of_lt (Nat.div_pos_iff.1 hpos).2 hlt
    have hj : j < m + n := (Nat.pow_lt_pow_iff_right (by decide)).1 hpow
    rw [hshift, Int.cast_natCast, Nat.abs_cast]
    exact_mod_cast hj.le
  · have hpow : 2 ^ j < 2 ^ (m + n) := by
      calc 2 ^ j ≤ a * 2 ^ j := Nat.le_mul_of_pos_left _ ha
        _ ≤ sqrtTwo := hres ▸ hle
        _ < 2 ^ 121 := by decide
        _ ≤ 2 ^ (m + n) := Nat.pow_le_pow_right (by decide) hmn
    have hj : j < m + n := (Nat.pow_lt_pow_iff_right (by decide)).1 hpow
    rw [hshift, Int.cast_neg, Int.cast_natCast, abs_neg, Nat.abs_cast]
    exact_mod_cast hj.le

/-- A 256-bit number at 18 places, carried over to 36. -/
theorem toNat_mul_finePerUnit {x : Int} (hx : 0 < x) (hle : x ≤ maxUint) :
    0 < (x * finePerUnit).toNat ∧ (x * finePerUnit).toNat < 2 ^ 256 * 2 ^ 64 ∧
      ofFine ((x * finePerUnit).toNat : Int) = ofUnit x := by
  have hpos : 0 < x * finePerUnit := Int.mul_pos hx (by decide)
  refine ⟨by omega, ?_, ?_⟩
  · rw [Int.toNat_lt hpos.le]
    calc x * finePerUnit ≤ maxUint * finePerUnit :=
          Int.mul_le_mul_of_nonneg_right hle (by decide)
      _ < ((2 ^ 256 * 2 ^ 64 : Nat) : Int) := by decide
  · rw [Int.toNat_of_nonneg hpos.le, ofFine_mul_finePerUnit]

/-- A 256-bit number at 18 places has no more than 320 binary places at 36. -/
theorem abs_lnFine_sub_le_of_lt {a : Nat} (ha : 0 < a) (hlt : a < 2 ^ 256 * 2 ^ 64) :
    |ofFine (lnFine a) - Real.log (ofFine a)| ≤ 2e-19 := by
  have h := abs_lnFine_sub_le ha
  have hshift : |((reduce a).shift : ℝ)| ≤ 320 := by
    exact_mod_cast abs_shift_le ha hlt (by decide)
  obtain ⟨hge, hle, -⟩ := reduce_spec ha
  have hz := abs_artanhArgument_le hge hle
  set ζ := ofFine (artanhArgument (reduce a).residue)
  have hsq : ζ ^ 2 ≤ 0.1716 ^ 2 := by
    rw [← sq_abs]
    exact pow_le_pow_left₀ (abs_nonneg ζ) hz 2
  have htail : |ζ| ^ 25 / (1 - ζ ^ 2) ≤ 0.1716 ^ 25 / (1 - 0.1716 ^ 2) := by
    gcongr
  have hnum : (0.1716 : ℝ) ^ 25 / (1 - 0.1716 ^ 2) ≤ 8e-20 := by norm_num
  have hlast : (49 + |((reduce a).shift : ℝ)|) * ulp ≤ 369 * ulp := by
    have := ulp_pos
    gcongr
    linarith
  have hulp := ulp_le
  linarith

end SwapMachine.FixedPoint
