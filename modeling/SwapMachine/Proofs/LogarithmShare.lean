import SwapMachine.Proofs.LogarithmError

/-!
# SwapMachine.Proofs.LogarithmShare — the error of the logarithm as a share of it

Far from one the logarithm is not small.  Near one nothing is halved or doubled, so that what is left
out shrinks with the logarithm.  Very near one the terms behind the first are all cut to zero, and one
unit of 18 places keeps the logarithm above the last place of that one.

* `abs_sub_one_le`: a number is no farther from one than its logarithm from zero, up to a factor.
* `artanh_of_small`: a small argument is the whole series.
* `abs_lnFine_sub_le_share`: at 18 places, the logarithm is off by a small share of itself.
-/

namespace SwapMachine.FixedPoint

open Number

/-! ### Numbers and their logarithms -/

theorem abs_sub_one_le {x : ℝ} (hx : 0 < x) : |x - 1| ≤ max x 1 * |Real.log x| := by
  rcases le_total 1 x with h | h
  · rw [max_eq_left h, abs_of_nonneg (by linarith), abs_of_nonneg (Real.log_nonneg h)]
    have hlog := Real.one_sub_inv_le_log_of_pos hx
    calc x - 1 = x * (1 - x⁻¹) := by field_simp
      _ ≤ x * Real.log x := by gcongr
  · rw [max_eq_right h, abs_of_nonpos (by linarith), abs_of_nonpos (Real.log_nonpos hx.le h)]
    have hlog := Real.log_le_sub_one_of_pos hx
    linarith

/-- One unit of 18 places is seen in the logarithm. -/
theorem le_abs_log_of_unit {x : ℝ} (hx : 0 < x) (h : 1e-18 ≤ |x - 1|) :
    0.99e-18 ≤ |Real.log x| := by
  have hdist := abs_sub_one_le hx
  by_contra hlt
  rcases le_total 1 x with h1 | h1
  · rw [max_eq_left h1] at hdist
    rw [abs_of_nonneg (by linarith)] at h hdist
    nlinarith
  · rw [max_eq_right h1] at hdist
    linarith

theorem le_abs_log_of_far {x : ℝ} (hx : 0 < x) (h : x ≤ 0.7072 ∨ 1.4142 ≤ x) :
    0.29 ≤ |Real.log x| := by
  have hdist := abs_sub_one_le hx
  rcases h with h | h
  · rw [max_eq_right (by linarith), abs_of_nonpos (by linarith)] at hdist
    linarith
  · rw [max_eq_left (by linarith), abs_of_nonneg (by linarith)] at hdist
    by_contra hlt
    nlinarith

/-! ### Numbers that are not moved, and numbers that are -/

theorem residue_of_shift_eq_zero {a : Nat} (ha : 0 < a) (h : (reduce a).shift = 0) :
    (reduce a).residue = a := by
  obtain ⟨-, -, j, ⟨hshift, hres⟩ | ⟨hshift, hres⟩⟩ := reduce_spec ha
  · obtain rfl : j = 0 := by omega
    rw [hres, Nat.pow_zero, Nat.div_one]
  · obtain rfl : j = 0 := by omega
    rw [hres, Nat.pow_zero, Nat.mul_one]

theorem far_of_shift_ne_zero {a : Nat} (ha : 0 < a) (h : (reduce a).shift ≠ 0) :
    ofFine a ≤ 0.7072 ∨ 1.4142 ≤ ofFine a := by
  obtain ⟨hge, hle, j, ⟨hshift, hres⟩ | ⟨hshift, hres⟩⟩ := reduce_spec ha
  · -- a number that is halved is above the range
    have hj : 2 ^ 1 ≤ 2 ^ j := Nat.pow_le_pow_right (by decide) (by omega)
    rw [hres, Nat.le_div_iff_mul_le (by positivity)] at hge
    have hbig : sqrtTwo ≤ a := by
      calc sqrtTwo = invSqrtTwo * 2 ^ 1 := by decide
        _ ≤ invSqrtTwo * 2 ^ j := Nat.mul_le_mul_left _ hj
        _ ≤ a := hge
    refine Or.inr (le_trans ?_ (ofFine_le_ofFine.2 (Int.ofNat_le.2 hbig)))
    norm_num [ofFine, ulp, sqrtTwo]
  · -- a number that is doubled is below it
    have hj : 2 ^ 1 ≤ 2 ^ j := Nat.pow_le_pow_right (by decide) (by omega)
    rw [hres] at hle
    have hsmall : a ≤ invSqrtTwo := by
      have := Nat.mul_le_mul_left a hj
      have := two_mul_invSqrtTwo
      omega
    refine Or.inl (le_trans (ofFine_le_ofFine.2 (Int.ofNat_le.2 hsmall)) ?_)
    norm_num [ofFine, ulp, invSqrtTwo]

/-! ### The share -/

/-- The argument of the series is no larger than the logarithm. -/
theorem abs_ratio_le_abs_log {x : ℝ} (hx : 0 < x) : |(x - 1) / (x + 1)| ≤ |Real.log x| := by
  rw [abs_div, abs_of_pos (by linarith : 0 < x + 1), div_le_iff₀ (by linarith)]
  refine (abs_sub_one_le hx).trans ?_
  rw [mul_comm]
  gcongr
  exact max_le (by linarith) (by linarith)

theorem abs_artanhArgument_le_abs_log {m : Nat} (hm : 0 < m) :
    |ofFine (artanhArgument m)| ≤ |Real.log (ofFine m)| + ulp := by
  have hx : 0 < ofFine m := mul_pos (by exact_mod_cast hm) ulp_pos
  have hcut := abs_artanhArgument_sub_le hm
  have hratio := abs_ratio_le_abs_log hx
  have := abs_sub_abs_le_abs_sub (ofFine (artanhArgument m)) ((ofFine m - 1) / (ofFine m + 1))
  linarith

/-- What the series leaves out is a small share of its argument. -/
theorem tail_le {ζ : ℝ} (hζ : |ζ| ≤ 0.1716) : |ζ| ^ 25 / (1 - ζ ^ 2) ≤ 5e-19 * |ζ| := by
  have hsq : ζ ^ 2 ≤ 0.1716 ^ 2 := by
    rw [← sq_abs]
    exact pow_le_pow_left₀ (abs_nonneg ζ) hζ 2
  have hpow : |ζ| ^ 25 ≤ 0.1716 ^ 24 * |ζ| := by
    rw [pow_succ]
    gcongr
  rw [div_le_iff₀ (by linarith)]
  have hnum : (0.1716 : ℝ) ^ 24 ≤ 5e-19 * (1 - 0.1716 ^ 2) := by norm_num
  calc |ζ| ^ 25 ≤ 0.1716 ^ 24 * |ζ| := hpow
    _ ≤ 5e-19 * (1 - 0.1716 ^ 2) * |ζ| := by gcongr
    _ ≤ 5e-19 * (1 - ζ ^ 2) * |ζ| := by gcongr
    _ = 5e-19 * |ζ| * (1 - ζ ^ 2) := by ring

/-- A quotient of a number by a larger one is nothing. -/
theorem truncDiv_eq_zero {a b : Int} (h : |a| < b) : truncDiv a b = 0 := by
  rcases abs_cases a with ⟨heq, ha⟩ | ⟨heq, ha⟩
  · exact Int.tdiv_eq_zero_of_lt ha (heq ▸ h)
  · have hneg : (-a).tdiv b = 0 := Int.tdiv_eq_zero_of_lt (by omega) (heq ▸ h)
    rwa [Int.neg_tdiv, Int.neg_eq_zero] at hneg

theorem oddPowers_zero (square : Int) (power : Nat) : oddPowers square power 0 = 0 := by
  generalize hterm : (0 : Int) = term
  fun_induction oddPowers square power term with
  | case1 => exact hterm
  | case2 power term h next ih =>
    have hnext : next = 0 := by
      simp only [next, ← hterm, Int.zero_mul, truncDiv, Int.zero_tdiv]
    rw [hnext] at ih ⊢
    rw [ih rfl, ← hterm, truncDiv, Int.zero_tdiv, Int.add_zero]

/-- A number whose cube is below the last place is the whole series. -/
theorem artanh_of_small {z : Int} (h : |z| < 10 ^ 24) : artanh z = z := by
  have hsq : z * z < 10 ^ 24 * 10 ^ 24 := by
    rw [← abs_mul_abs_self]
    exact Int.mul_lt_mul' h.le h (abs_nonneg z) (by norm_num)
  have hsquare : 0 ≤ truncDiv (z * z) fine ∧ truncDiv (z * z) fine < 10 ^ 12 := by
    rw [truncDiv, Int.tdiv_eq_ediv_of_nonneg (mul_self_nonneg z), fine]
    have := mul_self_nonneg z
    omega
  set square := truncDiv (z * z) fine with hdef
  have hcube : truncDiv (z * square) fine = 0 := by
    refine truncDiv_eq_zero ?_
    rw [abs_mul, abs_of_nonneg hsquare.1]
    exact Int.mul_lt_mul' h.le hsquare.2 hsquare.1 (by norm_num)
  rw [artanh, ← hdef, oddPowers, if_neg (by decide), hcube]
  simp only [oddPowers_zero, truncDiv, Int.zero_tdiv, Int.add_zero]

/-- The series is the argument where that is small: only the cut argument is left of the error. -/
theorem abs_two_artanh_sub_log_le_of_small {m : Nat} (hm : 0 < m)
    (hsmall : |artanhArgument m| < 10 ^ 24) :
    |ofFine (2 * artanh (artanhArgument m)) - Real.log (ofFine m)| ≤
      2 * ulp + 1e-20 * |Real.log (ofFine m)| := by
  have hulp := ulp_le
  have hx : 0 < ofFine m := mul_pos (by exact_mod_cast hm) ulp_pos
  have hcut := abs_artanhArgument_sub_le hm
  have hξlog := abs_ratio_le_abs_log hx
  have hζ : |ofFine (artanhArgument m)| ≤ 1e-12 := by
    have hreal : |((artanhArgument m : Int) : ℝ)| < 10 ^ 24 := by exact_mod_cast hsmall
    rw [ofFine, abs_mul, abs_of_pos ulp_pos]
    have := mul_le_mul hreal.le hulp ulp_pos.le (by norm_num)
    linarith
  set ζ := ofFine (artanhArgument m) with hζdef
  set ξ := (ofFine m - 1) / (ofFine m + 1) with hξ
  have hξsmall : |ξ| ≤ 1.1e-12 := by
    rw [abs_le] at *
    constructor <;> linarith
  have hseries := Real.sum_range_sub_log_div_le (x := ξ) (by linarith) 1
  have hratio : (1 + ξ) / (1 - ξ) = ofFine m := by
    have : ofFine m + 1 ≠ 0 := by linarith
    rw [hξ]
    field_simp
    ring
  rw [hratio, Finset.sum_range_one] at hseries
  have htail : |ξ| ^ (2 * 1 + 1) / (1 - ξ ^ 2) ≤ 4e-21 * |ξ| := by
    have hsq : ξ ^ 2 ≤ 1.1e-12 ^ 2 := by
      rw [← sq_abs]
      exact pow_le_pow_left₀ (abs_nonneg ξ) hξsmall 2
    rw [div_le_iff₀ (by linarith), pow_succ, Nat.mul_one, sq_abs]
    nlinarith [abs_nonneg ξ]
  rw [artanh_of_small hsmall, ofFine_mul, ← hζdef]
  push_cast
  norm_num at hseries
  rw [abs_le] at hseries hcut ⊢
  constructor <;> linarith

/-- **The logarithm** of a number that is one unit of 18 places or more away from one. -/
theorem abs_lnFine_sub_le_share {a : Nat} (ha : 0 < a) (hlt : a < 2 ^ 256 * 2 ^ 64)
    (hunit : 1e-18 ≤ |ofFine a - 1|) :
    |ofFine (lnFine a) - Real.log (ofFine a)| ≤ 3e-18 * |Real.log (ofFine a)| := by
  have hx : 0 < ofFine a := mul_pos (by exact_mod_cast ha) ulp_pos
  have hulp := ulp_le
  by_cases hshift : (reduce a).shift = 0
  · obtain ⟨hge, hle, -⟩ := reduce_spec ha
    have hres := residue_of_shift_eq_zero ha hshift
    have hln : lnFine a = 2 * artanh (artanhArgument a) := by
      rw [lnFine, hshift, hres, Int.zero_mul, Int.add_zero]
    rw [hres] at hge hle
    rw [hln]
    rcases lt_or_ge |artanhArgument a| (10 ^ 24) with hsmall | hlarge
    · have herr := abs_two_artanh_sub_log_le_of_small ha hsmall
      have hlog := le_abs_log_of_unit hx hunit
      linarith
    · have herr := abs_two_artanh_sub_log_le hge hle
      have htail := tail_le (abs_artanhArgument_le hge hle)
      have hζ := abs_artanhArgument_le_abs_log ha
      have hreal : (10 ^ 24 : ℝ) ≤ |((artanhArgument a : Int) : ℝ)| := by exact_mod_cast hlarge
      have hζlarge : 1e-12 ≤ |ofFine (artanhArgument a)| := by
        rw [ofFine, abs_mul, abs_of_pos ulp_pos, ulp]
        linarith
      linarith
  · have hlog := le_abs_log_of_far hx (far_of_shift_ne_zero ha hshift)
    have herr := abs_lnFine_sub_le_of_lt ha hlt
    linarith

end SwapMachine.FixedPoint
