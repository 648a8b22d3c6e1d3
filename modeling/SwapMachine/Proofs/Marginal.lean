import Mathlib.Analysis.Convex.SpecificFunctions.Basic
import SwapMachine.Proofs.PowerCurve
import SwapMachine.Proofs.Sound

/-!
# SwapMachine.Proofs.Marginal — the power curve, its marginal price and the constant product

A trade that keeps the value of the curve gives no more than the constant product would for the part
`alpha` of the input.  One that is cut need not keep the value, but is so large that it stays within
both bounds.

* `KeepsCurve.share_le`: Bernoulli's inequality, in whole numbers.
* `fair_at_exponent`, `marginal_of_exactIn`: what is given at any exponent, cut or not.
* `exponent_never_gains`: an exponent gives no more than the constant product does.
* `spotPrice_le_averagePrice`: no trade is better than the marginal price.
-/

namespace SwapMachine.Curve.Power

open FixedPoint Number

variable {x y a b alpha spot average : Int}

/-! ### Trades that keep the value of the curve -/

/-- A trade that keeps the value of the curve gives no more than the constant product would for the
part `alpha` of the input. -/
theorem KeepsCurve.share_le (h : KeepsCurve x y a b alpha) (hx : 0 < x) (ha : 0 < a)
    (halpha : 0 ≤ alpha) (hone : alpha ≤ one) (hb : b ≤ y) :
    b * (x * one + alpha * a) ≤ y * (alpha * a) := by
  have hx' : (0 : ℝ) < x := by exact_mod_cast hx
  have ha' : (0 : ℝ) < a := by exact_mod_cast ha
  have hleft : (0 : ℝ) ≤ y - b := sub_nonneg.2 (by exact_mod_cast hb)
  have hkept := h.rpow_le hx ha halpha hb
  have hbernoulli : (1 + a / x : ℝ) ^ ofUnit alpha ≤ 1 + ofUnit alpha * (a / x) :=
    rpow_one_add_le_one_add_mul_self (by linarith [div_pos ha' hx']) (ofUnit_nonneg halpha)
      (ofUnit_one ▸ ofUnit_le_ofUnit.2 hone)
  have hcancel : ((x : ℝ) / (x + a)) ^ ofUnit alpha * (1 + a / x : ℝ) ^ ofUnit alpha = 1 := by
    have hbase : (x : ℝ) / (x + a) * (1 + a / x) = 1 := by field_simp
    rw [← Real.mul_rpow (by positivity) (by positivity), hbase, Real.one_rpow]
  have hle : (y : ℝ) ≤ (y - b) * (1 + ofUnit alpha * (a / x)) := by
    calc (y : ℝ) = ((x : ℝ) / (x + a)) ^ ofUnit alpha * y * (1 + a / x : ℝ) ^ ofUnit alpha := by
          rw [mul_right_comm, hcancel, one_mul]
      _ ≤ (y - b) * (1 + a / x : ℝ) ^ ofUnit alpha := by gcongr
      _ ≤ (y - b) * (1 + ofUnit alpha * (a / x)) := by gcongr
  have hscaled : (y * (x * one) : ℝ) ≤ (y - b) * (x * one + alpha * a) := by
    have hunits : (0 : ℝ) < one := by norm_num [one]
    rw [ofUnit_eq_div] at hle
    refine (mul_le_mul_of_nonneg_right hle (mul_pos hx' hunits).le).trans_eq ?_
    field_simp
  have hint : y * (x * one) ≤ (y - b) * (x * one + alpha * a) := by exact_mod_cast hscaled
  linarith

/-- A trade keeps the value of the curve, unless it is one that is cut. -/
theorem keepsCurve_or_cut (h : exactIn x y a alpha = .ok b) :
    KeepsCurve x y a b alpha ∨ x * one ≤ x + a ∧ cutExponent ≤ alpha ∧ y - b = ceilDiv y one := by
  rcases Int.lt_or_eq_of_le (alpha_mem_of_exactIn h).2 with hlt | rfl
  · by_cases hcut : x * one ≤ x + a ∧ cutExponent ≤ alpha
    · exact Or.inr ⟨hcut.1, hcut.2, output_of_cut h hcut.1 hcut.2 hlt⟩
    · exact Or.inl (keepsCurve_of_not_cut h hlt hcut)
  · exact Or.inl (keepsCurve_of_eq_one h)

/-! ### What is given -/

/-- A trade that is cut does not lower the product of the balances: it leaves a unit's share of the
one, and multiplies the other by as much. -/
theorem mul_le_mul_of_cut (hx : 0 < x) (hfar : x * one ≤ x + a) (hleft : y - b = ceilDiv y one)
    (hb : b ≤ y) : x * y ≤ (x + a) * (y - b) :=
  calc x * y ≤ x * (ceilDiv y one * one) :=
        Int.mul_le_mul_of_nonneg_left (le_ceilDiv_mul y (by decide)) hx.le
    _ = x * one * (y - b) := by rw [hleft]; ring
    _ ≤ (x + a) * (y - b) := Int.mul_le_mul_of_nonneg_right hfar (sub_nonneg.2 hb)

/-- **Trades at any exponent** are fair. -/
theorem fair_at_exponent (h : exactIn x y a alpha = .ok b) : Fair x y a b := by
  obtain ⟨hx, hy, ha, -⟩ := exactIn_eq_ok h
  obtain ⟨halpha, hone⟩ := alpha_mem_of_exactIn h
  have hle := (exactIn_le h).1
  have hcovers : b * (x + a) ≤ y * a := by
    rcases keepsCurve_or_cut h with hkeeps | ⟨hfar, -, hleft⟩
    · have hshare := hkeeps.share_le hx ha halpha.le hone hle
      have hwhole : (y - b) * (alpha * a) ≤ (y - b) * (one * a) :=
        Int.mul_le_mul_of_nonneg_left (Int.mul_le_mul_of_nonneg_right hone ha.le) (by omega)
      have hscaled : b * (x + a) * one ≤ y * a * one := by linarith
      exact Int.le_of_mul_le_mul_right hscaled (by decide)
    · have hproduct := mul_le_mul_of_cut hx hfar hleft hle
      linarith
  refine ⟨ha, exactIn_nonneg h, ?_, hcovers⟩
  have hall : y * a < y * (x + a) := Int.mul_lt_mul_of_pos_left (by omega) hy
  exact lt_of_mul_lt_mul_right (hcovers.trans_lt hall) (by omega)

/-- Trades at any exponent give no more than the input is worth at the marginal price. -/
theorem marginal_of_exactIn (h : exactIn x y a alpha = .ok b) :
    b * (x * one) ≤ a * (alpha * y) := by
  obtain ⟨hx, hy, ha, -⟩ := exactIn_eq_ok h
  obtain ⟨halpha, hone⟩ := alpha_mem_of_exactIn h
  have hle := (exactIn_le h).1
  rcases keepsCurve_or_cut h with hkeeps | ⟨hfar, hcut, -⟩
  · have hshare := hkeeps.share_le hx ha halpha.le hone hle
    have hpart : 0 ≤ b * (alpha * a) :=
      Int.mul_nonneg (exactIn_nonneg h) (Int.mul_nonneg halpha.le ha.le)
    linarith
  · -- the input is worth all of the balance at the marginal price
    have hlarge : x * one ≤ a * alpha := by
      calc x * one ≤ x * ((one - 1) * cutExponent) :=
            Int.mul_le_mul_of_nonneg_left (by decide) hx.le
        _ = (x * one - x) * cutExponent := by ring
        _ ≤ a * alpha := mul_le_mul (by omega) hcut (by decide) ha.le
    calc b * (x * one) ≤ y * (a * alpha) :=
          mul_le_mul hle hlarge (Int.mul_nonneg hx.le (by decide)) hy.le
      _ = a * (alpha * y) := by ring

/-- **An exponent never gains**: where it gives an output, the constant product gives one that is no
smaller, and less than the balance. -/
theorem exponent_never_gains (h : exactIn x y a alpha = .ok b) :
    ∃ c, exactIn x y a one = .ok c ∧ b ≤ c ∧ c < y := by
  obtain ⟨hx, hy, ha, -⟩ := exactIn_eq_ok h
  obtain ⟨huint, hsum⟩ := isUint_of_exactIn h
  have hout := exactIn_one_of_isUint hx ⟨hy, huint⟩ ha hsum
  refine ⟨_, hout, ?_, (fair_of_exactIn hout).2.2.leaves⟩
  rw [le_floorDiv_iff (by omega)]
  exact (fair_at_exponent h).covers

/-- A power that is cut gives as much as the constant product. -/
theorem exponent_never_gains_cut :
    exactIn 1 1000000000000000000 999999999999999999 990000000000000000 =
        .ok 999999999999999999 ∧
      exactIn 1 1000000000000000000 999999999999999999 one = .ok 999999999999999999 ∧
      (999999999999999999 : Int) ≤ 999999999999999999 ∧
      (999999999999999999 : Int) < 1000000000000000000 := by
  have h : exactIn 1 1000000000000000000 999999999999999999 990000000000000000 =
      .ok 999999999999999999 := Outcome.eq_ok_of_toOption (by decide +kernel)
  have hone : exactIn 1 1000000000000000000 999999999999999999 one =
      .ok 999999999999999999 := by rfl
  obtain ⟨c, hc, hle, hless⟩ := exponent_never_gains h
  cases hone.symm.trans hc
  exact ⟨h, hone, hle, hless⟩

/-! ### Prices -/

theorem spotPrice_eq_ok (h : spotPrice x y alpha = .ok spot) :
    0 < alpha * y ∧ spot = ceilDiv (x * one * one) (alpha * y) := by
  obtain ⟨_, -, h⟩ := Outcome.bind_eq_ok.1 h
  obtain ⟨_, -, h⟩ := Outcome.bind_eq_ok.1 h
  obtain ⟨⟨-, -, -, hpos⟩, rfl, -⟩ := mulDivUp_eq_ok_iff.1 h
  exact ⟨hpos, rfl⟩

theorem averagePrice_eq_ok (h : averagePrice a b = .ok average) :
    0 < b ∧ average = ceilDiv (a * one) b := by
  unfold averagePrice at h
  split at h
  · cases h
  · obtain ⟨⟨-, -, -, hpos⟩, rfl, -⟩ := mulDivUp_eq_ok_iff.1 h
    exact ⟨hpos, rfl⟩

/-- **The marginal price**: no trade has a better price on average. -/
theorem spotPrice_le_averagePrice (h : exactIn x y a alpha = .ok b)
    (hspot : spotPrice x y alpha = .ok spot) (haverage : averagePrice a b = .ok average) :
    spot ≤ average := by
  obtain ⟨hdepth, rfl⟩ := spotPrice_eq_ok hspot
  obtain ⟨hgives, rfl⟩ := averagePrice_eq_ok haverage
  refine ceilDiv_le_ceilDiv_of_mul_le hdepth hgives ?_
  calc x * one * one * b = b * (x * one) * one := by ring
    _ ≤ a * (alpha * y) * one := Int.mul_le_mul_of_nonneg_right (marginal_of_exactIn h) (by decide)
    _ = a * one * (alpha * y) := by ring

theorem spotPrice_le_averagePrice_nearOne :
    exactIn 1000000 1000000 1000 300000000000000000 = .ok 299 ∧
      spotPrice 1000000 1000000 300000000000000000 = .ok 3333333333333333334 ∧
      averagePrice 1000 299 = .ok 3344481605351170569 ∧
      (3333333333333333334 : Int) ≤ 3344481605351170569 := by
  have h : exactIn 1000000 1000000 1000 300000000000000000 = .ok 299 := by rfl
  have hspot : spotPrice 1000000 1000000 300000000000000000 = .ok 3333333333333333334 := by rfl
  have haverage : averagePrice 1000 299 = .ok 3344481605351170569 := by rfl
  exact ⟨h, hspot, haverage, spotPrice_le_averagePrice h hspot haverage⟩

end SwapMachine.Curve.Power
