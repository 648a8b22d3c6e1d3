import SwapMachine.Proofs.PowerError

/-!
# SwapMachine.Proofs.FractionPower — powers of fractions, rounded up

Of the bases from one unit of 18 places to one and the exponents below one, the exponential is cut
to zero only at the least base, and there from an exponent on that is a constant (`cutExponent`).

* `le_powUp`: elsewhere the power rounded up is not below the true one.
* `powUp_cut`: there it is one unit.
-/

namespace SwapMachine.FixedPoint

open Number

/-- From this exponent on, the power of the least base is cut. -/
def cutExponent : Int := 989226319890740275

theorem reduce_least :
    reduce (1 * finePerUnit).toNat = ⟨1152921504606846976000000000000000000, -60⟩ := by
  have h : (1 * finePerUnit).toNat = 1000000000000000000 := by decide
  rw [h, reduce, halvings, if_pos (by decide)]
  simp [doublings, invSqrtTwo]

theorem lnFine_least :
    lnFine (1 * finePerUnit).toNat = -41446531673892822312323846184320108606 := by
  have harg : artanhArgument 1152921504606846976000000000000000000 =
      71029763175119820351416945381618228 := by decide
  rw [lnFine, reduce_least]
  simp [harg, artanh, oddPowers, lnLastPower, truncDiv, fine, lnTwo]

/-- The least base is cut from the constant on. -/
theorem logPower_least_lt_iff {exponent : Int} (h : 0 ≤ exponent) :
    logPower 1 exponent < expFloor * finePerUnit ↔ cutExponent ≤ exponent := by
  have hone : (0 : Int) < 1000000000000000000 := by decide
  have hnonneg : 0 ≤ 41446531673892822312323846184320108606 * exponent :=
    Int.mul_nonneg (by decide) h
  have hle := Int.le_ediv_iff_mul_le (a := 41000000000000000000000000000000000001)
    (b := 41446531673892822312323846184320108606 * exponent) hone
  rw [logPower, lnFine_least, truncDiv, Int.neg_mul, Int.neg_tdiv, one,
    Int.tdiv_eq_ediv_of_nonneg hnonneg]
  simp only [expFloor, finePerUnit, cutExponent]
  omega

theorem le_log_of_two_units_le {x : ℝ} (h : 2e-18 ≤ x) : -40.9 ≤ Real.log x := by
  have htenth : Real.exp 0.1 ≤ 1.2 := by
    have := abs_le.1 (Real.abs_exp_sub_one_le (x := 0.1) (by norm_num [abs_of_pos]))
    rw [abs_of_pos (by norm_num)] at this
    linarith
  have hsum : Real.exp (-40.9) = Real.exp (-41) * Real.exp 0.1 := by
    rw [← Real.exp_add]
    norm_num
  have hfloor := exp_floor_le
  rw [Real.le_log_iff_exp_le (by linarith), hsum]
  calc Real.exp (-41) * Real.exp 0.1 ≤ 1.6e-18 * 1.2 := by gcongr
    _ ≤ 2e-18 := by norm_num
    _ ≤ x := h

/-- No other base is cut. -/
theorem le_logPower {base exponent : Int} (hbase : 2 ≤ base) (hlt : base < one)
    (hexp : 0 ≤ exponent) (hexp1 : exponent ≤ one) :
    expFloor * finePerUnit ≤ logPower base exponent := by
  have hmax : one ≤ maxUint := by decide
  have herr := abs_logPower_sub_le (by omega : 0 < base) (by omega) hlt.ne hexp
  have hy := ofUnit_nonneg hexp
  have hy1 : ofUnit exponent ≤ 1 := ofUnit_one ▸ ofUnit_le_ofUnit.2 hexp1
  have hx : 2e-18 ≤ ofUnit base := by
    refine le_trans ?_ (ofUnit_le_ofUnit.2 hbase)
    norm_num [ofUnit]
  have hx1 : ofUnit base ≤ 1 := ofUnit_one ▸ ofUnit_le_ofUnit.2 hlt.le
  have hlog := le_log_of_two_units_le hx
  have hlog0 : Real.log (ofUnit base) ≤ 0 := Real.log_nonpos (by linarith) hx1
  have hulp := ulp_le
  have hlow : -40.9 ≤ Real.log (ofUnit base) * ofUnit exponent := by nlinarith
  have hhigh : Real.log (ofUnit base) * ofUnit exponent ≤ 0 :=
    mul_nonpos_of_nonpos_of_nonneg hlog0 hy
  rw [abs_of_nonpos hhigh] at herr
  rw [← ofFine_le_ofFine, ofFine_expFloor]
  have := (abs_le.1 herr).1
  linarith

/-- **Powers of fractions, rounded up**, are not below the true ones unless they are cut. -/
theorem le_powUp {base exponent q : Int} (hbase : 0 < base) (hle : base ≤ one)
    (hexp : 0 < exponent) (hexp1 : exponent < one)
    (hcut : ¬ (base = 1 ∧ cutExponent ≤ exponent)) (h : powUp base exponent = .ok q) :
    ofUnit base ^ ofUnit exponent ≤ ofUnit q := by
  obtain ⟨raw, hraw, ⟨hexact, rfl⟩ | ⟨hne, rfl⟩⟩ := powUp_eq_ok h
  · -- of the exact powers only that of one is left
    have hbase1 : base = one := by
      unfold IsExactPower at hexact
      omega
    obtain ⟨-, -, hraw⟩ := pow_eq_ok_iff.1 hraw
    rw [hbase1, if_neg (by decide : one ≠ 0), if_pos rfl, ite_self, ite_self] at hraw
    rw [hbase1, ← Except.ok.inj hraw, ofUnit_one, Real.one_rpow]
  · obtain ⟨hbase', -, -, hone, p, hp, rfl⟩ := pow_eq_ok hraw hne
    rcases powFine_close hbase hbase'.2 hone hexp.le hp with ⟨-, hlow⟩ | ⟨hpos, hclose⟩
    · -- a power that is cut has the least base
      exfalso
      rcases Int.lt_or_le base 2 with hlt | hge
      · obtain rfl : base = 1 := by omega
        exact hcut ⟨rfl, (logPower_least_lt_iff hexp.le).1 hlow⟩
      · have := le_logPower hge (lt_of_le_of_ne hle hone) hexp.le hexp1.le
        omega
    · have := abs_le.1 hclose
      exact le_ofUnit_add_margin hpos (by linarith)

/-- A power that is cut is one unit: nothing, and the margin. -/
theorem powUp_cut {exponent : Int} (hcut : cutExponent ≤ exponent) (hexp1 : exponent < one) :
    powUp 1 exponent = .ok 1 := by
  have hexp : 0 < exponent := Int.lt_of_lt_of_le (by decide) hcut
  have huint : IsUint exponent := ⟨hexp.le, hexp1.le.trans (by decide)⟩
  have hfar : ¬ IsNearOne 1 exponent := fun h => absurd h.1 (by decide)
  have hfine : powFine 1 exponent = .ok 0 := by
    rw [powFine, if_neg hfar, powByLog_eq, expFine,
      if_pos ((logPower_least_lt_iff hexp.le).2 hcut)]
  have hpow : pow 1 exponent = .ok 0 := by
    rw [pow_eq_ok_iff, if_neg hexp.ne', if_neg (by decide), if_neg hexp1.ne, if_neg (by decide),
      hfine]
    exact ⟨by decide, huint, rfl⟩
  have hne : ¬ IsExactPower 1 exponent := by
    have : (1 : Int) ≠ one := by decide
    unfold IsExactPower
    omega
  rw [powUp, hpow]
  exact (if_neg hne).trans rfl

end SwapMachine.FixedPoint
