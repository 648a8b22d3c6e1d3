import SwapMachine.Proofs.PowerError

/-!
# SwapMachine.Proofs.PowerBranches — the two ways to a power agree where either may be taken

Near one a power is summed from the binomial series.  The way by the logarithm is open there as well:
the exponent may be large, but what it multiplies is the error of the logarithm, which is a share of
the logarithm, and the product of the two stays in the band.

* `IsNearOne.abs_log_mul_le`: the logarithm of a power near one is small.
* `IsNearOne.abs_powByLog_sub_le`: the way by the logarithm is off by less than a unit of 18 places.
* `branches_agree`: after the rest is cut off, the results of both ways are one unit apart at most.
-/

namespace SwapMachine.FixedPoint

open Number

variable {base exponent : Int}

theorem abs_log_le_abs_sub_one {x : ℝ} (hx : 0.95 ≤ x) : |Real.log x| ≤ 1.06 * |x - 1| := by
  have hpos : 0 < x := by linarith
  have hup := Real.log_le_sub_one_of_pos hpos
  have hdown := Real.one_sub_inv_le_log_of_pos hpos
  rcases le_total 1 x with h | h
  · rw [abs_of_nonneg (Real.log_nonneg h), abs_of_nonneg (by linarith)]
    linarith
  · have hinv : x⁻¹ - 1 ≤ 1.06 * (1 - x) := by
      have heq : x⁻¹ - 1 = (1 - x) / x := by field_simp
      rw [heq, div_le_iff₀ hpos]
      nlinarith
    rw [abs_of_nonpos (Real.log_nonpos hpos.le h), abs_of_nonpos (by linarith)]
    linarith

/-- A base near one is not zero. -/
theorem IsNearOne.base_pos (h : IsNearOne base exponent) : 0 < base := by
  obtain ⟨hband, -⟩ := h
  rw [one, nearOneBand] at hband
  omega

/-- The logarithm of a power near one. -/
theorem IsNearOne.abs_log_mul_le (h : IsNearOne base exponent) (hexp : 0 ≤ exponent) :
    |Real.log (ofUnit base) * ofUnit exponent| ≤ 0.053 := by
  obtain ⟨hd, hdy⟩ := h.abs_mul_le
  have hy := ofUnit_nonneg hexp
  have hx : 0.95 ≤ ofUnit base := by
    have := abs_le.1 hd
    linarith
  calc |Real.log (ofUnit base) * ofUnit exponent|
      = |Real.log (ofUnit base)| * ofUnit exponent := by rw [abs_mul, abs_of_nonneg hy]
    _ ≤ 1.06 * |ofUnit base - 1| * ofUnit exponent := by
        gcongr
        exact abs_log_le_abs_sub_one hx
    _ = 1.06 * (|ofUnit base - 1| * ofUnit exponent) := by ring
    _ ≤ 0.053 := by linarith

/-- **A power near one by way of its logarithm**, whatever the exponent. -/
theorem IsNearOne.abs_powByLog_sub_le (h : IsNearOne base exponent) (hle : base ≤ maxUint)
    (hone : base ≠ one) (hexp : 0 ≤ exponent) :
    ∃ p, powByLog base exponent = .ok p ∧
      |ofFine p - ofUnit base ^ ofUnit exponent| ≤ 5e-19 := by
  have hlog := abs_logPower_sub_le h.base_pos hle hone hexp
  have ht := h.abs_log_mul_le hexp
  have hulp := ulp_le
  set t := Real.log (ofUnit base) * ofUnit exponent
  have hclose : |ofFine (logPower base exponent) - t| ≤ 2e-19 := by linarith
  have hrange := abs_le.1 ht
  have hmove := abs_le.1 hclose
  have hlow : expFloor * finePerUnit ≤ logPower base exponent := by
    rw [← ofFine_le_ofFine, ofFine_expFloor]
    linarith
  have hhigh : logPower base exponent ≤ expLimit * finePerUnit := by
    rw [← ofFine_le_ofFine, ofFine_expLimit]
    linarith
  obtain ⟨p, hp, herr⟩ := powByLog_of_close h.base_pos hlow hhigh (by norm_num) hclose
  have hpower := (abs_le.1 (h.abs_rpow_sub_one_le hexp)).2
  exact ⟨p, hp, herr.trans (by linarith)⟩

/-- **The two ways to a power agree where either may be taken**: near one the way by the logarithm
has a result as well, and it is the sum of the binomial series up to one unit. -/
theorem branches_agree (hbase : IsUint base) (hexp : IsUint exponent)
    (hne : ¬ IsExactPower base exponent) (hnear : IsNearOne base exponent) :
    ∃ p, powByLog base exponent = .ok p ∧
      |floorDiv (powNearOne base exponent) finePerUnit - floorDiv p finePerUnit| ≤ 1 := by
  have hone : base ≠ one := fun h => hne (Or.inr (Or.inr (Or.inr h)))
  obtain ⟨p, hp, hlog⟩ := hnear.abs_powByLog_sub_le hbase.2 hone hexp.1
  have hbinomial := abs_powNearOne_sub_le hexp.1 hnear
  rw [abs_sub_comm] at hlog
  have hclose := abs_sub_le_add hbinomial hlog
  exact ⟨p, hp, abs_floorDiv_sub_le_one (hclose.trans (by norm_num))⟩

/-- The base is one unit above one and the exponent as large as the band lets it be. -/
theorem branches_agree_at_edge :
    ∃ p, powByLog (one + 1) (nearOneBand * one) = .ok p ∧
      |floorDiv (powNearOne (one + 1) (nearOneBand * one)) finePerUnit -
        floorDiv p finePerUnit| ≤ 1 :=
  branches_agree (by decide) (by decide) (by decide) (by decide)

end SwapMachine.FixedPoint
