import Mathlib.Analysis.Analytic.Binomial
import SwapMachine.FixedPoint.Power
import SwapMachine.Proofs.Grid

/-!
# SwapMachine.Proofs.BinomialError — how far powers near one may be off

Where the binomial series is used, every term of it is at most a twentieth of the one before.

* `hasSum_binomialTerm`, `abs_binomialTerm_le`: the series has the power as its sum, and its terms
  fall like a geometric one.
* `abs_powNearOne_sub_le`: the sum of 24 terms, each off by two `ulp`s at most, and what it leaves
  out.
-/

namespace SwapMachine.FixedPoint

open Finset Number

/-- A term of the binomial series of `(1 + d) ^ y`. -/
noncomputable def binomialTerm (d y : ℝ) (n : Nat) : ℝ := Ring.choose y n * d ^ n

theorem binomialTerm_zero (d y : ℝ) : binomialTerm d y 0 = 1 := by
  rw [binomialTerm, Ring.choose_zero_right, pow_zero, one_mul]

theorem binomialTerm_succ (d y : ℝ) (n : Nat) :
    binomialTerm d y (n + 1) = binomialTerm d y n * ((y - n) * d / ((n + 1 : ℕ) : ℝ)) := by
  have h := Ring.choose_smul_choose y (n := n + 1) (k := n) (by omega)
  rw [Nat.choose_succ_self_right, Nat.add_sub_cancel_left, Ring.choose_one_right, nsmul_eq_mul] at h
  have hpos : (0 : ℝ) < ((n + 1 : ℕ) : ℝ) := by positivity
  rw [binomialTerm, binomialTerm, pow_succ]
  field_simp
  linear_combination d ^ (n + 1) * h

/-- The factor between two terms. -/
theorem abs_binomialFactor_le {d y : ℝ} (hy : 0 ≤ y) (hd : |d| ≤ 0.05) (hdy : |d| * y ≤ 0.05)
    (n : Nat) : |(y - n) * d / ((n + 1 : ℕ) : ℝ)| ≤ 0.05 := by
  have hn : (0 : ℝ) ≤ n := by positivity
  have habs : |y - n| ≤ y + n := by
    rw [abs_le]
    constructor <;> linarith
  rw [abs_div, abs_mul, Nat.abs_cast, div_le_iff₀ (by positivity)]
  push_cast
  calc |y - n| * |d| ≤ (y + n) * |d| := by gcongr
    _ = |d| * y + n * |d| := by ring
    _ ≤ 0.05 + n * 0.05 := by gcongr
    _ = 0.05 * (n + 1) := by ring

theorem abs_binomialTerm_le {d y : ℝ} (hy : 0 ≤ y) (hd : |d| ≤ 0.05) (hdy : |d| * y ≤ 0.05)
    (n : Nat) : |binomialTerm d y n| ≤ 1 * 0.05 ^ n := by
  induction n with
  | zero => rw [binomialTerm_zero, abs_one, pow_zero, one_mul]
  | succ n ih =>
    rw [binomialTerm_succ, abs_mul, pow_succ, ← mul_assoc]
    exact mul_le_mul ih (abs_binomialFactor_le hy hd hdy n) (abs_nonneg _) (by positivity)

theorem hasSum_binomialTerm {d : ℝ} (hd : |d| < 1) (y : ℝ) :
    HasSum (binomialTerm d y) ((1 + d) ^ y) := by
  have hmem : d ∈ Metric.eball (0 : ℝ) 1 := by
    rw [← ENNReal.ofReal_one, Metric.eball_ofReal]
    simpa using hd
  have h := (Real.one_add_rpow_hasFPowerSeriesOnBall_zero (a := y)).hasSum hmem
  have heq : binomialTerm d y = fun n => binomialSeries ℝ y n fun _ => d := by
    funext n
    rw [binomialSeries_apply, List.ofFn_const, List.prod_replicate, smul_eq_mul, binomialTerm]
  rw [zero_add] at h
  rw [heq]
  exact h

/-- What the first terms leave out. -/
theorem abs_sum_binomialTerm_sub_le {d y : ℝ} (hy : 0 ≤ y) (hd : |d| ≤ 0.05)
    (hdy : |d| * y ≤ 0.05) (n : Nat) :
    |∑ i ∈ range n, binomialTerm d y i - (1 + d) ^ y| ≤ 1 * 0.05 ^ n / (1 - 0.05) := by
  have hterm : ∀ i, ‖binomialTerm d y i‖ ≤ 1 * 0.05 ^ i := abs_binomialTerm_le hy hd hdy
  exact norm_sub_le_of_geometric_bound_of_hasSum (by norm_num) hterm
    (hasSum_binomialTerm (by linarith) y) n

/-- One more binomial term. -/
theorem abs_binomialStep_sub_le {d y term : Int} {n : Nat} (hy : 0 ≤ ofFine y)
    (hd : |ofFine d| ≤ 0.05) (hdy : |ofFine d| * ofFine y ≤ 0.05)
    (hterm : |ofFine term - binomialTerm (ofFine d) (ofFine y) n| ≤ 2 * ulp) :
    |ofFine (truncDiv (truncDiv (term * (y - (n : Int) * fine)) fine * d)
        (fine * ((n + 1 : Nat) : Int))) - binomialTerm (ofFine d) (ofFine y) (n + 1)| ≤
      2 * ulp := by
  have hulp := ulp_pos
  set inner := truncDiv (term * (y - (n : Int) * fine)) fine
  set factor := (ofFine y - n) * ofFine d / ((n + 1 : ℕ) : ℝ) with hfactor
  have hone : (1 : ℝ) ≤ ((n + 1 : ℕ) : ℝ) := by exact_mod_cast Nat.succ_pos n
  have hinner : |ofFine inner - ofFine term * (ofFine y - n)| ≤ ulp := by
    have h := abs_ofFine_mul term (y - (n : Int) * fine)
    rwa [ofFine_sub, ofFine_mul, ofFine_fine, mul_one, Int.cast_natCast] at h
  have houter := abs_ofFine_mul_div inner d (n := n + 1) (by omega)
  have h1 : |ofFine inner * ofFine d / ((n + 1 : ℕ) : ℝ) - ofFine term * factor| ≤ 0.05 * ulp := by
    have heq : ofFine inner * ofFine d / ((n + 1 : ℕ) : ℝ) - ofFine term * factor =
        (ofFine inner - ofFine term * (ofFine y - n)) * ofFine d / ((n + 1 : ℕ) : ℝ) := by
      rw [hfactor]
      ring
    rw [heq, abs_div, abs_mul, Nat.abs_cast, div_le_iff₀ (by linarith)]
    calc |ofFine inner - ofFine term * (ofFine y - n)| * |ofFine d| ≤ ulp * 0.05 := by gcongr
      _ = 0.05 * ulp * 1 := by ring
      _ ≤ 0.05 * ulp * ((n + 1 : ℕ) : ℝ) := by gcongr
  have h2 : |ofFine term * factor - binomialTerm (ofFine d) (ofFine y) (n + 1)| ≤
      2 * ulp * 0.05 := by
    rw [binomialTerm_succ, ← sub_mul, abs_mul]
    have := abs_binomialFactor_le hy hd hdy n
    gcongr
  refine (abs_sub_le_add houter (abs_sub_le_add h1 h2)).trans ?_
  linarith

theorem abs_binomial_sub_le {d y : Int} (hy : 0 ≤ ofFine y) (hd : |ofFine d| ≤ 0.05)
    (hdy : |ofFine d| * ofFine y ≤ 0.05) (count : Nat) :
    ∀ {n : Nat} {term : Int},
      |ofFine term - binomialTerm (ofFine d) (ofFine y) n| ≤ 2 * ulp →
      |ofFine (binomial d y count n term) -
          ∑ i ∈ range count, binomialTerm (ofFine d) (ofFine y) (n + 1 + i)| ≤
        count * (2 * ulp) := by
  induction count with
  | zero =>
    intro n term _
    rw [binomial, sum_range_zero, sub_zero, ofFine, Int.cast_zero, zero_mul, abs_zero,
      Nat.cast_zero, zero_mul]
  | succ count ih =>
    intro n term hterm
    have hnext := abs_binomialStep_sub_le hy hd hdy hterm
    have hrest := ih hnext
    have hshift : ∑ i ∈ range (count + 1), binomialTerm (ofFine d) (ofFine y) (n + 1 + i) =
        binomialTerm (ofFine d) (ofFine y) (n + 1) +
          ∑ i ∈ range count, binomialTerm (ofFine d) (ofFine y) (n + 1 + 1 + i) := by
      rw [sum_range_succ', add_comm]
      refine congrArg (_ + ·) (sum_congr rfl fun i _ => ?_)
      have hi : n + 1 + (i + 1) = n + 1 + 1 + i := by ring
      rw [hi]
    have hcount : ((count + 1 : ℕ) : ℝ) = count + 1 := Nat.cast_succ count
    rw [binomial, hshift, hcount]
    refine (abs_ofFine_add_sub_le hnext hrest).trans ?_
    linarith

/-- What it means for the reals that base and exponent are in the band. -/
theorem IsNearOne.abs_mul_le {base exponent : Int} (h : IsNearOne base exponent) :
    |ofUnit base - 1| ≤ 0.05 ∧ |ofUnit base - 1| * ofUnit exponent ≤ 0.05 := by
  obtain ⟨hband, hprod⟩ := h
  rw [Int.natCast_natAbs] at hband hprod
  have hband' : |((base - one : ℤ) : ℝ)| ≤ 5 * 10 ^ 16 := by exact_mod_cast hband
  have hprod' : |((base - one : ℤ) : ℝ)| * exponent ≤ 5 * 10 ^ 16 * 10 ^ 18 := by
    exact_mod_cast hprod
  rw [← ofUnit_sub_one, ofUnit, ofUnit, abs_div, abs_of_pos (by norm_num : (0 : ℝ) < 10 ^ 18)]
  constructor
  · rw [div_le_iff₀ (by norm_num)]
    linarith
  · rw [div_mul_div_comm, div_le_iff₀ (by norm_num)]
    linarith

/-- **Powers near one**, up to the last places and what the series leaves out. -/
theorem abs_powNearOne_sub_le {base exponent : Int} (hexp : 0 ≤ exponent)
    (h : IsNearOne base exponent) :
    |ofFine (powNearOne base exponent) - ofUnit base ^ ofUnit exponent| ≤ 3.2e-33 := by
  obtain ⟨hd, hdy⟩ := h.abs_mul_le
  have hy := ofUnit_nonneg hexp
  have hdelta : ofFine ((base - one) * finePerUnit) = ofUnit base - 1 := by
    rw [ofFine_mul_finePerUnit, ofUnit_sub_one]
  have hpower : ofFine (exponent * finePerUnit) = ofUnit exponent := ofFine_mul_finePerUnit exponent
  rw [← hdelta] at hd hdy
  rw [← hpower] at hy hdy
  have hzero : |ofFine fine - binomialTerm (ofFine ((base - one) * finePerUnit))
      (ofFine (exponent * finePerUnit)) 0| ≤ 2 * ulp := by
    rw [ofFine_fine, binomialTerm_zero, sub_self, abs_zero]
    have := ulp_pos
    positivity
  have hsum := abs_binomial_sub_le hy hd hdy nearOneTerms hzero
  have htail := abs_sum_binomialTerm_sub_le hy hd hdy 25
  rw [sum_range_succ', add_comm, binomialTerm_zero, hdelta, hpower, add_sub_cancel] at htail
  have heq : ∑ i ∈ range nearOneTerms, binomialTerm (ofUnit base - 1) (ofUnit exponent)
      (0 + 1 + i) = ∑ i ∈ range 24, binomialTerm (ofUnit base - 1) (ofUnit exponent) (i + 1) := by
    refine sum_congr rfl fun i _ => ?_
    rw [Nat.zero_add, add_comm]
  rw [hdelta, hpower, heq] at hsum
  have hlast : (nearOneTerms : ℝ) * (2 * ulp) ≤ 4.8e-35 := by norm_num [nearOneTerms, ulp]
  have hrest : (1 : ℝ) * 0.05 ^ 25 / (1 - 0.05) ≤ 3.15e-33 := by norm_num
  rw [powNearOne, ofFine_add, ofFine_fine]
  rw [abs_le] at hsum htail ⊢
  constructor <;> linarith

/-- A power near one is itself near one. -/
theorem IsNearOne.abs_rpow_sub_one_le {base exponent : Int} (hexp : 0 ≤ exponent)
    (h : IsNearOne base exponent) : |ofUnit base ^ ofUnit exponent - 1| ≤ 0.06 := by
  obtain ⟨hd, hdy⟩ := h.abs_mul_le
  have hone := abs_sum_binomialTerm_sub_le (ofUnit_nonneg hexp) hd hdy 1
  rw [sum_range_one, binomialTerm_zero, add_sub_cancel, abs_sub_comm] at hone
  refine hone.trans ?_
  norm_num

end SwapMachine.FixedPoint
