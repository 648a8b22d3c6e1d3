import SwapMachine.Proofs.BinomialError
import SwapMachine.Proofs.ExponentialError
import SwapMachine.Proofs.LogarithmShare

/-!
# SwapMachine.Proofs.PowerError — the margin of powers covers their error

* `powByLog_of_close`, `abs_powByLog_sub_le`: a power by way of the logarithm is off by less than a
  share of it that is smaller than the margin.
* `powFine_close`: a plain power is close to the true one unless it is cut to zero.
* `le_ofUnit_add_margin`, `ofUnit_sub_margin_le`: with its margin added a plain power is not below any
  number that it is close to, and with its margin taken away it is not above.
-/

namespace SwapMachine.FixedPoint

open Number

/-- The logarithm of a power: the exponent times the logarithm of the base, 36 places. -/
def logPower (base exponent : Int) : Int :=
  truncDiv (lnFine (base * finePerUnit).toNat * exponent) one

theorem powByLog_eq (base exponent : Int) :
    powByLog base exponent = expFine (logPower base exponent) := rfl

/-- **The logarithm of a power**: a small share of it, and one cut. -/
theorem abs_logPower_sub_le {base exponent : Int} (hbase : 0 < base) (hle : base ≤ maxUint)
    (hone : base ≠ one) (hexp : 0 ≤ exponent) :
    |ofFine (logPower base exponent) - Real.log (ofUnit base) * ofUnit exponent| ≤
      3e-18 * |Real.log (ofUnit base) * ofUnit exponent| + ulp := by
  obtain ⟨hpos, hlt, hx⟩ := toNat_mul_finePerUnit hbase hle
  have hln := abs_lnFine_sub_le_share hpos hlt (hx ▸ unit_le_abs_sub_one hone)
  rw [hx] at hln
  have hy := ofUnit_nonneg hexp
  set l := lnFine (base * finePerUnit).toNat
  have hcut : |ofFine (logPower base exponent) - ofFine l * ofUnit exponent| ≤ ulp := by
    have h := abs_ofFine_sub_le (abs_truncDiv_sub_le (l * exponent) (b := one) (by decide))
    have heq : ((l * exponent : ℤ) : ℝ) / (one : ℝ) * ulp = ofFine l * ofUnit exponent := by
      rw [ofFine, ofUnit]
      norm_num [one]
      ring
    rwa [heq] at h
  have hmul : |ofFine l * ofUnit exponent - Real.log (ofUnit base) * ofUnit exponent| ≤
      3e-18 * |Real.log (ofUnit base) * ofUnit exponent| := by
    rw [← sub_mul, abs_mul, abs_mul, abs_of_nonneg hy, ← mul_assoc]
    gcongr
  rw [add_comm]
  exact abs_sub_le_add hcut hmul

/-- Where the exponential has a result, the logarithm of the power is off by less than the margin. -/
theorem abs_logPower_sub_le_margin {base exponent : Int} (hbase : 0 < base) (hle : base ≤ maxUint)
    (hone : base ≠ one) (hexp : 0 ≤ exponent) (hrange : |ofFine (logPower base exponent)| ≤ 130) :
    |ofFine (logPower base exponent) - Real.log (ofUnit base) * ofUnit exponent| ≤ 7.81e-15 := by
  have herr := abs_logPower_sub_le hbase hle hone hexp
  have hulp := ulp_le
  set r := ofFine (logPower base exponent)
  set t := Real.log (ofUnit base) * ofUnit exponent
  have ht : |t| ≤ |r| + |r - t| := by
    have := abs_sub_abs_le_abs_sub t r
    rw [abs_sub_comm t r] at this
    linarith
  linarith

/-- **A power by way of the logarithm**: what the logarithm of the power is off by becomes a share of
the power. -/
theorem powByLog_of_close {base exponent : Int} {δ : ℝ} (hbase : 0 < base)
    (hlow : expFloor * finePerUnit ≤ logPower base exponent)
    (hhigh : logPower base exponent ≤ expLimit * finePerUnit) (hδ : δ ≤ 0.01)
    (hlog : |ofFine (logPower base exponent) - Real.log (ofUnit base) * ofUnit exponent| ≤ δ) :
    ∃ p, powByLog base exponent = .ok p ∧
      |ofFine p - ofUnit base ^ ofUnit exponent| ≤
        (1.01 * δ + 1e-25) * ofUnit base ^ ofUnit exponent + ulp := by
  obtain ⟨p, hp, herr⟩ := abs_expFine_sub_le hlow hhigh
  refine ⟨p, hp, ?_⟩
  have hpow : ofUnit base ^ ofUnit exponent =
      Real.exp (Real.log (ofUnit base) * ofUnit exponent) :=
    Real.rpow_def_of_pos (ofUnit_pos hbase) _
  rw [hpow]
  set r := ofFine (logPower base exponent)
  set t := Real.log (ofUnit base) * ofUnit exponent
  have hpos := Real.exp_pos t
  have hmove : |Real.exp r - Real.exp t| ≤ Real.exp t * (1.01 * δ) := by
    have h := abs_exp_add_sub_le t (hlog.trans hδ)
    rw [add_sub_cancel] at h
    refine h.trans ?_
    gcongr
  have hexp : Real.exp r ≤ 2 * Real.exp t := by
    have := (abs_le.1 hmove).2
    nlinarith
  refine (abs_sub_le_add herr hmove).trans ?_
  linarith

theorem abs_powByLog_sub_le {base exponent : Int} (hbase : 0 < base) (hle : base ≤ maxUint)
    (hone : base ≠ one) (hexp : 0 ≤ exponent)
    (hlow : expFloor * finePerUnit ≤ logPower base exponent)
    (hhigh : logPower base exponent ≤ expLimit * finePerUnit) :
    ∃ p, powByLog base exponent = .ok p ∧
      |ofFine p - ofUnit base ^ ofUnit exponent| ≤
        7.9e-15 * ofUnit base ^ ofUnit exponent + ulp := by
  have hrange : |ofFine (logPower base exponent)| ≤ 130 := by
    have hlow' := ofFine_le_ofFine.2 hlow
    have hhigh' := ofFine_le_ofFine.2 hhigh
    rw [ofFine_expFloor] at hlow'
    rw [ofFine_expLimit] at hhigh'
    rw [abs_le]
    constructor <;> linarith
  have hlog := abs_logPower_sub_le_margin hbase hle hone hexp hrange
  obtain ⟨p, hp, herr⟩ := powByLog_of_close hbase hlow hhigh (by norm_num) hlog
  have := Real.rpow_nonneg (ofUnit_pos hbase).le (ofUnit exponent)
  exact ⟨p, hp, herr.trans (by linarith)⟩

/-- What the exponential does not cut to zero is one unit of 18 places at least. -/
theorem one_le_floorDiv_of_expFine {r p : Int} (hlow : expFloor * finePerUnit ≤ r)
    (hhigh : r ≤ expLimit * finePerUnit) (hp : expFine r = .ok p) :
    1 ≤ floorDiv p finePerUnit := by
  obtain ⟨p', hp', h⟩ := abs_expFine_sub_le hlow hhigh
  obtain rfl : p' = p := Except.ok.inj (hp'.symm.trans hp)
  have hr : -41 ≤ ofFine r := ofFine_expFloor ▸ ofFine_le_ofFine.2 hlow
  have hmono : Real.exp (-41) ≤ Real.exp (ofFine r) := Real.exp_le_exp.2 hr
  have hfloor := le_exp_floor
  have hulp := ulp_le
  have := (abs_le.1 h).1
  exact one_le_floorDiv_finePerUnit (by linarith)

/-- **Plain powers** are close to the true ones, and not zero, unless they are cut. -/
theorem powFine_close {base exponent p : Int} (hbase : 0 < base) (hle : base ≤ maxUint)
    (hone : base ≠ one) (hexp : 0 ≤ exponent) (hp : powFine base exponent = .ok p) :
    (p = 0 ∧ logPower base exponent < expFloor * finePerUnit) ∨
      (1 ≤ floorDiv p finePerUnit ∧ |ofFine p - ofUnit base ^ ofUnit exponent| ≤
        8e-15 * ofUnit base ^ ofUnit exponent + 1e-32) := by
  have hulp := ulp_le
  have hv : 0 ≤ ofUnit base ^ ofUnit exponent := Real.rpow_nonneg (ofUnit_pos hbase).le _
  unfold powFine at hp
  split at hp
  case isTrue hnear =>
    obtain rfl : powNearOne base exponent = p := Except.ok.inj hp
    have herr := abs_powNearOne_sub_le hexp hnear
    have hpower := abs_le.1 (hnear.abs_rpow_sub_one_le hexp)
    have := abs_le.1 herr
    exact Or.inr ⟨one_le_floorDiv_finePerUnit (by linarith), herr.trans (by linarith)⟩
  case isFalse hfar =>
    rcases Int.lt_or_le (logPower base exponent) (expFloor * finePerUnit) with hcut | hlow
    · rw [powByLog_eq, expFine, if_pos hcut] at hp
      exact Or.inl ⟨(Except.ok.inj hp).symm, hcut⟩
    · have hhigh : logPower base exponent ≤ expLimit * finePerUnit := by
        rw [powByLog_eq, expFine, if_neg (Int.not_lt.2 hlow)] at hp
        by_contra hlt
        rw [if_pos (Int.not_le.1 hlt)] at hp
        cases hp
      obtain ⟨p', hp', herr⟩ := abs_powByLog_sub_le hbase hle hone hexp hlow hhigh
      obtain rfl : p' = p := Except.ok.inj (hp'.symm.trans hp)
      exact Or.inr ⟨one_le_floorDiv_of_expFine hlow hhigh hp, herr.trans (by linarith)⟩

/-! ### Powers with a margin -/

/-- The margin is a share of the plain power, rounded up. -/
theorem share_le_ceilDiv (raw : Int) : (raw : ℝ) * 1e-14 ≤ (ceilDiv (raw * powError) one : ℝ) := by
  have h := div_le_ceilDiv (raw * powError) (b := one) (by decide)
  norm_num [powError, one] at h ⊢
  linarith

/-- **The margin above**: a plain power that is close enough to a number is, with its margin, not
below it. -/
theorem le_ofUnit_add_margin {p : Int} {v : ℝ} (hraw : 1 ≤ floorDiv p finePerUnit)
    (hclose : v ≤ ofFine p + 8e-15 * v + 1e-32) :
    v ≤ ofUnit (floorDiv p finePerUnit +
      (ceilDiv (floorDiv p finePerUnit * powError) one + 1)) := by
  set raw := floorDiv p finePerUnit with hdef
  have hone : 0 < ceilDiv (raw * powError) one :=
    ceilDiv_pos (Int.mul_pos (by omega) (by decide)) (by decide)
  have hshare := share_le_ceilDiv raw
  have hfloor := lt_ofUnit_floorDiv_add p
  rw [← hdef, ofUnit] at hfloor
  have hone' : (1 : ℝ) ≤ (ceilDiv (raw * powError) one : ℝ) := by exact_mod_cast hone
  have hraw' : (1 : ℝ) ≤ raw := by exact_mod_cast hraw
  rw [ofUnit]
  push_cast
  rw [le_div_iff₀ (by norm_num)]
  linarith

/-- **The margin below**: a plain power that is close enough to a number is, without its margin, not
above it. -/
theorem ofUnit_sub_margin_le {p : Int} {v : ℝ} (hv : 0 ≤ v)
    (hclose : ofFine p ≤ v + 8e-15 * v + 1e-32) :
    ofUnit (floorDiv p finePerUnit - (ceilDiv (floorDiv p finePerUnit * powError) one + 1)) ≤ v := by
  set raw := floorDiv p finePerUnit with hdef
  have hshare := share_le_ceilDiv raw
  have hfloor := ofUnit_floorDiv_le p
  rw [← hdef, ofUnit] at hfloor
  rw [ofUnit]
  push_cast
  rw [div_le_iff₀ (by norm_num)]
  linarith

end SwapMachine.FixedPoint
