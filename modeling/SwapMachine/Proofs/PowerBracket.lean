import SwapMachine.Proofs.Failure
import SwapMachine.Proofs.FractionPower

/-!
# SwapMachine.Proofs.PowerBracket — powers rounded up and down lie on either side of the true one

The true power of fixed-point numbers need not be one itself.  It is compared in whole numbers, with
both sides taken to the power of `one` (`isAtLeastPower_iff`, `isAtMostPower_iff`).

* `IsCutShort`: the plain power is zero, although the true one is more than a unit.
* `power_bracket`: rounded down a power is never above the true one; rounded up it is below exactly
  if it is cut short, and then by no more than a unit.
-/

namespace SwapMachine.FixedPoint

open Number

/-- The number is not below the power. -/
def IsAtLeastPower (q base exponent : Int) : Prop :=
  base ^ exponent.toNat * one ^ one.toNat ≤ q ^ one.toNat * one ^ exponent.toNat

/-- The number is not above the power. -/
def IsAtMostPower (q base exponent : Int) : Prop :=
  q ^ one.toNat * one ^ exponent.toNat ≤ base ^ exponent.toNat * one ^ one.toNat

variable {base exponent q raw p : Int}

/-! ### Comparison in whole numbers -/

theorem toNat_one : ((one.toNat : ℕ) : ℝ) = 10 ^ 18 := by
  have h : ((one.toNat : ℕ) : Int) = one := Int.toNat_of_nonneg (by decide)
  have hreal : ((one.toNat : ℕ) : ℝ) = (one : ℝ) := by exact_mod_cast h
  rw [hreal]
  norm_num [one]

/-- A power of fixed-point numbers, taken to the power of `one`, has a whole exponent. -/
theorem rpow_ofUnit_pow {x : ℝ} (hx : 0 ≤ x) (hexp : 0 ≤ exponent) :
    (x ^ ofUnit exponent) ^ one.toNat = x ^ exponent.toNat := by
  have hcast : ((exponent.toNat : ℕ) : ℝ) = (exponent : ℝ) := by
    exact_mod_cast Int.toNat_of_nonneg hexp
  have hmul : ofUnit exponent * (one.toNat : ℕ) = (exponent.toNat : ℕ) := by
    rw [toNat_one, hcast, ofUnit]
    field_simp
  rw [← Real.rpow_natCast (_ ^ _), ← Real.rpow_mul hx, hmul, Real.rpow_natCast]

theorem ofUnit_eq_div (n : Int) : ofUnit n = n / one := by
  norm_num [ofUnit, one]

/-- The power and the number, taken to the power of `one`. -/
theorem power_sides (hbase : 0 ≤ base) (hexp : 0 ≤ exponent) (q : Int) :
    (ofUnit base ^ ofUnit exponent) ^ one.toNat =
        ((base ^ exponent.toNat : ℤ) : ℝ) / ((one ^ exponent.toNat : ℤ) : ℝ) ∧
      ofUnit q ^ one.toNat = ((q ^ one.toNat : ℤ) : ℝ) / ((one ^ one.toNat : ℤ) : ℝ) := by
  rw [rpow_ofUnit_pow (ofUnit_nonneg hbase) hexp, ofUnit_eq_div, ofUnit_eq_div, div_pow, div_pow]
  push_cast
  exact ⟨rfl, rfl⟩

theorem isAtLeastPower_iff (hbase : 0 ≤ base) (hexp : 0 ≤ exponent) (hq : 0 ≤ q) :
    IsAtLeastPower q base exponent ↔ ofUnit base ^ ofUnit exponent ≤ ofUnit q := by
  have hpower := Real.rpow_nonneg (ofUnit_nonneg hbase) (ofUnit exponent)
  have hone (k : ℕ) : (0 : ℝ) < ((one ^ k : ℤ) : ℝ) := by
    exact_mod_cast pow_pos (by decide : 0 < one) k
  obtain ⟨hleft, hright⟩ := power_sides hbase hexp q
  rw [← pow_le_pow_iff_left₀ hpower (ofUnit_nonneg hq) (by decide : one.toNat ≠ 0), hleft, hright,
    div_le_div_iff₀ (hone _) (hone _)]
  unfold IsAtLeastPower
  exact_mod_cast Iff.rfl

theorem isAtMostPower_iff (hbase : 0 ≤ base) (hexp : 0 ≤ exponent) (hq : 0 ≤ q) :
    IsAtMostPower q base exponent ↔ ofUnit q ≤ ofUnit base ^ ofUnit exponent := by
  have hpower := Real.rpow_nonneg (ofUnit_nonneg hbase) (ofUnit exponent)
  have hone (k : ℕ) : (0 : ℝ) < ((one ^ k : ℤ) : ℝ) := by
    exact_mod_cast pow_pos (by decide : 0 < one) k
  obtain ⟨hleft, hright⟩ := power_sides hbase hexp q
  rw [← pow_le_pow_iff_left₀ (ofUnit_nonneg hq) hpower (by decide : one.toNat ≠ 0), hleft, hright,
    div_le_div_iff₀ (hone _) (hone _)]
  unfold IsAtMostPower
  exact_mod_cast Iff.rfl

/-! ### Exact powers -/

/-- A power that is known without a series is the true one. -/
theorem exact_power_eq (hexact : IsExactPower base exponent) (h : pow base exponent = .ok raw) :
    0 ≤ raw ∧ raw ^ one.toNat * one ^ exponent.toNat = base ^ exponent.toNat * one ^ one.toNat := by
  obtain ⟨hbase, hexp, h⟩ := pow_eq_ok_iff.1 h
  split at h
  case isTrue h0 =>
    cases h
    refine ⟨by decide, ?_⟩
    rw [h0, Int.toNat_zero, pow_zero, pow_zero, mul_comm]
  case isFalse h0 =>
    split at h
    case isTrue hb0 =>
      have hexp' : exponent.toNat ≠ 0 := by
        have := hexp.1
        omega
      cases h
      refine ⟨le_rfl, ?_⟩
      rw [hb0, zero_pow hexp', zero_pow (by decide), zero_mul, zero_mul]
    case isFalse hb0 =>
      split at h
      case isTrue h1 =>
        cases h
        refine ⟨hbase.1, ?_⟩
        rw [h1]
      case isFalse h1 =>
        obtain rfl : base = one := by
          unfold IsExactPower at hexact
          omega
        rw [if_pos rfl] at h
        cases h
        exact ⟨by decide, mul_comm _ _⟩

/-! ### Rounded down -/

theorem isAtMostPower_zero (hbase : 0 ≤ base) : IsAtMostPower 0 base exponent := by
  unfold IsAtMostPower
  rw [zero_pow (by decide), zero_mul]
  exact mul_nonneg (pow_nonneg hbase _) (pow_nonneg (by decide) _)

/-- **Powers rounded down** are not above the true ones. -/
theorem isAtMostPower_of_powDown (h : powDown base exponent = .ok q) :
    IsAtMostPower q base exponent := by
  obtain ⟨raw, hraw, ⟨hexact, rfl⟩ | ⟨hne, ⟨hpos, rfl⟩ | rfl⟩⟩ := powDown_eq_ok h
  · exact (exact_power_eq hexact hraw).2.le
  · obtain ⟨hbase, hexp, hb0, hb1, p, hp, rfl⟩ := pow_eq_ok hraw hne
    have hbase' : 0 < base := lt_of_le_of_ne hbase.1 hb0.symm
    rw [isAtMostPower_iff hbase.1 hexp.1 hpos.le]
    rcases powFine_close hbase' hbase.2 hb1 hexp.1 hp with ⟨rfl, -⟩ | ⟨-, hclose⟩
    · exact absurd hpos (by decide)
    · have := abs_le.1 hclose
      have hv := Real.rpow_nonneg (ofUnit_nonneg hbase.1) (ofUnit exponent)
      exact ofUnit_sub_margin_le hv (by linarith)
  · obtain ⟨hbase, -⟩ := pow_eq_ok_iff.1 hraw
    exact isAtMostPower_zero hbase.1

/-! ### Rounded up -/

/-- The plain power is nothing, although the true one is more than a unit. -/
def IsCutShort (base exponent : Int) : Prop :=
  pow base exponent = .ok 0 ∧
    one ^ exponent.toNat < base ^ exponent.toNat * one ^ one.toNat

theorem isAtLeastPower_one_iff (h : pow base exponent = .ok 0) :
    IsAtLeastPower 1 base exponent ↔ ¬ IsCutShort base exponent := by
  unfold IsAtLeastPower IsCutShort
  rw [one_pow, one_mul, ← not_lt]
  exact ⟨fun hnot hcut => hnot hcut.2, fun hnot hlt => hnot ⟨h, hlt⟩⟩

/-- A power that is cut is less than two units. -/
theorem rpow_lt_of_cut (hbase : 0 < base) (hle : base ≤ maxUint) (hone : base ≠ one)
    (hexp : 0 ≤ exponent) (hcut : logPower base exponent < expFloor * finePerUnit) :
    ofUnit base ^ ofUnit exponent < 2e-18 := by
  by_contra hge
  have herr := abs_logPower_sub_le hbase hle hone hexp
  have hlow : ofFine (logPower base exponent) < -41 := by
    rw [← ofFine_expFloor, ← not_le, ofFine_le_ofFine]
    omega
  have hlog := le_log_of_two_units_le (not_lt.1 hge)
  rw [Real.log_rpow (ofUnit_pos hbase), mul_comm] at hlog
  have hulp := ulp_le
  have := (abs_le.1 herr).1
  rcases abs_cases (Real.log (ofUnit base) * ofUnit exponent) with ⟨habs, -⟩ | ⟨habs, -⟩
  · rw [habs] at this
    linarith
  · rw [habs] at this
    linarith

theorem IsAtLeastPower.succ (h : IsAtLeastPower q base exponent) (hq : 0 ≤ q) :
    IsAtLeastPower (q + 1) base exponent := by
  refine le_trans h (mul_le_mul_of_nonneg_right ?_ (pow_nonneg (by decide) _))
  exact pow_le_pow_left₀ hq (by omega) _

theorem not_isCutShort_of_exact (hexact : IsExactPower base exponent) :
    ¬ IsCutShort base exponent := by
  rintro ⟨hraw, hlt⟩
  obtain ⟨-, heq⟩ := exact_power_eq hexact hraw
  rw [← heq, zero_pow (by decide), zero_mul] at hlt
  exact absurd hlt (not_lt.2 (pow_nonneg (by decide) _))

/-- **Powers rounded up** are not below the true ones unless these are cut short, and then by no
more than a unit. -/
theorem isAtLeastPower_of_powUp (h : powUp base exponent = .ok q) :
    (IsAtLeastPower q base exponent ↔ ¬ IsCutShort base exponent) ∧
      IsAtLeastPower (q + 1) base exponent := by
  obtain ⟨raw, hraw, ⟨hexact, rfl⟩ | ⟨hne, rfl⟩⟩ := powUp_eq_ok h
  · obtain ⟨hnonneg, heq⟩ := exact_power_eq hexact hraw
    have hleast : IsAtLeastPower q base exponent := heq.ge
    exact ⟨iff_of_true hleast (not_isCutShort_of_exact hexact), hleast.succ hnonneg⟩
  · obtain ⟨hbase, hexp, hb0, hb1, p, hp, rfl⟩ := pow_eq_ok hraw hne
    have hbase' : 0 < base := lt_of_le_of_ne hbase.1 hb0.symm
    have hv := Real.rpow_nonneg (ofUnit_nonneg hbase.1) (ofUnit exponent)
    rcases powFine_close hbase' hbase.2 hb1 hexp.1 hp with ⟨rfl, hcut⟩ | ⟨hpos, hclose⟩
    · -- nothing, and the margin of one unit
      have hone : floorDiv 0 finePerUnit +
          (ceilDiv (floorDiv 0 finePerUnit * powError) one + 1) = 1 := by decide
      rw [hone]
      refine ⟨isAtLeastPower_one_iff hraw, ?_⟩
      rw [isAtLeastPower_iff hbase.1 hexp.1 (by decide)]
      have htwo : ofUnit (1 + 1) = 2e-18 := by norm_num [ofUnit]
      rw [htwo]
      exact (rpow_lt_of_cut hbase' hbase.2 hb1 hexp.1 hcut).le
    · have := abs_le.1 hclose
      have hle := le_ofUnit_add_margin (v := ofUnit base ^ ofUnit exponent) hpos (by linarith)
      set q := floorDiv p finePerUnit + (ceilDiv (floorDiv p finePerUnit * powError) one + 1)
      have hq : 0 ≤ q := by
        have hzero : ofUnit 0 = 0 := by norm_num [ofUnit]
        rw [← ofUnit_le_ofUnit, hzero]
        exact hv.trans hle
      have hleast := (isAtLeastPower_iff hbase.1 hexp.1 hq).2 hle
      refine ⟨iff_of_true hleast ?_, hleast.succ hq⟩
      rintro ⟨hzero, -⟩
      rw [Except.ok.inj (hraw.symm.trans hzero)] at hpos
      exact absurd hpos (by decide)

/-- **Powers between their roundings**: rounded up a power is not below the true one exactly if that
is not cut short, and one unit more is always enough; rounded down it is never above. -/
theorem power_bracket (base exponent : Int) :
    (∀ q, powUp base exponent = .ok q →
      (IsAtLeastPower q base exponent ↔ ¬ IsCutShort base exponent) ∧
        IsAtLeastPower (q + 1) base exponent) ∧
    ∀ q, powDown base exponent = .ok q → IsAtMostPower q base exponent :=
  ⟨fun _ h => isAtLeastPower_of_powUp h, fun _ h => isAtMostPower_of_powDown h⟩

/-- The square root of two, on either side. -/
theorem power_bracket_sqrtTwo :
    powUp 2000000000000000000 500000000000000000 = .ok 1414213562373109192 ∧
      powDown 2000000000000000000 500000000000000000 = .ok 1414213562373080904 ∧
      IsAtLeastPower 1414213562373109192 2000000000000000000 500000000000000000 ∧
      IsAtMostPower 1414213562373080904 2000000000000000000 500000000000000000 := by
  have hup : powUp 2000000000000000000 500000000000000000 = .ok 1414213562373109192 :=
    Outcome.eq_ok_of_toOption (by decide +kernel)
  have hdown : powDown 2000000000000000000 500000000000000000 = .ok 1414213562373080904 :=
    Outcome.eq_ok_of_toOption (by decide +kernel)
  have hplain : pow 2000000000000000000 500000000000000000 = .ok 1414213562373095048 :=
    Outcome.eq_ok_of_toOption (by decide +kernel)
  obtain ⟨habove, hbelow⟩ := power_bracket 2000000000000000000 500000000000000000
  refine ⟨hup, hdown, (habove _ hup).1.2 ?_, hbelow _ hdown⟩
  rintro ⟨hzero, -⟩
  exact absurd (Except.ok.inj (hplain.symm.trans hzero)) (by decide)

/-- The least base at such an exponent: the true power is more than the unit that is the result. -/
theorem not_isAtLeastPower_of_cut (hcut : cutExponent ≤ exponent) (hlt : exponent < one) :
    powUp 1 exponent = .ok 1 ∧ ¬ IsAtLeastPower 1 1 exponent := by
  refine ⟨powUp_cut hcut hlt, ?_⟩
  have hexp : exponent.toNat < one.toNat := by
    have : 0 < cutExponent := by decide
    omega
  unfold IsAtLeastPower
  rw [one_pow, one_pow, one_mul, one_mul, not_le]
  exact pow_lt_pow_right₀ (by decide) hexp

theorem not_isAtLeastPower_least :
    powUp 1 990000000000000000 = .ok 1 ∧ ¬ IsAtLeastPower 1 1 990000000000000000 :=
  not_isAtLeastPower_of_cut (by decide) (by decide)

end SwapMachine.FixedPoint
