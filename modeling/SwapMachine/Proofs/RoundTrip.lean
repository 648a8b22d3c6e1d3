import SwapMachine.Proofs.Failure
import SwapMachine.Proofs.FractionPower

/-!
# SwapMachine.Proofs.RoundTrip — the exponential takes back the logarithm

A logarithm is cut down to 18 places, so that it is off by little more than one of them; the
exponential makes of that a share of the number, and is cut down itself.

* `ln_spec`: a positive number has a logarithm, which is off by 1.2 units.
* `exp_eq_ok`: an exponential that fits is the one at 36 places, cut down.
* `exp_of_close_log`: the exponential of what is close to the logarithm of a number is close to the
  number, by a share and one unit.
* `exists_exp_ln`: both, for every number that has a logarithm within the limit of the exponential.
-/

namespace SwapMachine.FixedPoint

open Number

/-- **The logarithm, cut down**: what the series is off by, and less than one unit. -/
theorem ln_spec {x : Int} (hx : IsUint x) (hpos : 0 < x) :
    ∃ l, ln x = .ok l ∧ |ofUnit l - Real.log (ofUnit x)| ≤ 1.2e-18 := by
  obtain ⟨ha, hlt, hreal⟩ := toNat_mul_finePerUnit hpos hx.2
  have herr := abs_lnFine_sub_le_of_lt ha hlt
  rw [hreal] at herr
  refine ⟨floorDiv (lnFine (x * finePerUnit).toNat) finePerUnit, ?_, ?_⟩
  · exact Outcome.bind_eq_ok.2 ⟨(), requireUint_eq_ok_iff.2 hx, if_neg hpos.ne'⟩
  · have hle := ofUnit_floorDiv_le (lnFine (x * finePerUnit).toNat)
    have hlt := lt_ofUnit_floorDiv_add (lnFine (x * finePerUnit).toNat)
    rw [abs_le] at herr ⊢
    constructor <;> linarith

theorem exp_eq_ok {x p : Int} (hp : expFine (x * finePerUnit) = .ok p)
    (hfits : floorDiv p finePerUnit ≤ maxUint) : exp x = .ok (floorDiv p finePerUnit) :=
  Outcome.bind_eq_ok.2 ⟨p, hp, if_neg (Int.not_lt.2 hfits)⟩

/-- Below its floor the exponential is nothing. -/
theorem exp_of_lt_floor {x : Int} (h : x < expFloor) : exp x = .ok 0 := by
  have hlow : x * finePerUnit < expFloor * finePerUnit :=
    Int.mul_lt_mul_of_pos_right h (by decide)
  exact exp_eq_ok (p := 0) (by rw [expFine, if_pos hlow]) (by decide)

/-- A number whose logarithm does not exceed the limit of the exponential leaves room above. -/
theorem le_of_log_le {X : ℝ} (hX : 0 < X) (h : Real.log X ≤ 131) : X ≤ 1e57 := by
  have hpow : Real.exp 131 ≤ 2.7182818286 ^ 131 := by
    have h := pow_le_pow_left₀ (Real.exp_pos 1).le Real.exp_one_lt_d9.le 131
    rwa [← Real.exp_nat_mul, Nat.cast_ofNat, mul_one] at h
  calc X ≤ Real.exp 131 := (Real.log_le_iff_le_exp hX).1 h
    _ ≤ 2.7182818286 ^ 131 := hpow
    _ ≤ 1e57 := by norm_num

/-- **The exponential of a logarithm** that is off by 1.2 units gives the number back, up to a share
of it and the unit that is cut off. -/
theorem exp_of_close_log {l : Int} {X : ℝ} (hX : 0 < X) (hlow : expFloor ≤ l)
    (hhigh : l ≤ expLimit) (hclose : |ofUnit l - Real.log X| ≤ 1.2e-18) :
    ∃ y, exp l = .ok y ∧ |ofUnit y - X| ≤ 1.3e-18 * X + 1.01e-18 := by
  have hunits : (0 : Int) ≤ finePerUnit := by decide
  obtain ⟨p, hp, herr⟩ := abs_expFine_sub_le (Int.mul_le_mul_of_nonneg_right hlow hunits)
    (Int.mul_le_mul_of_nonneg_right hhigh hunits)
  rw [ofFine_mul_finePerUnit] at herr
  have hmove : |Real.exp (ofUnit l) - X| ≤ X * (1.01 * 1.2e-18) := by
    have h := abs_exp_add_sub_le (Real.log X) (hclose.trans (by norm_num))
    rw [add_sub_cancel, Real.exp_log hX] at h
    refine h.trans ?_
    gcongr
  have hulp := ulp_le
  have hle := ofUnit_floorDiv_le p
  have hlt := lt_ofUnit_floorDiv_add p
  rw [abs_le] at herr hmove hclose
  have hbound : |ofUnit (floorDiv p finePerUnit) - X| ≤ 1.3e-18 * X + 1.01e-18 := by
    rw [abs_le]
    constructor <;> linarith
  refine ⟨_, exp_eq_ok hp ?_, hbound⟩
  have hlimit : ofUnit expLimit = 130 := by norm_num [ofUnit, expLimit]
  have hl : ofUnit l ≤ 130 := hlimit ▸ ofUnit_le_ofUnit.2 hhigh
  have hX' := le_of_log_le hX (by linarith)
  have hmax : (1.1e57 : ℝ) ≤ ofUnit maxUint := by norm_num [ofUnit, maxUint]
  rw [← ofUnit_le_ofUnit]
  have := (abs_le.1 hbound).2
  linarith

/-- A share of a number and one unit, in whole units. -/
theorem abs_sub_le_floorDiv {x y : Int} (h : |ofUnit y - ofUnit x| ≤ 1.3e-18 * ofUnit x + 1.01e-18)
    (hx : 0 ≤ x) : |y - x| ≤ floorDiv x 1000000000000000 + 2 := by
  have hx' : (0 : ℝ) ≤ x := by exact_mod_cast hx
  have hlt := div_lt_floorDiv_add_one x (b := 1000000000000000) (by decide)
  set q := floorDiv x 1000000000000000
  have hreal : |(y : ℝ) - x| < q + 3 := by
    rw [ofUnit, ofUnit, ← sub_div, abs_div, abs_of_pos (by norm_num : (0 : ℝ) < 10 ^ 18),
      div_le_iff₀ (by norm_num)] at h
    push_cast at hlt
    linarith
  have hint : |y - x| < q + 3 := by exact_mod_cast hreal
  omega

/-- **The exponential takes back the logarithm** of every positive number whose logarithm it admits:
up to a share of the number that is below the 15th place, and two units. -/
theorem exists_exp_ln {x : Int} (hx : IsUint x) (hpos : 1 ≤ x) :
    ∃ l, ln x = .ok l ∧ (l ≤ expLimit →
      ∃ y, exp l = .ok y ∧ |y - x| ≤ floorDiv x 1000000000000000 + 2) := by
  obtain ⟨l, hl, hclose⟩ := ln_spec hx hpos
  have hX : 0 < ofUnit x := ofUnit_pos hpos
  refine ⟨l, hl, fun hlimit => ?_⟩
  rcases Int.lt_or_le l expFloor with hcut | hlow
  · -- what is cut to nothing was one unit
    have hone : x = 1 := by
      by_contra hne
      have htwo : (2e-18 : ℝ) ≤ ofUnit x := by
        refine le_trans ?_ (ofUnit_le_ofUnit.2 (by omega : 2 ≤ x))
        norm_num [ofUnit]
      have hlog := le_log_of_two_units_le htwo
      have hfloor : ofUnit expFloor = -41 := by norm_num [ofUnit, expFloor]
      have hl' : ofUnit l ≤ -41 := hfloor ▸ ofUnit_le_ofUnit.2 hcut.le
      have := abs_le.1 hclose
      linarith
    subst hone
    exact ⟨0, exp_of_lt_floor hcut, by decide⟩
  · obtain ⟨y, hy, hbound⟩ := exp_of_close_log hX hlow hlimit hclose
    exact ⟨y, hy, abs_sub_le_floorDiv hbound (by omega)⟩

/-- One unit is lost on the way: its logarithm is below the floor of the exponential.  Two come back
from the series of both. -/
theorem exists_exp_ln_unit :
    (∃ l y, ln 1 = .ok l ∧ l ≤ expLimit ∧ exp l = .ok y ∧
      |y - 1| ≤ floorDiv 1 1000000000000000 + 2) ∧
    ∃ y, ln (2 * one) = .ok 693147180559945309 ∧ exp 693147180559945309 = .ok y ∧
      |y - 2 * one| ≤ floorDiv (2 * one) 1000000000000000 + 2 := by
  constructor
  · obtain ⟨l, hl, hexp⟩ := exists_exp_ln (x := 1) (by decide) (le_refl 1)
    have hleast : ln 1 = .ok (floorDiv (lnFine (1 * finePerUnit).toNat) finePerUnit) := rfl
    have hlimit : l ≤ expLimit := by
      rw [lnFine_least] at hleast
      rw [Except.ok.inj (hl.symm.trans hleast)]
      decide
    obtain ⟨y, hy, hclose⟩ := hexp hlimit
    exact ⟨l, y, hl, hlimit, hy, hclose⟩
  · obtain ⟨l, hl, hexp⟩ := exists_exp_ln (x := 2 * one) (by decide) (by decide)
    have htwo : ln (2 * one) = .ok 693147180559945309 :=
      Outcome.eq_ok_of_toOption (by decide +kernel)
    obtain rfl := Except.ok.inj (hl.symm.trans htwo)
    obtain ⟨y, hy, hclose⟩ := hexp (by decide)
    exact ⟨y, htwo, hy, hclose⟩

end SwapMachine.FixedPoint
