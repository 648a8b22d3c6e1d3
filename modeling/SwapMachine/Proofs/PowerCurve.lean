import SwapMachine.Proofs.Fair
import SwapMachine.Proofs.Parameter
import SwapMachine.Proofs.PowerBracket

/-!
# SwapMachine.Proofs.PowerCurve — trades on the power curve do not go below it

* `KeepsCurve`: the trade does not lower `balanceIn ^ (alpha / one) * balanceOut`, in whole numbers.
* `keepsCurve_of_le_power`, `output_of_cut`: what is given where the power is not below the true one,
  and where it is cut.
* `keepsCurve_iff`: hence no trade lowers the value of the curve, except for some that multiply the
  balance by `10 ^ 18` or more at an exponent so close to one that the power is cut.
-/

namespace SwapMachine.Curve.Power

open FixedPoint Number

/-- The trade of `a` for `b` on balances of `x` and `y` does not lower the value of the curve, taken
to the power of `one`. -/
def KeepsCurve (x y a b alpha : Int) : Prop :=
  x ^ alpha.toNat * y ^ one.toNat ≤ (x + a) ^ alpha.toNat * (y - b) ^ one.toNat

variable {x y a b alpha : Int}

theorem alpha_mem_of_exactIn (h : exactIn x y a alpha = .ok b) : 0 < alpha ∧ alpha ≤ one := by
  obtain ⟨⟨⟩, -, h⟩ := Outcome.bind_eq_ok.1 h
  obtain ⟨⟨⟩, halpha, -⟩ := Outcome.bind_eq_ok.1 h
  exact Instruction.requireAlpha_eq_ok_iff.1 halpha

/-- The value of the curve is kept exactly if, taken to the power of `one`, the balance left is at
least the power's share of the balance before. -/
theorem keepsCurve_iff_pow_le (hx : 0 < x) (ha : 0 < a) (halpha : 0 ≤ alpha) :
    KeepsCurve x y a b alpha ↔
      (((x : ℝ) / (x + a)) ^ ofUnit alpha * y) ^ one.toNat ≤ ((y : ℝ) - b) ^ one.toNat := by
  have hx' : (0 : ℝ) < x := by exact_mod_cast hx
  have ha' : (0 : ℝ) < a := by exact_mod_cast ha
  have hratio : (0 : ℝ) ≤ (x : ℝ) / (x + a) := by positivity
  rw [mul_pow, rpow_ofUnit_pow hratio halpha, div_pow, div_mul_eq_mul_div,
    div_le_iff₀ (by positivity), mul_comm (_ ^ _) ((x + a : ℝ) ^ _)]
  unfold KeepsCurve
  exact_mod_cast Iff.rfl

/-- It is enough that the balance left is at least the power's share of the balance before. -/
theorem keepsCurve_of_rpow_le (hx : 0 < x) (hy : 0 < y) (ha : 0 < a) (halpha : 0 ≤ alpha)
    (h : ((x : ℝ) / (x + a)) ^ ofUnit alpha * y ≤ y - b) : KeepsCurve x y a b alpha := by
  have hx' : (0 : ℝ) < x := by exact_mod_cast hx
  have hy' : (0 : ℝ) < y := by exact_mod_cast hy
  have ha' : (0 : ℝ) < a := by exact_mod_cast ha
  exact (keepsCurve_iff_pow_le hx ha halpha).2 (pow_le_pow_left₀ (by positivity) h one.toNat)

/-- The balance left is at least that share, unless more than all of the balance is given. -/
theorem KeepsCurve.rpow_le (h : KeepsCurve x y a b alpha) (hx : 0 < x) (ha : 0 < a)
    (halpha : 0 ≤ alpha) (hb : b ≤ y) : ((x : ℝ) / (x + a)) ^ ofUnit alpha * y ≤ y - b := by
  have hleft : (0 : ℝ) ≤ y - b := sub_nonneg.2 (by exact_mod_cast hb)
  exact le_of_pow_le_pow_left₀ (by decide) hleft ((keepsCurve_iff_pow_le hx ha halpha).1 h)

/-- What the trade gives at an exponent below one. -/
theorem exactIn_eq_ok_of_lt (h : exactIn x y a alpha = .ok b) (hlt : alpha < one) :
    ∃ p, powUp (ceilDiv (x * one) (x + a)) alpha = .ok p ∧
      b = floorDiv (y * (one - min p one)) one := by
  obtain ⟨-, -, -, h⟩ := exactIn_eq_ok h
  rw [outputFor, if_neg hlt.ne] at h
  obtain ⟨ratio, hratio, h⟩ := Outcome.bind_eq_ok.1 h
  obtain ⟨-, rfl, -⟩ := mulDivUp_eq_ok_iff.1 hratio
  obtain ⟨p, hp, h⟩ := Outcome.bind_eq_ok.1 h
  obtain ⟨-, rfl, -⟩ := mulDivDown_eq_ok_iff.1 h
  exact ⟨p, hp, rfl⟩

/-- A power that is not below the true one of the ratio keeps the trade on the curve. -/
theorem keepsCurve_of_le_power {p : Int} (hx : 0 < x) (hy : 0 < y) (ha : 0 < a)
    (halpha : 0 ≤ alpha)
    (hp : ofUnit (ceilDiv (x * one) (x + a)) ^ ofUnit alpha ≤ ofUnit p) :
    KeepsCurve x y a (floorDiv (y * (one - min p one)) one) alpha := by
  have hx' : (0 : ℝ) < x := by exact_mod_cast hx
  have hy' : (0 : ℝ) < y := by exact_mod_cast hy
  have ha' : (0 : ℝ) < a := by exact_mod_cast ha
  refine keepsCurve_of_rpow_le hx hy ha halpha ?_
  set v := ((x : ℝ) / (x + a)) ^ ofUnit alpha
  have hratio : (x : ℝ) / (x + a) ≤ ofUnit (ceilDiv (x * one) (x + a)) := by
    have h := div_le_ceilDiv (x * one) (b := x + a) (by omega)
    rw [ofUnit, le_div_iff₀ (by norm_num)]
    push_cast at h
    norm_num [one] at h
    refine le_trans (le_of_eq ?_) h
    norm_num
    ring
  have hv : v ≤ ofUnit p := by
    refine le_trans ?_ hp
    exact Real.rpow_le_rpow (by positivity) hratio (ofUnit_nonneg halpha)
  have hv1 : v ≤ 1 := by
    refine Real.rpow_le_one (by positivity) ?_ (ofUnit_nonneg halpha)
    rw [div_le_one (by positivity)]
    linarith
  have hmin : v ≤ ofUnit (min p one) := by
    rcases min_choice p one with h | h
    · rwa [h]
    · rwa [h, ofUnit_one]
  have hfloor := floorDiv_le_div (y * (one - min p one)) (b := one) (by decide)
  have heq : ((y * (one - min p one) : ℤ) : ℝ) / (one : ℤ) = y * (1 - ofUnit (min p one)) := by
    rw [ofUnit]
    push_cast
    norm_num [one]
    ring
  rw [heq] at hfloor
  have := mul_le_mul_of_nonneg_right hmin hy'.le
  linarith

/-- What the trade gives where the power is cut: all but one unit's share. -/
theorem output_of_cut (h : exactIn x y a alpha = .ok b) (hfar : x * one ≤ x + a)
    (hcut : cutExponent ≤ alpha) (hlt : alpha < one) : y - b = ceilDiv y one := by
  obtain ⟨hx, hy, ha, -⟩ := exactIn_eq_ok h
  obtain ⟨p, hp, rfl⟩ := exactIn_eq_ok_of_lt h hlt
  have hratio : ceilDiv (x * one) (x + a) = 1 := by
    have hle : ceilDiv (x * one) (x + a) ≤ 1 := (ceilDiv_le_iff (by omega)).2 (by omega)
    have hpos := ceilDiv_pos (Int.mul_pos hx (by decide : 0 < one)) (by omega : 0 < x + a)
    omega
  rw [hratio, powUp_cut hcut hlt] at hp
  cases hp
  have hmin : one - min 1 one = one - 1 := by decide
  have hsplit : floorDiv (y * (one - 1)) one = -ceilDiv y one + y := by
    rw [floorDiv, ceilDiv, neg_neg, mul_sub, mul_one, sub_eq_add_neg, add_comm,
      Int.add_mul_fdiv_right _ _ (by decide)]
  rw [hmin, hsplit]
  omega

/-- At exponent one the curve is the constant product. -/
theorem keepsCurve_of_eq_one (h : exactIn x y a one = .ok b) : KeepsCurve x y a b one := by
  obtain ⟨hx, hy, hfair⟩ := fair_of_exactIn h
  unfold KeepsCurve
  rw [← mul_pow, ← mul_pow]
  exact pow_le_pow_left₀ (mul_nonneg hx.le hy.le) hfair.mul_le_mul _

theorem keepsCurve_of_not_cut (h : exactIn x y a alpha = .ok b) (hlt : alpha < one)
    (hcut : ¬ (x * one ≤ x + a ∧ cutExponent ≤ alpha)) : KeepsCurve x y a b alpha := by
  obtain ⟨hx, hy, ha, -⟩ := exactIn_eq_ok h
  obtain ⟨halpha, -⟩ := alpha_mem_of_exactIn h
  obtain ⟨p, hp, rfl⟩ := exactIn_eq_ok_of_lt h hlt
  have hpos := ceilDiv_pos (Int.mul_pos hx (by decide : 0 < one)) (by omega : 0 < x + a)
  have hfrac : ceilDiv (x * one) (x + a) ≤ one := by
    rw [ceilDiv_le_iff (by omega), Int.mul_comm]
    exact Int.mul_le_mul_of_nonneg_left (by omega) (by decide)
  have hone : ¬ (ceilDiv (x * one) (x + a) = 1 ∧ cutExponent ≤ alpha) := by
    rintro ⟨hratio, hexp⟩
    refine hcut ⟨?_, hexp⟩
    have := le_ceilDiv_mul (x * one) (b := x + a) (by omega)
    rwa [hratio, Int.one_mul] at this
  exact keepsCurve_of_le_power hx hy ha halpha.le (le_powUp hpos hfrac halpha hlt hone hp)

/-- **The value of the curve** is lowered by a trade exactly if the ratio of the balances rounds to
one unit, the exponent is one that is cut there, and what is then left of the balance is too
little. -/
theorem keepsCurve_iff (h : exactIn x y a alpha = .ok b) :
    KeepsCurve x y a b alpha ↔
      ¬ (x * one ≤ x + a ∧ cutExponent ≤ alpha ∧ alpha < one ∧
        (x + a) ^ alpha.toNat * ceilDiv y one ^ one.toNat < x ^ alpha.toNat * y ^ one.toNat) := by
  rcases Int.lt_or_eq_of_le (alpha_mem_of_exactIn h).2 with hlt | rfl
  · by_cases hcut : x * one ≤ x + a ∧ cutExponent ≤ alpha
    · obtain ⟨hfar, hcut⟩ := hcut
      unfold KeepsCurve
      rw [output_of_cut h hfar hcut hlt]
      constructor
      · rintro hkeeps ⟨-, -, -, hless⟩
        exact absurd hkeeps (not_le.2 hless)
      · intro hnot
        exact not_lt.1 fun hless => hnot ⟨hfar, hcut, hlt, hless⟩
    · exact iff_of_true (keepsCurve_of_not_cut h hlt hcut) fun hall => hcut ⟨hall.1, hall.2.1⟩
  · exact iff_of_true (keepsCurve_of_eq_one h) fun hall => absurd hall.2.2.1 (lt_irrefl _)

theorem keepsCurve_nearOne :
    exactIn 1000000 1000000 1000 300000000000000000 = .ok 299 ∧
      KeepsCurve 1000000 1000000 1000 299 300000000000000000 := by
  have h : exactIn 1000000 1000000 1000 300000000000000000 = .ok 299 := by rfl
  exact ⟨h, (keepsCurve_iff h).2 fun hall => absurd hall.1 (by decide)⟩

/-- Where a balance is multiplied by `10 ^ 18` at such an exponent, the value of the curve falls
whenever the other balance is a whole number of units. -/
theorem not_keepsCurve_of_cut {c : Int}
    (h : exactIn x (c * one) (x * (one - 1)) alpha = .ok b) (hcut : cutExponent ≤ alpha)
    (hlt : alpha < one) : ¬ KeepsCurve x (c * one) (x * (one - 1)) b alpha := by
  obtain ⟨hx, hy, -, -⟩ := exactIn_eq_ok h
  obtain ⟨halpha, -⟩ := alpha_mem_of_exactIn h
  have hc : 0 < c := pos_of_mul_pos_left hy (by decide)
  have hsum : x + x * (one - 1) = x * one := by rw [mul_sub, mul_one, add_sub_cancel]
  have hleft : c * one - b = c := by
    rw [output_of_cut h (by rw [hsum]) hcut hlt, ceilDiv, ← Int.neg_mul,
      Int.mul_fdiv_cancel _ (by decide), neg_neg]
  have hexp : alpha.toNat < one.toNat := by omega
  have hpow : one ^ alpha.toNat < one ^ one.toNat := pow_lt_pow_right₀ (by decide) hexp
  unfold KeepsCurve
  rw [hsum, hleft, not_le, mul_pow, mul_pow]
  calc x ^ alpha.toNat * one ^ alpha.toNat * c ^ one.toNat
      = x ^ alpha.toNat * c ^ one.toNat * one ^ alpha.toNat := by ring
    _ < x ^ alpha.toNat * c ^ one.toNat * one ^ one.toNat := by gcongr
    _ = x ^ alpha.toNat * (c ^ one.toNat * one ^ one.toNat) := by ring

theorem not_keepsCurve_least :
    exactIn 1 1000000000000000000 999999999999999999 990000000000000000 =
        .ok 999999999999999999 ∧
      ¬ KeepsCurve 1 1000000000000000000 999999999999999999 999999999999999999
        990000000000000000 := by
  have hpower : powUp 1 990000000000000000 = .ok 1 := powUp_cut (by decide) (by decide)
  have hratio : divUp 1 (1 + 999999999999999999) = .ok 1 := mulDivUp_eq_ok_iff.2 (by decide)
  have h : exactIn 1 1000000000000000000 999999999999999999 990000000000000000 =
      .ok 999999999999999999 := by
    show outputFor 1 1000000000000000000 999999999999999999 990000000000000000 = _
    rw [outputFor, if_neg (by decide), hratio]
    refine Outcome.bind_eq_ok.2 ⟨1, rfl, Outcome.bind_eq_ok.2 ⟨1, hpower, ?_⟩⟩
    exact mulDivDown_eq_ok_iff.2 (by decide)
  exact ⟨h, not_keepsCurve_of_cut (c := 1) h (by decide) (by decide)⟩

end SwapMachine.Curve.Power
