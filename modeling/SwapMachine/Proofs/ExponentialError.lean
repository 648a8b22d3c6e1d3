import Mathlib.Analysis.Complex.ExponentialBounds
import Mathlib.Analysis.SpecialFunctions.Pow.Real
import SwapMachine.FixedPoint.Exponential
import SwapMachine.Proofs.LogarithmError

/-!
# SwapMachine.Proofs.ExponentialError — how far the exponential may be off

* `abs_taylor_sub_le`: every term of the series is off by two `ulp`s at most.
* `abs_expRemainder_sub_le`: with what the series leaves out, and two squares.
* `abs_expFine_sub_le`: the binary shift keeps the relative error and cuts off one `ulp` more.
-/

namespace SwapMachine.FixedPoint

open Finset Number

/-- Taylor terms of the exponential behind the one of a given degree. -/
noncomputable def taylorSum (η : ℝ) (count degree : Nat) : ℝ :=
  ∑ i ∈ range count, η ^ (degree + 1 + i) / (Nat.factorial (degree + 1 + i) : ℝ)

theorem taylorSum_succ (η : ℝ) (count degree : Nat) :
    taylorSum η (count + 1) degree =
      η ^ (degree + 1) / (Nat.factorial (degree + 1) : ℝ) + taylorSum η count (degree + 1) := by
  rw [taylorSum, sum_range_succ', add_comm]
  congr 1
  refine sum_congr rfl fun i _ => ?_
  have hi : degree + 1 + (i + 1) = degree + 1 + 1 + i := by ring
  rw [hi]

/-- One more Taylor term. -/
theorem abs_taylorTerm_sub_le {h term : Int} {degree : Nat} (hη : |ofFine h| ≤ 0.1)
    (hterm : |ofFine term - ofFine h ^ degree / (Nat.factorial degree : ℝ)| ≤ 2 * ulp) :
    |ofFine (truncDiv (term * h) (fine * ((degree + 1 : Nat) : Int))) -
      ofFine h ^ (degree + 1) / (Nat.factorial (degree + 1) : ℝ)| ≤ 2 * ulp := by
  set η := ofFine h
  have hulp := ulp_pos
  have hcut := abs_ofFine_mul_div term h (n := degree + 1) (by omega)
  have hfact : (0 : ℝ) < Nat.factorial degree := by exact_mod_cast Nat.factorial_pos degree
  have hone : (1 : ℝ) ≤ ((degree + 1 : ℕ) : ℝ) := by exact_mod_cast Nat.succ_pos degree
  have hnext : η ^ (degree + 1) / (Nat.factorial (degree + 1) : ℝ) =
      η ^ degree / (Nat.factorial degree : ℝ) * η / ((degree + 1 : ℕ) : ℝ) := by
    rw [Nat.factorial_succ, Nat.cast_mul, pow_succ]
    field_simp
  have hprev : |ofFine term * η / ((degree + 1 : ℕ) : ℝ) -
      η ^ degree / (Nat.factorial degree : ℝ) * η / ((degree + 1 : ℕ) : ℝ)| ≤ ulp := by
    rw [← sub_div, ← sub_mul, abs_div, abs_mul, Nat.abs_cast, div_le_iff₀ (by linarith)]
    calc |ofFine term - η ^ degree / (Nat.factorial degree : ℝ)| * |η| ≤ 2 * ulp * 0.1 := by gcongr
      _ ≤ ulp * 1 := by linarith
      _ ≤ ulp * ((degree + 1 : ℕ) : ℝ) := by gcongr
  rw [hnext, two_mul]
  exact abs_sub_le_add hcut hprev

theorem abs_taylor_sub_le {h : Int} (hη : |ofFine h| ≤ 0.1) (count : Nat) :
    ∀ {degree : Nat} {term : Int},
      |ofFine term - ofFine h ^ degree / (Nat.factorial degree : ℝ)| ≤ 2 * ulp →
      |ofFine (taylor h count degree term) - taylorSum (ofFine h) count degree| ≤
        count * (2 * ulp) := by
  induction count with
  | zero =>
    intro degree term _
    rw [taylor, taylorSum, sum_range_zero, sub_zero, ofFine, Int.cast_zero, zero_mul, abs_zero,
      Nat.cast_zero, zero_mul]
  | succ count ih =>
    intro degree term hterm
    have hnext := abs_taylorTerm_sub_le hη hterm
    have hrest := ih hnext
    have hcount : ((count + 1 : ℕ) : ℝ) = count + 1 := Nat.cast_succ count
    rw [taylor, taylorSum_succ, hcount]
    refine (abs_ofFine_add_sub_le hnext hrest).trans ?_
    linarith

/-- **The series**: the sum and what it leaves out. -/
theorem abs_taylor_sub_exp_le {h : Int} (hη : |ofFine h| ≤ 0.1) :
    |ofFine (fine + taylor h expTerms 0 fine) - Real.exp (ofFine h)| ≤ 1e-27 := by
  set η := ofFine h
  have hzero : |ofFine fine - η ^ 0 / (Nat.factorial 0 : ℝ)| ≤ 2 * ulp := by
    rw [ofFine_fine, pow_zero, Nat.factorial_zero, Nat.cast_one, div_one, sub_self, abs_zero]
    have := ulp_pos
    positivity
  have hsum := abs_taylor_sub_le hη expTerms hzero
  have htail := Real.exp_bound (x := η) (by linarith) (n := 15) (by decide)
  have hall : ∑ m ∈ range 15, η ^ m / (Nat.factorial m : ℝ) = 1 + taylorSum η expTerms 0 := by
    rw [sum_range_succ', add_comm, pow_zero, Nat.factorial_zero, Nat.cast_one, div_one]
    refine congrArg (1 + ·) (sum_congr rfl fun i _ => ?_)
    rw [Nat.zero_add, add_comm i 1]
  have hpow : |η| ^ 15 ≤ 0.1 ^ 15 := pow_le_pow_left₀ (abs_nonneg η) hη 15
  have hrem : |η| ^ 15 * (((15 : ℕ).succ : ℝ) / ((Nat.factorial 15 : ℝ) * (15 : ℕ))) ≤ 9e-28 := by
    norm_num [Nat.factorial] at hpow ⊢
    linarith
  have hulp : (expTerms : ℝ) * (2 * ulp) ≤ 1e-30 := by norm_num [ulp, expTerms]
  rw [hall] at htail
  rw [ofFine_add, ofFine_fine]
  rw [abs_le] at hsum htail ⊢
  constructor <;> linarith

/-- A square of a number that is close to another one. -/
theorem abs_squareFine_sub_le {x : Int} {e ε : ℝ} (he : 0 ≤ e) (h : |ofFine x - e| ≤ ε) :
    |ofFine (squareFine x) - e * e| ≤ ulp + ε * (2 * e + ε) := by
  have hcut := abs_ofFine_floorDiv_mul x x
  have hmul := abs_mul_sub_mul_le h h
  have hx : |ofFine x| ≤ e + ε := by
    have := abs_le.1 h
    rw [abs_le]
    constructor <;> linarith
  have hε : 0 ≤ ε := (abs_nonneg _).trans h
  rw [abs_of_nonneg he] at hmul
  calc |ofFine (squareFine x) - e * e| ≤ ulp + (ε * |ofFine x| + e * ε) :=
        abs_sub_le_add hcut hmul
    _ ≤ ulp + (ε * (e + ε) + e * ε) := by gcongr
    _ = ulp + ε * (2 * e + ε) := by ring

/-- A small move of the exponent. -/
theorem abs_exp_add_sub_le (x : ℝ) {δ : ℝ} (hδ : |δ| ≤ 0.01) :
    |Real.exp (x + δ) - Real.exp x| ≤ Real.exp x * (1.01 * |δ|) := by
  have hpos := Real.exp_pos x
  have heq : Real.exp (x + δ) - Real.exp x = Real.exp x * (Real.exp δ - 1) := by
    rw [Real.exp_add]
    ring
  have hone : |Real.exp δ - 1| ≤ 1.01 * |δ| := by
    have hrest := Real.abs_exp_sub_one_sub_id_le (x := δ) (by linarith)
    have hsq : δ ^ 2 ≤ 0.01 * |δ| := by
      rw [← sq_abs, sq]
      gcongr
    have hsplit : |Real.exp δ - 1| ≤ |Real.exp δ - 1 - δ| + |δ| := by
      have := abs_add_le (Real.exp δ - 1 - δ) δ
      rwa [sub_add_cancel] at this
    linarith
  rw [heq, abs_mul, abs_of_pos hpos]
  gcongr

/-- **The remainder**: the series at a quarter of the exponent, squared twice. -/
theorem abs_expRemainder_sub_le {r : Int} (hr : |ofFine r| ≤ 0.35) :
    |ofFine (expRemainder r) - Real.exp (ofFine r)| ≤ 1e-26 := by
  have hulp := ulp_pos
  have hsmall := ulp_le
  have hquarter : |ofFine (truncDiv r 4) - ofFine r / 4| ≤ ulp := by
    exact_mod_cast abs_ofFine_div r (n := 4) (by decide)
  set η := ofFine (truncDiv r 4)
  have hη : |η| ≤ 0.1 := by
    rw [abs_le] at *
    constructor <;> linarith
  have hexp : Real.exp η ≤ 1.2 := by
    have := abs_le.1 (Real.abs_exp_sub_one_le (x := η) (by linarith))
    linarith
  have hpos := Real.exp_pos η
  have h1 := abs_taylor_sub_exp_le hη
  have h2 := abs_squareFine_sub_le hpos.le h1
  have h2' : |ofFine (squareFine (fine + taylor (truncDiv r 4) expTerms 0 fine)) -
      Real.exp η * Real.exp η| ≤ 2.5e-27 := by
    refine h2.trans ?_
    linarith
  have h3 := abs_squareFine_sub_le (mul_pos hpos hpos).le h2'
  have hsq : Real.exp η * Real.exp η ≤ 1.44 := by nlinarith
  have h4 : Real.exp η * Real.exp η * (Real.exp η * Real.exp η) =
      Real.exp (ofFine r + (4 * η - ofFine r)) := by
    rw [← Real.exp_add, ← Real.exp_add]
    congr 1
    ring
  have hδ : |4 * η - ofFine r| ≤ 4 * ulp := by
    rw [abs_le] at *
    constructor <;> linarith
  have hmove := abs_exp_add_sub_le (ofFine r) (hδ.trans (by linarith))
  have hbound : Real.exp (ofFine r) ≤ 1.7 := by
    have := abs_le.1 (Real.abs_exp_sub_one_le (x := ofFine r) (by linarith))
    linarith
  have hmove' : Real.exp (ofFine r) * (1.01 * |4 * η - ofFine r|) ≤ 1.7 * (1.01 * (4 * ulp)) := by
    gcongr
  rw [h4] at h3
  refine (abs_sub_le_add h3 (hmove.trans hmove')).trans ?_
  linarith

theorem two_mul_abs_sub_nearestDiv_le (a : Int) {b : Int} (hb : 0 < b) :
    2 * |a - nearestDiv a b * b| ≤ b := by
  have key : ∀ c : Int, |2 * (c - floorDiv (2 * c + b) (2 * b) * b)| ≤ b := by
    intro c
    have hle := floorDiv_mul_le (2 * c + b) (b := 2 * b) (by omega)
    have hlt := (floorDiv_lt_iff (a := 2 * c + b) (b := 2 * b) (by omega)).1 (Int.lt_succ _)
    rw [Int.mul_left_comm] at hle
    rw [Int.add_mul, Int.mul_left_comm] at hlt
    rw [abs_le]
    constructor <;> omega
  unfold nearestDiv
  split
  · have h := key a
    rwa [abs_mul, abs_two] at h
  · have h := key (-a)
    rw [abs_mul, abs_two, ← abs_neg, Int.mul_neg, ← Int.neg_mul] at h
    have heq : -(-a - floorDiv (-2 * a + b) (2 * b) * b) =
        a - -floorDiv (-2 * a + b) (2 * b) * b := by
      rw [Int.neg_mul (floorDiv _ _)]
      omega
    rwa [heq] at h

/-- A binary shift is exact to the left, and cut off to the right. -/
theorem abs_shift_sub_le (x k : Int) : |ofFine (shift x k) - ofFine x * 2 ^ k| ≤ ulp := by
  unfold shift
  split
  case isTrue hk =>
    obtain ⟨n, rfl⟩ := Int.eq_ofNat_of_zero_le hk
    have heq : ofFine (x * (Nat.pow 2 (n : Int).toNat : Nat)) = ofFine x * 2 ^ (n : Int) := by
      rw [Int.toNat_natCast, zpow_natCast, Nat.pow_eq, ofFine, ofFine]
      push_cast
      ring
    rw [heq, sub_self, abs_zero]
    exact ulp_pos.le
  case isFalse hk =>
    obtain ⟨n, hn⟩ := Int.eq_ofNat_of_zero_le (a := -k) (by omega)
    obtain rfl : k = -n := by omega
    rw [neg_neg, Int.toNat_natCast, Nat.pow_eq, zpow_neg, zpow_natCast]
    have hpos : (0 : Int) < (2 ^ n : Nat) := by positivity
    have hle := floorDiv_le_div x hpos
    have hlt := div_lt_floorDiv_add_one x hpos
    have h := abs_ofFine_sub_le (q := floorDiv x (2 ^ n : Nat)) (x := x / ((2 ^ n : Nat) : Int))
      (abs_le.2 ⟨by linarith, by linarith⟩)
    have heq : (x : ℝ) / (((2 ^ n : ℕ) : ℤ) : ℝ) * ulp = ofFine x * (2 ^ n)⁻¹ := by
      rw [ofFine]
      push_cast
      ring
    rwa [heq] at h

theorem ofFine_expFloor : ofFine (expFloor * finePerUnit) = -41 := by
  rw [ofFine_mul_finePerUnit, ofUnit]
  norm_num [expFloor]

theorem ofFine_expLimit : ofFine (expLimit * finePerUnit) = 130 := by
  rw [ofFine_mul_finePerUnit, ofUnit]
  norm_num [expLimit]

theorem le_exp_floor : 1.5e-18 ≤ Real.exp (-41) := by
  have hpow : Real.exp 41 ≤ 2.7182818286 ^ 41 := by
    have h := pow_le_pow_left₀ (Real.exp_pos 1).le Real.exp_one_lt_d9.le 41
    rwa [← Real.exp_nat_mul, Nat.cast_ofNat, mul_one] at h
  have hpos := Real.exp_pos 41
  calc (1.5e-18 : ℝ) ≤ (2.7182818286 ^ 41)⁻¹ := by norm_num
    _ ≤ (Real.exp 41)⁻¹ := by gcongr
    _ = Real.exp (-41) := (Real.exp_neg 41).symm

theorem exp_floor_le : Real.exp (-41) ≤ 1.6e-18 := by
  have hpow : 2.7182818283 ^ 41 ≤ Real.exp 41 := by
    have h := pow_le_pow_left₀ (by norm_num) Real.exp_one_gt_d9.le 41
    rwa [← Real.exp_nat_mul, Nat.cast_ofNat, mul_one] at h
  calc Real.exp (-41) = (Real.exp 41)⁻¹ := Real.exp_neg 41
    _ ≤ (2.7182818283 ^ 41)⁻¹ := by gcongr
    _ ≤ 1.6e-18 := by norm_num

/-- The whole number of `ln 2` that is split off leaves a small remainder and is small itself. -/
theorem abs_split_le {r : Int} (hlow : -41 ≤ ofFine r) (hhigh : ofFine r ≤ 130) :
    |ofFine (r - nearestDiv r lnTwo * lnTwo)| ≤ 0.35 ∧ |(nearestDiv r lnTwo : ℝ)| ≤ 190 := by
  set k := nearestDiv r lnTwo
  have hulp := ulp_pos
  have hln : ofFine lnTwo ≤ 0.694 ∧ 0.693 ≤ ofFine lnTwo := by norm_num [ofFine, lnTwo, ulp]
  have hrem : |ofFine (r - k * lnTwo)| ≤ 0.35 := by
    have h := two_mul_abs_sub_nearestDiv_le r (b := lnTwo) (by decide)
    have h' : 2 * |((r - k * lnTwo : ℤ) : ℝ)| ≤ lnTwo := by exact_mod_cast h
    have hmul := mul_le_mul_of_nonneg_right h' hulp.le
    have heq : |ofFine (r - k * lnTwo)| = |((r - k * lnTwo : ℤ) : ℝ)| * ulp := by
      rw [ofFine, abs_mul, abs_of_pos hulp]
    rw [heq]
    have : ofFine lnTwo = lnTwo * ulp := rfl
    linarith
  refine ⟨hrem, ?_⟩
  have hk : (k : ℝ) * ofFine lnTwo = ofFine r - ofFine (r - k * lnTwo) := by
    rw [ofFine_sub, ofFine_mul]
    ring
  rw [abs_le] at hrem ⊢
  constructor <;> nlinarith

/-- The shift puts back the whole number of `ln 2` that was split off, up to the constant's last
place. -/
theorem abs_exp_mul_zpow_sub_le {r k : Int} (hk : |(k : ℝ)| ≤ 190) :
    |Real.exp (ofFine (r - k * lnTwo)) * 2 ^ k - Real.exp (ofFine r)| ≤
      Real.exp (ofFine r) * (1.01 * (190 * ulp)) := by
  have hsmall := ulp_le
  have hdrift : |(k : ℝ) * (Real.log 2 - ofFine lnTwo)| ≤ 190 * ulp := by
    have := abs_lnTwo_sub_le
    rw [abs_sub_comm] at this
    rw [abs_mul]
    gcongr
  have hfactor : Real.exp (ofFine (r - k * lnTwo)) * 2 ^ k =
      Real.exp (ofFine r + k * (Real.log 2 - ofFine lnTwo)) := by
    have htwo : (2 : ℝ) ^ k = Real.exp (k * Real.log 2) := by
      rw [mul_comm, Real.exp_mul, Real.exp_log (by norm_num), Real.rpow_intCast]
    rw [htwo, ← Real.exp_add, ofFine_sub, ofFine_mul]
    congr 1
    ring
  rw [hfactor]
  refine (abs_exp_add_sub_le (ofFine r) (hdrift.trans (by linarith))).trans ?_
  have := Real.exp_pos (ofFine r)
  gcongr

/-- **The exponential** between its limits exists, and is off by a small share and an `ulp`. -/
theorem abs_expFine_sub_le {r : Int} (hlow : expFloor * finePerUnit ≤ r)
    (hhigh : r ≤ expLimit * finePerUnit) :
    ∃ p, expFine r = .ok p ∧
      |ofFine p - Real.exp (ofFine r)| ≤ 2e-26 * Real.exp (ofFine r) + ulp := by
  refine ⟨_, by rw [expFine, if_neg (by omega), if_neg (by omega)], ?_⟩
  have hulp := ulp_pos
  have hsmall := ulp_le
  have hlow' : -41 ≤ ofFine r := ofFine_expFloor ▸ ofFine_le_ofFine.2 hlow
  have hhigh' : ofFine r ≤ 130 := ofFine_expLimit ▸ ofFine_le_ofFine.2 hhigh
  obtain ⟨hrem, hk⟩ := abs_split_le hlow' hhigh'
  have hmove := abs_exp_mul_zpow_sub_le (r := r) hk
  set k := nearestDiv r lnTwo
  set s := r - k * lnTwo
  have hpow : (0 : ℝ) < 2 ^ k := by positivity
  have hexp := Real.exp_pos (ofFine r)
  have hshift := abs_shift_sub_le (expRemainder s) k
  have hpow' : (2 : ℝ) ^ k ≤ 1.6 * Real.exp (ofFine r) := by
    have hge : 0.65 ≤ Real.exp (ofFine s) := by
      have := Real.add_one_le_exp (ofFine s)
      have := abs_le.1 hrem
      linarith
    have := (abs_le.1 hmove).2
    nlinarith
  have hrem' : |ofFine (expRemainder s) * 2 ^ k - Real.exp (ofFine s) * 2 ^ k| ≤
      1e-26 * (1.6 * Real.exp (ofFine r)) := by
    rw [← sub_mul, abs_mul, abs_of_pos hpow]
    have := abs_expRemainder_sub_le hrem
    gcongr
  refine (abs_sub_le_add hshift (abs_sub_le_add hrem' hmove)).trans ?_
  nlinarith

end SwapMachine.FixedPoint
