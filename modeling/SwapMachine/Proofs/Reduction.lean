import Mathlib.Algebra.Order.Ring.Abs
import Mathlib.Algebra.Order.Ring.Int
import Mathlib.Algebra.Order.Ring.Nat
import SwapMachine.FixedPoint.Logarithm

/-!
# SwapMachine.Proofs.Reduction — range reduction brings numbers near one

The two bounds of the range are a factor of two apart, to the last digit.  So a number is halved
until it is in the range or doubled until it is, and never both.

* `Repeats more body n s t`: a loop goes from `s` to its end at `t` in `n` rounds.
* `Repeats.halved`, `Repeats.doubled`: where the two loops end, if they do.
* `reduce_loops`: they do, and at most one of them goes any round.
* `reduce_spec`: the residue is in the range, and is the number divided or multiplied by the power of
  two that is counted.
* `abs_artanhArgument_mul_le`: what is in the range gives a small argument of the series.
* `reduction_ends`: all of this together.
-/

namespace SwapMachine

namespace Number

/-- A quotient with its fraction dropped, times the divisor, is no larger than what was divided. -/
theorem abs_truncDiv_mul_le (a : Int) {b : Int} (hb : 0 < b) : |truncDiv a b| * b ≤ |a| := by
  obtain ⟨d, rfl⟩ := Int.eq_ofNat_of_zero_le (Int.le_of_lt hb)
  have hle : (truncDiv a d).natAbs * d ≤ a.natAbs := by
    rw [truncDiv, Int.natAbs_tdiv, Int.natAbs_natCast]
    exact Nat.div_mul_le_self _ _
  rw [Int.abs_eq_natAbs, Int.abs_eq_natAbs]
  exact_mod_cast hle

end Number

namespace FixedPoint

open Number

theorem two_mul_invSqrtTwo : 2 * invSqrtTwo = sqrtTwo := by decide

/-- The lower bound is one by the upper one, cut off. -/
example : (invSqrtTwo : Int) = floorDiv (fine * fine) sqrtTwo := by decide

/-! ### Loops -/

/-- A loop: while the condition holds the body is run once more.  It comes from `s` to its end at `t`
in `n` rounds. -/
inductive Repeats {σ : Type} (more : σ → Prop) (body : σ → σ) : Nat → σ → σ → Prop where
  | ended {s : σ} (stop : ¬ more s) : Repeats more body 0 s s
  | again {n : Nat} {s t : σ} (goes : more s) (rest : Repeats more body n (body s) t) :
      Repeats more body (n + 1) s t

namespace Reduced

/-- The residue is above the range. -/
def IsLarge (r : Reduced) : Prop := sqrtTwo < r.residue

/-- The residue is below the range. -/
def IsSmall (r : Reduced) : Prop := r.residue < invSqrtTwo

/-- One halving. -/
def halve (r : Reduced) : Reduced := ⟨r.residue / 2, r.shift + 1⟩

/-- One doubling. -/
def double (r : Reduced) : Reduced := ⟨2 * r.residue, r.shift - 1⟩

end Reduced

open Reduced

namespace Repeats

variable {n : Nat} {r t : Reduced}

theorem eq_zero_of_not {σ : Type} {more : σ → Prop} {body : σ → σ} {s t : σ}
    (h : Repeats more body n s t) (hs : ¬ more s) : n = 0 := by
  cases h with
  | ended => rfl
  | again goes => exact absurd goes hs

/-- Halving ends in the range unless it does nothing. -/
theorem halved (h : Repeats IsLarge halve n r t) :
    t = ⟨r.residue / 2 ^ n, r.shift + n⟩ ∧ t.residue ≤ sqrtTwo ∧
      (n = 0 ∨ invSqrtTwo ≤ t.residue) := by
  induction h with
  | @ended r stop =>
    refine ⟨?_, Nat.not_lt.1 stop, Or.inl rfl⟩
    rw [Nat.pow_zero, Nat.div_one, Int.natCast_zero, Int.add_zero]
  | @again n r t goes rest ih =>
    obtain ⟨heq, hle, hge⟩ := ih
    refine ⟨?_, hle, Or.inr ?_⟩
    · have hdiv : r.residue / 2 / 2 ^ n = r.residue / 2 ^ (n + 1) := by
        rw [Nat.div_div_eq_div_mul, Nat.pow_succ, Nat.mul_comm]
      have hshift : r.shift + 1 + (n : Int) = r.shift + (n + 1 : Nat) := by omega
      rw [heq, halve, hdiv, hshift]
    · rcases hge with rfl | hge
      · -- the last halving: the bounds are a factor of two apart
        have hlarge : sqrtTwo < r.residue := goes
        have hbounds := two_mul_invSqrtTwo
        have hlast : t.residue = r.residue / 2 := by rw [heq, Nat.pow_zero, Nat.div_one, halve]
        omega
      · exact hge

/-- Doubling ends in the range, or does nothing because the number is large enough. -/
theorem doubled (h : Repeats IsSmall double n r t) :
    t = ⟨r.residue * 2 ^ n, r.shift - n⟩ ∧ invSqrtTwo ≤ t.residue ∧
      (n = 0 ∨ t.residue ≤ sqrtTwo) := by
  induction h with
  | @ended r stop =>
    refine ⟨?_, Nat.not_lt.1 stop, Or.inl rfl⟩
    rw [Nat.pow_zero, Nat.mul_one, Int.natCast_zero, Int.sub_zero]
  | @again n r t goes rest ih =>
    obtain ⟨heq, hge, hle⟩ := ih
    refine ⟨?_, hge, Or.inr ?_⟩
    · have hmul : 2 * r.residue * 2 ^ n = r.residue * 2 ^ (n + 1) := by
        rw [Nat.pow_succ, Nat.mul_comm 2 r.residue, Nat.mul_assoc, Nat.mul_comm 2]
      have hshift : r.shift - 1 - (n : Int) = r.shift - (n + 1 : Nat) := by omega
      rw [heq, double, hmul, hshift]
    · rcases hle with rfl | hle
      · have hsmall : r.residue < invSqrtTwo := goes
        have hbounds := two_mul_invSqrtTwo
        have hlast : t.residue = 2 * r.residue := by rw [heq, Nat.pow_zero, Nat.mul_one, double]
        omega
      · exact hle

end Repeats

/-! ### Both loops end -/

theorem repeats_halvings (a count : Nat) : ∃ n,
    Repeats IsLarge halve n ⟨a, count⟩ ⟨(halvings a count).1, (halvings a count).2⟩ := by
  fun_induction halvings a count with
  | case1 a count h => exact ⟨0, .ended (Nat.not_lt.2 h)⟩
  | case2 a count h ih =>
    obtain ⟨n, hrest⟩ := ih
    exact ⟨n + 1, .again (Nat.lt_of_not_le h) hrest⟩

theorem repeats_doublings {a : Nat} (ha : 0 < a) (shift : Int) (count : Nat) : ∃ n,
    Repeats IsSmall double n ⟨a, shift - count⟩
      ⟨(doublings a count).1, shift - (doublings a count).2⟩ := by
  fun_induction doublings a count with
  | case1 a count h ih =>
    obtain ⟨n, hrest⟩ := ih (by omega)
    have hround : double ⟨a, shift - count⟩ = ⟨2 * a, shift - (count + 1 : Nat)⟩ := by
      rw [double, Int.natCast_succ, Int.sub_sub]
    exact ⟨n + 1, .again h.2 (hround ▸ hrest)⟩
  | case2 a count h => exact ⟨0, .ended fun hsmall => h ⟨ha, hsmall⟩⟩

/-- From a positive number both loops come to an end, and at most one of them goes any round. -/
theorem reduce_loops {a : Nat} (ha : 0 < a) : ∃ m n between,
    Repeats IsLarge halve m ⟨a, 0⟩ between ∧ Repeats IsSmall double n between (reduce a) ∧
      (m = 0 ∨ n = 0) := by
  obtain ⟨m, hdown⟩ := repeats_halvings a 0
  obtain ⟨heq, -, hend⟩ := hdown.halved
  have hpos : 0 < (halvings a 0).1 := by
    rcases hend with rfl | hge
    · rw [(Reduced.mk.inj heq).1]
      rwa [Nat.pow_zero, Nat.div_one]
    · exact Nat.lt_of_lt_of_le (by decide) hge
  obtain ⟨n, hup⟩ := repeats_doublings hpos (halvings a 0).2 0
  rw [Int.natCast_zero, Int.sub_zero] at hup
  -- where something was halved the number is in the range, so that nothing is doubled
  exact ⟨m, n, _, hdown, hup, hend.imp_right fun hge => hup.eq_zero_of_not (Nat.not_lt.2 hge)⟩

/-- **Range reduction**: the residue is in the range, and comes from the number by halvings, rounded
down, or by doublings, but not by both. -/
theorem reduce_spec {a : Nat} (ha : 0 < a) :
    invSqrtTwo ≤ (reduce a).residue ∧ (reduce a).residue ≤ sqrtTwo ∧
      ∃ j : Nat, ((reduce a).shift = j ∧ (reduce a).residue = a / 2 ^ j) ∨
        ((reduce a).shift = -j ∧ (reduce a).residue = a * 2 ^ j) := by
  obtain ⟨m, n, between, hdown, hup, hone⟩ := reduce_loops ha
  obtain ⟨rfl, hle, -⟩ := hdown.halved
  obtain ⟨heq, hge, hle'⟩ := hup.doubled
  refine ⟨hge, ?_, ?_⟩
  · rcases hle' with rfl | hle'
    · rwa [heq, Nat.pow_zero, Nat.mul_one]
    · exact hle'
  · rw [heq]
    rcases hone with rfl | rfl
    · refine ⟨n, Or.inr ⟨?_, ?_⟩⟩
      · rw [Int.natCast_zero, Int.add_zero, Int.zero_sub]
      · rw [Nat.pow_zero, Nat.div_one]
    · refine ⟨m, Or.inl ⟨?_, ?_⟩⟩
      · rw [Int.natCast_zero, Int.zero_add, Int.sub_zero]
      · rw [Nat.pow_zero, Nat.mul_one]

/-! ### The argument of the series -/

theorem abs_sub_fine_mul_le {m : Nat} (hge : invSqrtTwo ≤ m) (hle : m ≤ sqrtTwo) :
    |(m : Int) - fine| * 10000 ≤ 1716 * ((m : Int) + fine) := by
  simp only [invSqrtTwo, sqrtTwo] at hge hle
  simp only [fine, Int.abs_eq_natAbs]
  omega

theorem abs_artanhArgument_mul_le {m : Nat} (hge : invSqrtTwo ≤ m) (hle : m ≤ sqrtTwo) :
    |artanhArgument m| * 10000 ≤ 1716 * fine := by
  have hfine : (0 : Int) < fine := by decide
  have hpos : (0 : Int) < m + fine := by omega
  refine Int.le_of_mul_le_mul_right ?_ hpos
  calc |artanhArgument m| * 10000 * (m + fine)
      = |artanhArgument m| * (m + fine) * 10000 := Int.mul_right_comm _ _ _
    _ ≤ |((m : Int) - fine) * fine| * 10000 :=
        Int.mul_le_mul_of_nonneg_right (abs_truncDiv_mul_le _ hpos) (by decide)
    _ = |(m : Int) - fine| * 10000 * fine := by
        rw [abs_mul, abs_of_pos hfine, Int.mul_right_comm]
    _ ≤ 1716 * (m + fine) * fine :=
        Int.mul_le_mul_of_nonneg_right (abs_sub_fine_mul_le hge hle) (Int.le_of_lt hfine)
    _ = 1716 * fine * (m + fine) := Int.mul_right_comm _ _ _

/-- **Range reduction ends**: from a positive number both loops come to an end, at most one of them
after a round or more.  The residue is then in the range; it is the number divided by the power of
two that is counted, rounded down, or multiplied by it; and it gives a small argument of the
series. -/
theorem reduction_ends {a : Nat} (ha : 0 < a) :
    ∃ m n between,
      Repeats IsLarge halve m ⟨a, 0⟩ between ∧ Repeats IsSmall double n between (reduce a) ∧
      (m = 0 ∨ n = 0) ∧
      invSqrtTwo ≤ (reduce a).residue ∧ (reduce a).residue ≤ sqrtTwo ∧
      (0 ≤ (reduce a).shift → (reduce a).residue = a / 2 ^ (reduce a).shift.toNat) ∧
      ((reduce a).shift < 0 → (reduce a).residue = a * 2 ^ (-(reduce a).shift).toNat) ∧
      |artanhArgument (reduce a).residue| * 10000 ≤ 1716 * fine := by
  obtain ⟨m, n, between, hdown, hup, hone⟩ := reduce_loops ha
  obtain ⟨hge, hle, j, hj⟩ := reduce_spec ha
  refine ⟨m, n, between, hdown, hup, hone, hge, hle, fun hshift => ?_, fun hshift => ?_,
    abs_artanhArgument_mul_le hge hle⟩
  · rcases hj with ⟨hj, hres⟩ | ⟨hj, hres⟩
    · rw [hres, hj, Int.toNat_natCast]
    · obtain rfl : j = 0 := by omega
      rw [hres, hj, Int.natCast_zero, Int.neg_zero, Int.toNat_zero, Nat.pow_zero, Nat.mul_one,
        Nat.div_one]
  · rcases hj with ⟨hj, hres⟩ | ⟨hj, hres⟩
    · omega
    · rw [hres, hj, Int.neg_neg, Int.toNat_natCast]

/-- The first numbers that are outside the range: one halving leads exactly to the lower bound, one
doubling not quite to the upper one. -/
theorem reduction_ends_lastPlace :
    (0 < sqrtTwo + 1 ∧ reduce (sqrtTwo + 1) = ⟨invSqrtTwo, 1⟩ ∧
      (∃ m n between, Repeats IsLarge halve m ⟨sqrtTwo + 1, 0⟩ between ∧
        Repeats IsSmall double n between ⟨invSqrtTwo, 1⟩ ∧ (m = 0 ∨ n = 0)) ∧
      invSqrtTwo = (sqrtTwo + 1) / 2 ^ 1 ∧ |artanhArgument invSqrtTwo| * 10000 ≤ 1716 * fine) ∧
    0 < invSqrtTwo - 1 ∧ reduce (invSqrtTwo - 1) = ⟨sqrtTwo - 2, -1⟩ ∧
      sqrtTwo - 2 = (invSqrtTwo - 1) * 2 ^ 1 := by
  have hpos : 0 < sqrtTwo + 1 := by decide
  have hpos' : 0 < invSqrtTwo - 1 := by decide
  have habove : reduce (sqrtTwo + 1) = ⟨invSqrtTwo, 1⟩ := by
    simp [reduce, halvings, doublings, sqrtTwo, invSqrtTwo]
  have hbelow : reduce (invSqrtTwo - 1) = ⟨sqrtTwo - 2, -1⟩ := by
    simp [reduce, halvings, doublings, sqrtTwo, invSqrtTwo]
  obtain ⟨m, n, between, hdown, hup, hone, -, -, hhalved, -, hz⟩ := reduction_ends hpos
  rw [habove] at hup hhalved hz
  obtain ⟨-, -, -, -, -, -, -, -, -, hdoubled, -⟩ := reduction_ends hpos'
  rw [hbelow] at hdoubled
  exact ⟨⟨hpos, habove, ⟨m, n, between, hdown, hup, hone⟩, hhalved (by decide), hz⟩, hpos', hbelow,
    hdoubled (by decide)⟩

end FixedPoint

end SwapMachine
