import SwapMachine.Curve.Amount
import SwapMachine.FixedPoint.Power

/-!
# SwapMachine.Proofs.Quotient — what rounded quotients are

* `le_floorDiv_iff`, `ceilDiv_le_iff`: a quotient rounded down is the largest number of times that
  the divisor goes in, one rounded up is the least that covers.
* `mulDivDown_eq_ok_iff`, `mulDivUp_eq_ok_iff`: when products with one rounding exist, and what they
  are.
* `pow_eq_ok_iff`, `powUp_eq_ok`, `powDown_eq_ok`: what powers are made of.
* What fees leave and ask.
-/

namespace SwapMachine

namespace Number

variable {a b c : Int}

theorem le_floorDiv_iff (hb : 0 < b) : c ≤ floorDiv a b ↔ c * b ≤ a := by
  rw [floorDiv, Int.fdiv_eq_ediv_of_nonneg _ (Int.le_of_lt hb)]
  exact Int.le_ediv_iff_mul_le hb

theorem ceilDiv_le_iff (hb : 0 < b) : ceilDiv a b ≤ c ↔ a ≤ c * b := by
  have h := le_floorDiv_iff (a := -a) (c := -c) hb
  rw [Int.neg_mul, Int.neg_le_neg_iff] at h
  rw [← h]
  unfold ceilDiv floorDiv
  omega

theorem floorDiv_mul_le (a : Int) (hb : 0 < b) : floorDiv a b * b ≤ a :=
  (le_floorDiv_iff hb).1 (Int.le_refl _)

theorem le_ceilDiv_mul (a : Int) (hb : 0 < b) : a ≤ ceilDiv a b * b :=
  (ceilDiv_le_iff hb).1 (Int.le_refl _)

theorem floorDiv_nonneg (ha : 0 ≤ a) (hb : 0 < b) : 0 ≤ floorDiv a b :=
  (le_floorDiv_iff hb).2 (by omega)

theorem floorDiv_lt_iff (hb : 0 < b) : floorDiv a b < c ↔ a < c * b := by
  rw [← Int.not_le, ← Int.not_le, le_floorDiv_iff hb]

/-- A share of a number is no more than all of it. -/
theorem floorDiv_mul_le_of_le (ha : 0 ≤ a) (hb : 0 < b) (h : c ≤ b) : floorDiv (a * c) b ≤ a := by
  refine Int.lt_add_one_iff.1 ((floorDiv_lt_iff hb).2 ?_)
  have : a * c ≤ a * b := Int.mul_le_mul_of_nonneg_left h ha
  rw [Int.add_mul]
  omega

theorem lt_ceilDiv_iff (hb : 0 < b) : c < ceilDiv a b ↔ c * b < a := by
  rw [← Int.not_le, ← Int.not_le, ceilDiv_le_iff hb]

theorem ceilDiv_zero (b : Int) : ceilDiv 0 b = 0 := by simp [ceilDiv]

theorem ceilDiv_pos (ha : 0 < a) (hb : 0 < b) : 0 < ceilDiv a b :=
  (lt_ceilDiv_iff hb).2 (by omega)

theorem ceilDiv_nonneg (ha : 0 ≤ a) (hb : 0 < b) : 0 ≤ ceilDiv a b :=
  Int.le_of_sub_one_lt ((lt_ceilDiv_iff hb).2 (by omega))

theorem ceilDiv_le_ceilDiv {a' : Int} (hb : 0 < b) (h : a ≤ a') : ceilDiv a b ≤ ceilDiv a' b :=
  (ceilDiv_le_iff hb).2 (Int.le_trans h (le_ceilDiv_mul a' hb))

/-- A fraction that is no larger is rounded up to no more. -/
theorem ceilDiv_le_ceilDiv_of_mul_le {d : Int} (hb : 0 < b) (hd : 0 < d) (h : a * d ≤ c * b) :
    ceilDiv a b ≤ ceilDiv c d := by
  have hcover := Int.mul_le_mul_of_nonneg_right (le_ceilDiv_mul c hd) (Int.le_of_lt hb)
  rw [ceilDiv_le_iff hb]
  refine Int.le_of_mul_le_mul_right ?_ hd
  calc a * d ≤ c * b := h
    _ ≤ ceilDiv c d * d * b := hcover
    _ = ceilDiv c d * b * d := Int.mul_right_comm _ _ _

/-- A sum rounded up is no more than its parts rounded up. -/
theorem ceilDiv_add_le (a c : Int) (hb : 0 < b) :
    ceilDiv (a + c) b ≤ ceilDiv a b + ceilDiv c b := by
  rw [ceilDiv_le_iff hb, Int.add_mul]
  exact Int.add_le_add (le_ceilDiv_mul a hb) (le_ceilDiv_mul c hb)

/-- Two parts rounded up are no more than their sum rounded up and one. -/
theorem ceilDiv_add_ceilDiv_le (a c : Int) (hb : 0 < b) :
    ceilDiv a b + ceilDiv c b ≤ ceilDiv (a + c) b + 1 := by
  have ha : (ceilDiv a b - 1) * b < a := (lt_ceilDiv_iff hb).1 (by omega)
  have hc : (ceilDiv c b - 1) * b < c := (lt_ceilDiv_iff hb).1 (by omega)
  have hsum : ceilDiv a b - 1 + (ceilDiv c b - 1) < ceilDiv (a + c) b := by
    rw [lt_ceilDiv_iff hb, Int.add_mul]
    exact Int.add_lt_add ha hc
  omega

theorem floorDiv_le_floorDiv {a' : Int} (hb : 0 < b) (h : a ≤ a') : floorDiv a b ≤ floorDiv a' b :=
  (le_floorDiv_iff hb).2 (Int.le_trans (floorDiv_mul_le a hb) h)

theorem ceilDiv_mul_cancel (a : Int) (hb : 0 < b) : ceilDiv (a * b) b = a :=
  Int.le_antisymm ((ceilDiv_le_iff hb).2 (Int.le_refl _))
    (Int.le_of_mul_le_mul_right (le_ceilDiv_mul (a * b) hb) hb)

/-- A common factor does not change a quotient. -/
theorem ceilDiv_mul_left {k : Int} (hk : 0 < k) (hb : 0 < b) :
    ceilDiv (k * a) (k * b) = ceilDiv a b := by
  have hiff (c : Int) : ceilDiv (k * a) (k * b) ≤ c ↔ ceilDiv a b ≤ c := by
    rw [ceilDiv_le_iff (Int.mul_pos hk hb), ceilDiv_le_iff hb, Int.mul_left_comm]
    exact ⟨fun h => Int.le_of_mul_le_mul_left h hk,
      fun h => Int.mul_le_mul_of_nonneg_left h (Int.le_of_lt hk)⟩
  exact Int.le_antisymm ((hiff _).2 (Int.le_refl _)) ((hiff _).1 (Int.le_refl _))

/-- What is left when a quotient rounded up is taken away is a quotient rounded down. -/
theorem sub_ceilDiv (a c : Int) (hb : 0 < b) : a - ceilDiv c b = floorDiv (a * b - c) b := by
  have hiff (z : Int) : z ≤ a - ceilDiv c b ↔ z ≤ floorDiv (a * b - c) b := by
    have h := ceilDiv_le_iff (a := c) (c := a - z) hb
    rw [le_floorDiv_iff hb]
    rw [Int.sub_mul] at h
    omega
  exact Int.le_antisymm ((hiff _).1 (Int.le_refl _)) ((hiff _).2 (Int.le_refl _))

/-- Whole square roots are the largest numbers with a square that is not too large. -/
theorem le_isqrt_iff {r n : Nat} : r ≤ isqrt n ↔ r * r ≤ n := by
  constructor
  · intro h
    exact Nat.le_trans (Nat.mul_le_mul h h) (isqrt_mul_self_le n)
  · intro h
    refine Nat.le_of_lt_succ (Nat.lt_of_not_le fun hle => ?_)
    have hnext : (isqrt n + 1) * (isqrt n + 1) ≤ r * r := Nat.mul_le_mul hle hle
    have := lt_succ_isqrt_mul_self n
    omega

end Number

namespace FixedPoint

open Number

variable {a b d q : Int}

theorem requireRatio_eq_ok_iff :
    requireRatio a b d = .ok () ↔ IsUint a ∧ IsUint b ∧ IsUint d ∧ 0 < d := by
  simp only [requireRatio, Outcome.bind_eq_ok]
  constructor
  · rintro ⟨⟨⟩, ha, ⟨⟩, hb, ⟨⟩, hd, h⟩
    rw [requireUint_eq_ok_iff] at ha hb hd
    split at h
    · cases h
    · have := hd.1
      exact ⟨ha, hb, hd, by omega⟩
  · rintro ⟨ha, hb, hd, hpos⟩
    exact ⟨(), requireUint_eq_ok_iff.2 ha, (), requireUint_eq_ok_iff.2 hb, (),
      requireUint_eq_ok_iff.2 hd, if_neg (by omega)⟩

/-- A computation that goes on from a check succeeds if the check does and the rest does. -/
theorem check_bind_eq_ok {check : Outcome Unit} {P : Prop} (hc : check = .ok () ↔ P)
    {rest : Outcome Int} : (do check; rest) = .ok q ↔ P ∧ rest = .ok q := by
  rw [Outcome.bind_eq_ok, ← hc]
  constructor
  · rintro ⟨⟨⟩, h, hq⟩
    exact ⟨h, hq⟩
  · rintro ⟨h, hq⟩
    exact ⟨(), h, hq⟩

theorem mulDivDown_eq_ok_iff :
    mulDivDown a b d = .ok q ↔ (IsUint a ∧ IsUint b ∧ IsUint d ∧ 0 < d) ∧
      floorDiv (a * b) d = q ∧ floorDiv (a * b) d ≤ maxUint := by
  rw [← bounded_eq_ok_iff]
  exact check_bind_eq_ok requireRatio_eq_ok_iff

theorem mulDivUp_eq_ok_iff :
    mulDivUp a b d = .ok q ↔ (IsUint a ∧ IsUint b ∧ IsUint d ∧ 0 < d) ∧
      ceilDiv (a * b) d = q ∧ ceilDiv (a * b) d ≤ maxUint := by
  rw [← bounded_eq_ok_iff]
  exact check_bind_eq_ok requireRatio_eq_ok_iff

theorem mulDivDown_nonneg (h : mulDivDown a b d = .ok q) : 0 ≤ q := by
  obtain ⟨⟨ha, hb, -, hd⟩, rfl, -⟩ := mulDivDown_eq_ok_iff.1 h
  exact floorDiv_nonneg (Int.mul_nonneg ha.1 hb.1) hd

theorem mulDivUp_nonneg (h : mulDivUp a b d = .ok q) : 0 ≤ q := by
  obtain ⟨⟨ha, hb, -, hd⟩, rfl, -⟩ := mulDivUp_eq_ok_iff.1 h
  exact ceilDiv_nonneg (Int.mul_nonneg ha.1 hb.1) hd

/-! ### Powers -/

theorem pow_eq_ok_iff {base exponent raw : Int} :
    pow base exponent = .ok raw ↔ IsUint base ∧ IsUint exponent ∧
      (if exponent = 0 then .ok one
        else if base = 0 then .ok 0
        else if exponent = one then .ok base
        else if base = one then .ok one
        else do
          let r ← powFine base exponent
          if maxUint < floorDiv r finePerUnit then .error (.math .powTooWide)
          else .ok (floorDiv r finePerUnit) : Outcome Int) = .ok raw := by
  rw [← check_bind_eq_ok requireUint_eq_ok_iff, ← check_bind_eq_ok requireUint_eq_ok_iff]
  rfl

/-- What a power is made of where no shortcut gives it. -/
theorem pow_eq_ok {base exponent raw : Int} (h : pow base exponent = .ok raw)
    (hne : ¬ IsExactPower base exponent) :
    IsUint base ∧ IsUint exponent ∧ base ≠ 0 ∧ base ≠ one ∧
      ∃ p, powFine base exponent = .ok p ∧ raw = floorDiv p finePerUnit := by
  obtain ⟨hbase, hexp, h⟩ := pow_eq_ok_iff.1 h
  unfold IsExactPower at hne
  simp only [not_or] at hne
  obtain ⟨h0, h1, hb0, hb1⟩ := hne
  rw [if_neg h0, if_neg hb0, if_neg h1, if_neg hb1] at h
  obtain ⟨p, hp, h⟩ := Outcome.bind_eq_ok.1 h
  refine ⟨hbase, hexp, hb0, hb1, p, hp, ?_⟩
  split at h
  · cases h
  · cases h
    rfl

theorem powMargin_eq_ok {raw m : Int} (h : powMargin raw = .ok m) :
    m = ceilDiv (raw * powError) one + 1 := by
  obtain ⟨up, hup, h⟩ := Outcome.bind_eq_ok.1 h
  obtain ⟨-, rfl, -⟩ := mulDivUp_eq_ok_iff.1 hup
  cases h
  rfl

/-- A power rounded up is the plain one if that is exact, or else the plain one with its margin. -/
theorem powUp_eq_ok {base exponent q : Int} (h : powUp base exponent = .ok q) :
    ∃ raw, pow base exponent = .ok raw ∧
      ((IsExactPower base exponent ∧ q = raw) ∨
        (¬ IsExactPower base exponent ∧ q = raw + (ceilDiv (raw * powError) one + 1))) := by
  obtain ⟨raw, hraw, h⟩ := Outcome.bind_eq_ok.1 h
  refine ⟨raw, hraw, ?_⟩
  split at h
  case isTrue hexact =>
    cases h
    exact Or.inl ⟨hexact, rfl⟩
  case isFalse hne =>
    obtain ⟨m, hm, h⟩ := Outcome.bind_eq_ok.1 h
    cases h
    exact Or.inr ⟨hne, by rw [powMargin_eq_ok hm]⟩

/-- A power rounded down is the plain one if that is exact, or else the plain one without its margin,
if that is more than nothing. -/
theorem powDown_eq_ok {base exponent q : Int} (h : powDown base exponent = .ok q) :
    ∃ raw, pow base exponent = .ok raw ∧
      ((IsExactPower base exponent ∧ q = raw) ∨
        (¬ IsExactPower base exponent ∧
          ((0 < q ∧ q = raw - (ceilDiv (raw * powError) one + 1)) ∨ q = 0))) := by
  obtain ⟨raw, hraw, h⟩ := Outcome.bind_eq_ok.1 h
  refine ⟨raw, hraw, ?_⟩
  split at h
  case isTrue hexact =>
    cases h
    exact Or.inl ⟨hexact, rfl⟩
  case isFalse hne =>
    obtain ⟨m, hm, h⟩ := Outcome.bind_eq_ok.1 h
    rw [powMargin_eq_ok hm] at h
    refine Or.inr ⟨hne, ?_⟩
    split at h
    · cases h
      exact Or.inl ⟨by omega, rfl⟩
    · cases h
      exact Or.inr rfl

theorem powUp_nonneg {base exponent : Int} (h : powUp base exponent = .ok q) : 0 ≤ q := by
  obtain ⟨raw, hraw, h⟩ := Outcome.bind_eq_ok.1 h
  split at h
  case isTrue hexact =>
    cases h
    obtain ⟨hbase, -, hraw⟩ := pow_eq_ok_iff.1 hraw
    unfold IsExactPower at hexact
    split at hraw
    · cases hraw; decide
    · split at hraw
      · cases hraw; decide
      · split at hraw
        · cases hraw; exact hbase.1
        · split at hraw
          · cases hraw; decide
          · omega
  case isFalse =>
    obtain ⟨m, hm, h⟩ := Outcome.bind_eq_ok.1 h
    obtain ⟨up, hup, hm⟩ := Outcome.bind_eq_ok.1 hm
    cases h
    cases hm
    have := (mulDivUp_eq_ok_iff.1 hup).1.1.1
    have := mulDivUp_nonneg hup
    omega

end FixedPoint

namespace Curve

open Number FixedPoint

variable {amount fee r : Int}

theorem requirePositive_eq_ok_iff {field : String} :
    requirePositive field amount = .ok () ↔ 0 < amount := by
  unfold requirePositive
  split
  · exact iff_of_false (fun h => nomatch h) (by omega)
  · exact iff_of_true rfl (by omega)

/-- A fee leaves no more than all of an input. -/
theorem afterFee_le (hfee : 0 ≤ fee) (h : afterFee amount fee = .ok r) : r ≤ amount := by
  obtain ⟨q, hq, h⟩ := Outcome.bind_eq_ok.1 h
  obtain ⟨⟨ha, -, -, hd⟩, rfl, -⟩ := mulDivUp_eq_ok_iff.1 hq
  cases h
  have := ceilDiv_nonneg (Int.mul_nonneg ha.1 hfee) hd
  omega

/-- A fee does not take more than all of an input. -/
theorem afterFee_nonneg (hfee : fee ≤ bpsWhole) (h : afterFee amount fee = .ok r) : 0 ≤ r := by
  obtain ⟨q, hq, h⟩ := Outcome.bind_eq_ok.1 h
  obtain ⟨⟨ha, -, -, hd⟩, rfl, -⟩ := mulDivUp_eq_ok_iff.1 hq
  cases h
  have := (ceilDiv_le_iff hd).2 (Int.mul_le_mul_of_nonneg_left hfee ha.1)
  omega

/-- A fee leaves something between nothing and all of an output. -/
theorem lessFee_mem (hfee : 0 ≤ fee) (h : lessFee amount fee = .ok r) : 0 ≤ r ∧ r ≤ amount := by
  obtain ⟨⟨ha, hb, -, hd⟩, rfl, -⟩ := mulDivDown_eq_ok_iff.1 h
  exact ⟨floorDiv_nonneg (Int.mul_nonneg ha.1 hb.1) hd,
    floorDiv_mul_le_of_le ha.1 hd (by omega)⟩

/-- What is asked before a fee is no less than what is to be left. -/
theorem le_beforeFee (hfee : 0 ≤ fee) (h : beforeFee amount fee = .ok r) :
    0 ≤ amount ∧ amount ≤ r := by
  obtain ⟨⟨ha, -, -, hd⟩, rfl, -⟩ := mulDivUp_eq_ok_iff.1 h
  refine ⟨ha.1, Int.not_lt.1 fun hlt => ?_⟩
  have hcover := le_ceilDiv_mul (amount * bpsWhole) hd
  have h1 : ceilDiv (amount * bpsWhole) (bpsWhole - fee) * (bpsWhole - fee) <
      amount * (bpsWhole - fee) := Int.mul_lt_mul_of_pos_right hlt hd
  have h2 : amount * (bpsWhole - fee) ≤ amount * bpsWhole :=
    Int.mul_le_mul_of_nonneg_left (by omega) ha.1
  omega

end Curve

end SwapMachine
