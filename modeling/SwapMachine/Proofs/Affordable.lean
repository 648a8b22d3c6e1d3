import Mathlib.Order.Bounds.Basic
import SwapMachine.Proofs.Blame
import SwapMachine.Proofs.Inverse

/-!
# SwapMachine.Proofs.Affordable — the largest output that an input pays for

Bisection along a density curve asks for the prices of outputs far above the one that it ends at.
While what it asks for is affordable it halves what is left to sell, so after `k` steps it has come
to `most - most / 2 ^ k`.  Prices rise with the output, and one that does not fit in 256 bits is
refused; then no output is given, although a lesser one may be affordable.

* `overflows_charge`: a price fails in no other way.
* `Affords c sold paid m`: the input pays for the output.
* `exists_bisect_iff`: whether bisection comes to an end, by what it asks for on its way up.
* `exactIn_answers_iff`: hence when an output is given for an input, which then is the largest.
-/

namespace SwapMachine

open FixedPoint Number

/-! ### Numbers that do not fit -/

/-- The cause is a number that does not fit in 256 bits. -/
def IsOverflow (f : Fault) : Prop := f.kind = .mathOverflowError

namespace FixedPoint

theorem overflows_requireUint {z : Int} (hz : 0 ≤ z) (field : String) :
    FailsWithin IsOverflow (requireUint field z) :=
  .ite (fun h => absurd hz (Int.not_le.2 h)) fun _ =>
    .ite (fun _ => failsWithin_error rfl) fun _ => failsWithin_ok

theorem overflows_mulDivUp {a b d : Int} (ha : 0 ≤ a) (hb : 0 ≤ b) (hd : 0 < d) :
    FailsWithin IsOverflow (mulDivUp a b d) :=
  .bind (.bind (overflows_requireUint ha _) fun _ _ => .bind (overflows_requireUint hb _) fun _ _ =>
      .bind (overflows_requireUint (Int.le_of_lt hd) _) fun _ _ =>
        .ite (fun h => absurd h (Int.ne_of_gt hd)) fun _ => failsWithin_ok)
    fun _ _ => .ite (fun _ => failsWithin_error rfl) fun _ => failsWithin_ok

theorem overflows_applySpread {amount spread : Int} (hamount : 0 ≤ amount)
    (hspread : 0 ≤ spread ∧ spread < bpsWhole) :
    FailsWithin IsOverflow (applySpread amount spread true) :=
  .bind (overflows_requireUint hamount _) fun _ _ => .ite (fun h => absurd hspread h) fun _ =>
    .ite (fun _ => overflows_mulDivUp hamount (Int.add_nonneg (by decide) hspread.1) (by decide))
      fun h => absurd rfl h

end FixedPoint

namespace Curve.Density

variable {c : Density} {sold paid price balanceOut most m m' : Int}

/-! ### What an input pays for -/

/-- The input pays for the output, spread included. -/
def Affords (c : Density) (sold paid m : Int) : Prop :=
  ∃ price, c.charge sold m = .ok price ∧ price ≤ paid

theorem Affords.of_le (hsold : 0 ≤ sold) (hm : 0 ≤ m) (hle : m ≤ m')
    (h : c.Affords sold paid m') : c.Affords sold paid m := by
  obtain ⟨price', hprice', hpaid⟩ := h
  obtain ⟨price, hprice, hless⟩ := exists_charge_le hsold hm hle hprice'
  exact ⟨price, hprice, Int.le_trans hless hpaid⟩

theorem charge_zero (c : Density) (sold : Int) : c.charge sold 0 = .ok 0 := by
  have hfactor : IsUint (bpsWhole + c.spread) := by
    have hspread := c.spread_nonneg
    have hless := c.spread_lt
    have hwhole : bpsWhole + bpsWhole ≤ maxUint := by decide
    unfold IsUint
    omega
  rw [charge_eq_ok_iff (Int.le_refl 0), integral_zero, ceilDiv_zero]
  refine mulDivUp_eq_ok_iff.2 ⟨⟨by decide, hfactor, by decide, bpsWhole_pos⟩, ?_, ?_⟩
  · rw [Int.zero_mul, ceilDiv_zero]
  · rw [Int.zero_mul, ceilDiv_zero]
    decide

/-- Nothing is paid for by any input. -/
theorem affords_zero (c : Density) (sold : Int) (hpaid : 0 ≤ paid) : c.Affords sold paid 0 :=
  ⟨0, c.charge_zero sold, hpaid⟩

/-- A price of no less than nothing fails by not fitting alone. -/
theorem overflows_charge (hsold : 0 ≤ sold) (hm : 0 ≤ m) :
    FailsWithin IsOverflow (c.charge sold m) := by
  have hunit : 0 < one * one * c.unit := Int.mul_pos (by decide) c.unit_pos
  refine .bind (cost_eq hm ▸ failsWithin_ok) fun raw hraw => ?_
  obtain rfl := Except.ok.inj ((cost_eq hm).symm.trans hraw)
  exact overflows_applySpread (ceilDiv_nonneg (integral_nonneg hsold hm) hunit)
    ⟨c.spread_nonneg, c.spread_lt⟩

/-! ### Bisection -/

/-- A test that is passed below where it is passed, and that has a result below where it has one. -/
structure IsFalling (test : Int → Outcome Bool) (lo : Int) : Prop where
  passes : ∀ m m', lo ≤ m → m ≤ m' → test m' = .ok true → test m = .ok true
  answers : ∀ m m' b', lo ≤ m → m ≤ m' → test m' = .ok b' → ∃ b, test m = .ok b

variable {test : Int → Outcome Bool} {lo hi : Int}

theorem IsFalling.from_above (h : IsFalling test lo) (hle : lo ≤ m) : IsFalling test m :=
  ⟨fun x y hx => h.passes x y (Int.le_trans hle hx),
    fun x y b hx => h.answers x y b (Int.le_trans hle hx)⟩

/-- Bisection comes to an end where the test has results. -/
theorem exists_bisect (h : ∀ m, lo < m → m ≤ hi → ∃ b, test m = .ok b) :
    ∃ out, bisect test lo hi = .ok out :=
  failsWithin_false_iff.1 <| failsWithin_bisect fun m hlo hhi =>
    failsWithin_false_iff.2 (h m hlo hhi)

/-- The way from a step of bisection that is affordable is the way from the next step. -/
theorem rise_succ {middle : Int} (hmiddle : middle = (lo + hi + 1) / 2) (k : Nat) :
    hi - (hi - lo) / 2 ^ (k + 1) = hi - (hi - middle) / 2 ^ k := by
  have hhalf : hi - middle = (hi - lo) / 2 := by omega
  rw [hhalf, Int.ediv_ediv_of_nonneg (by decide), Int.pow_succ']

theorem rise_mem (hle : lo ≤ hi) (k : Nat) :
    lo ≤ hi - (hi - lo) / 2 ^ k ∧ hi - (hi - lo) / 2 ^ k ≤ hi := by
  have hpow : (0 : Int) < 2 ^ k := Int.pow_pos (by decide)
  have hself := Int.ediv_le_self (2 ^ k) (Int.sub_nonneg_of_le hle)
  have hnonneg := Int.ediv_nonneg (Int.sub_nonneg_of_le hle) (Int.le_of_lt hpow)
  omega

/-- Bisection comes to an end exactly if the test has a result wherever it is asked next on the way
up, while it is passed. -/
theorem exists_bisect_iff (hle : lo ≤ hi) (hlo : test lo = .ok true) (h : IsFalling test lo) :
    (∃ out, bisect test lo hi = .ok out) ↔
      ∀ k, test (hi - (hi - lo) / 2 ^ k) = .ok true →
        ∃ b, test (hi - (hi - lo) / 2 ^ (k + 1)) = .ok b := by
  fun_induction bisect test lo hi with
  | case1 lo hi hlt middle ih1 ih2 =>
    have hmiddle : middle = (lo + hi + 1) / 2 := Int.fdiv_eq_ediv_of_nonneg _ (by decide)
    have hfirst : hi - (hi - lo) / 2 ^ (0 + 1) = middle := by omega
    have hbefore : hi - (hi - lo) / 2 ^ 0 = lo := by omega
    cases hb : test middle with
    | error f =>
      constructor
      · rintro ⟨out, hout⟩
        cases hout
      · intro hall
        obtain ⟨b, hb'⟩ := hall 0 (by rw [hbefore, hlo])
        rw [hfirst, hb] at hb'
        cases hb'
    | ok b =>
      cases b with
      | true =>
        refine (ih1 (by omega) hb (h.from_above (by omega))).trans ?_
        constructor
        · intro hall k hk
          cases k with
          | zero => exact ⟨true, hfirst ▸ hb⟩
          | succ k =>
            rw [rise_succ hmiddle] at hk ⊢
            exact hall k hk
        · intro hall k hk
          rw [← rise_succ hmiddle] at hk ⊢
          exact hall (k + 1) hk
      | false =>
        refine iff_of_true (exists_bisect fun m hm hm' => ?_) fun k hk => ?_
        · exact h.answers m middle false (by omega) (by omega) hb
        · cases k with
          | zero => exact ⟨false, hfirst ▸ hb⟩
          | succ k =>
            -- what is asked later on the way up is not below the middle, which is not affordable
            rw [rise_succ hmiddle] at hk
            have hle' : middle ≤ hi := by omega
            have hpasses := h.passes middle _ (by omega) (rise_mem hle' k).1 hk
            rw [hb] at hpasses
            cases hpasses
  | case2 lo hi hge =>
    obtain rfl : lo = hi := by omega
    refine iff_of_true ⟨lo, rfl⟩ fun k _ => ⟨true, ?_⟩
    rw [Int.sub_self, Int.zero_ediv, Int.sub_zero]
    exact hlo

/-! ### Outputs for an input -/

theorem affords_iff : (do return decide ((← c.charge sold m) ≤ paid) : Outcome Bool) = .ok true ↔
    c.Affords sold paid m :=
  Outcome.test_eq_ok_iff.trans (exists_congr fun _ => and_congr_right fun _ => iff_true_right rfl)

theorem exists_charge_iff :
    (∃ b, (do return decide ((← c.charge sold m) ≤ paid) : Outcome Bool) = .ok b) ↔
      ∃ price, c.charge sold m = .ok price := by
  constructor
  · rintro ⟨b, hb⟩
    obtain ⟨price, hprice, -⟩ := Outcome.test_eq_ok_iff.1 hb
    exact ⟨price, hprice⟩
  · rintro ⟨price, hprice⟩
    exact ⟨_, Outcome.bind_eq_ok.2 ⟨price, hprice, rfl⟩⟩

theorem isFalling_affords (c : Density) (paid : Int) (hsold : 0 ≤ sold) :
    IsFalling (fun m => do return decide ((← c.charge sold m) ≤ paid)) 0 := by
  refine ⟨fun m m' hm hle h => ?_, fun m m' b' hm hle h => ?_⟩
  · exact affords_iff.2 ((affords_iff.1 h).of_le hsold hm hle)
  · obtain ⟨price', hprice'⟩ := exists_charge_iff.1 ⟨b', h⟩
    obtain ⟨price, hprice, -⟩ := exists_charge_le hsold hm hle hprice'
    exact exists_charge_iff.2 ⟨price, hprice⟩

theorem exists_available (c : Density) (h : 0 ≤ balanceOut) :
    ∃ most, c.available balanceOut = .ok most ∧ 0 ≤ most := by
  refine ⟨_, available_eq_ok_iff.2 ⟨h, rfl⟩, ?_⟩
  have hcapacity := c.capacity_pos
  unfold soldAt
  omega

theorem exactIn_eq_bisect (hpaid : 0 < paid) (hmost : c.available balanceOut = .ok most) :
    c.exactIn balanceOut paid =
      bisect (fun m => do return decide ((← c.charge (c.soldAt balanceOut) m) ≤ paid)) 0 most := by
  unfold exactIn
  rw [requirePositive_eq_ok_iff.2 hpaid, hmost]
  rfl

/-- An affordable output is the largest one if the next is not affordable, or not there. -/
theorem isGreatest_affords (hsold : 0 ≤ sold) (hm : 0 ≤ m ∧ m ≤ most) (h : c.Affords sold paid m)
    (hnext : most ≤ m ∨ ¬ c.Affords sold paid (m + 1)) :
    IsGreatest {m | 0 ≤ m ∧ m ≤ most ∧ c.Affords sold paid m} m := by
  refine ⟨⟨hm.1, hm.2, h⟩, fun m' ⟨_, hle', h'⟩ => Int.not_lt.1 fun hlt => ?_⟩
  rcases hnext with hge | hnext
  · omega
  · exact hnext (h'.of_le hsold (by omega) hlt)

theorem not_affords (h : c.charge sold m = .ok price) (hless : paid < price) :
    ¬ c.Affords sold paid m := by
  rintro ⟨price', h', hle⟩
  rw [h] at h'
  cases h'
  omega

/-- **Outputs for an input**: an output is given exactly if, wherever the input pays for all but a
`2 ^ k`-th of what is left to sell, the price of all but half as much fits in 256 bits.  It is then
the largest that the input pays for; there is no failure other than by a number that does not fit. -/
theorem exactIn_answers_iff (c : Density) (hbalance : 0 ≤ balanceOut) (hpaid : 0 < paid) :
    ∃ most, c.available balanceOut = .ok most ∧
      ((∃ m, c.exactIn balanceOut paid = .ok m) ↔
        ∀ k, c.Affords (c.soldAt balanceOut) paid (most - most / 2 ^ k) →
          ∃ price, c.charge (c.soldAt balanceOut) (most - most / 2 ^ (k + 1)) = .ok price) ∧
      (∀ m, c.exactIn balanceOut paid = .ok m →
        IsGreatest {m | 0 ≤ m ∧ m ≤ most ∧ c.Affords (c.soldAt balanceOut) paid m} m) ∧
      FailsWithin IsOverflow (c.exactIn balanceOut paid) := by
  obtain ⟨most, hmost, hnonneg⟩ := c.exists_available hbalance
  have hsold : 0 ≤ c.soldAt balanceOut := Int.le_max_left 0 _
  have hfalling := c.isFalling_affords paid hsold
  have hzero := c.affords_zero (c.soldAt balanceOut) (Int.le_of_lt hpaid)
  refine ⟨most, hmost, ?_, fun m h => ?_, ?_⟩
  · rw [exactIn_eq_bisect hpaid hmost, exists_bisect_iff hnonneg (affords_iff.2 hzero) hfalling]
    refine forall_congr' fun k => ?_
    rw [Int.sub_zero, affords_iff, exists_charge_iff]
  · rw [exactIn_eq_bisect hpaid hmost] at h
    obtain ⟨hm, hle, hpasses, hnext⟩ := bisect_eq_ok h
    have haffords : c.Affords (c.soldAt balanceOut) paid m := by
      rcases hpasses with rfl | hpasses
      · exact hzero
      · exact affords_iff.1 hpasses
    refine isGreatest_affords hsold ⟨hm, by omega⟩ haffords (hnext.imp_right fun hfails h => ?_)
    rw [affords_iff.2 h] at hfails
    cases hfails
  · rw [exactIn_eq_bisect hpaid hmost]
    exact failsWithin_bisect fun m hm _ =>
      .bind (overflows_charge hsold (Int.le_of_lt hm)) fun _ _ => failsWithin_pure

/-- A curve whose price is one at every position, at 36 places. -/
def flat (capacity : Int) (h : 0 < capacity) : Density :=
  ⟨capacity, one * one, 0, .constant, 0, h, by decide, by decide, by decide, by decide⟩

theorem charge_flat {capacity : Int} (h : 0 < capacity) (hm : 0 ≤ m) (hfits : m * one ≤ maxUint) :
    (flat capacity h).charge sold m = .ok (m * one) := by
  have hunit : (flat capacity h).unit = 1 := by
    simp [unit, flat, Shape.degree]
  have hintegral : (flat capacity h).integral sold m = m * one * (one * one * 1) := by
    rw [integral, hunit]
    grind [flat]
  have huint : IsUint (m * one) := ⟨Int.mul_nonneg hm (by decide), hfits⟩
  have hfactor : bpsWhole + (flat capacity h).spread = bpsWhole := rfl
  rw [charge_eq_ok_iff hm, hunit, hintegral, ceilDiv_mul_cancel _ (by decide), hfactor,
    mulDivUp_eq_ok_iff]
  have hquotient := ceilDiv_mul_cancel (m * one) bpsWhole_pos
  exact ⟨⟨huint, by decide, by decide, bpsWhole_pos⟩, hquotient, hquotient.symm ▸ hfits⟩

/-- One at 18 places pays for one unit. -/
theorem isGreatest_flat {capacity : Int} (h : 0 < capacity) :
    IsGreatest {m | 0 ≤ m ∧ m ≤ capacity ∧ (flat capacity h).Affords 0 one m} 1 :=
  isGreatest_affords (Int.le_refl 0) ⟨by decide, h⟩
    ⟨_, charge_flat h (by decide) (by decide), by decide⟩
    (.inr (not_affords (charge_flat h (by decide) (by decide)) (by decide)))

/-- The price of all that is left does not fit, but that of half of it does: the unit is given. -/
theorem exactIn_answers_half :
    (flat (2 * 10 ^ 59) (by decide)).charge 0 (2 * 10 ^ 59) = .error (.math (.tooWide "amount")) ∧
      (flat (2 * 10 ^ 59) (by decide)).exactIn (2 * 10 ^ 59) one = .ok 1 := by
  refine ⟨by rfl, ?_⟩
  have hbalance : (0 : Int) ≤ 2 * 10 ^ 59 := by decide
  have hpaid : 0 < one := by decide
  have hall : (flat (2 * 10 ^ 59) (by decide)).available (2 * 10 ^ 59) = .ok (2 * 10 ^ 59) := by rfl
  obtain ⟨most, hmost, hanswers, hfound, -⟩ := exactIn_answers_iff (flat (2 * 10 ^ 59) (by decide)) hbalance hpaid
  obtain rfl : 2 * 10 ^ 59 = most := Except.ok.inj (hall.symm.trans hmost)
  have hhalf : (flat (2 * 10 ^ 59) (by decide)).charge 0 (10 ^ 59) = .ok (10 ^ 59 * one) :=
    charge_flat _ (by decide) (by decide)
  obtain ⟨m, hm⟩ := hanswers.2 fun k hk => by
    cases k with
    | zero => exact ⟨_, hhalf⟩
    | succ k =>
      -- half is not affordable, and what is asked later is not below it
      have hmiddle : (10 ^ 59 : Int) = (0 + 2 * 10 ^ 59 + 1) / 2 := by decide
      have hrise : (10 ^ 59 : Int) ≤ 2 * 10 ^ 59 := by decide
      have hle := (rise_mem hrise k).1
      rw [← rise_succ hmiddle, Int.sub_zero] at hle
      exact absurd (hk.of_le (by decide) (by decide) hle) (not_affords hhalf (by decide))
  rw [hm, (hfound m hm).unique (isGreatest_flat _)]

/-- Where the price of half of what is left does not fit either, the unit is not given. -/
theorem exactIn_tooWide :
    IsGreatest {m | 0 ≤ m ∧ m ≤ 10 ^ 60 ∧ (flat (10 ^ 60) (by decide)).Affords 0 one m} 1 ∧
      (flat (10 ^ 60) (by decide)).exactIn (10 ^ 60) one = .error (.math (.tooWide "amount")) := by
  refine ⟨isGreatest_flat _, ?_⟩
  have hall : (flat (10 ^ 60) (by decide)).available (10 ^ 60) = .ok (10 ^ 60) := by rfl
  rw [exactIn_eq_bisect (by decide) hall, bisect, if_pos (by decide)]
  rfl

end Curve.Density

end SwapMachine
