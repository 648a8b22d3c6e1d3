import Mathlib.Algebra.Order.Ring.Int
import SwapMachine.Curve.Density
import SwapMachine.Curve.Peg
import SwapMachine.Proofs.Delivery

/-!
# SwapMachine.Proofs.Inverse — what is asked for an output and given for an input

Fees and curves go both ways.  The one way is the least that covers the other: what is given for an
input covers an output if and only if the input covers what is asked for the output.

* `net`: what a fee leaves, on either side; `le_net_iff`, `net_of_beforeFee`.
* `Peg.le_exactIn_iff`, `Power.le_exactIn_iff`, `Density.le_exactIn_iff`: the same of the peg, of the
  constant product and of density curves.
* `Power.le_exactIn_of_exactOut`: at any exponent, what is asked for an output does cover it.
-/

namespace SwapMachine.Curve

open FixedPoint Number

variable {balanceIn balanceOut given wanted asked out : Int}

/-! ### Fees -/

section Fee

variable {amount fee r : Int}

theorem bpsWhole_pos : 0 < bpsWhole := by decide

/-- What a fee leaves of an amount. -/
def net (amount fee : Int) : Int := floorDiv (amount * (bpsWhole - fee)) bpsWhole

theorem eq_net_of_lessFee (h : lessFee amount fee = .ok r) : r = net amount fee :=
  (mulDivDown_eq_ok_iff.1 h).2.1.symm

/-- To take a fee that is rounded up is to leave an amount that is rounded down. -/
theorem eq_net_of_afterFee (h : afterFee amount fee = .ok r) : r = net amount fee := by
  obtain ⟨q, hq, h⟩ := Outcome.bind_eq_ok.1 h
  obtain ⟨⟨-, -, -, hd⟩, rfl, -⟩ := mulDivUp_eq_ok_iff.1 hq
  cases h
  rw [sub_ceilDiv _ _ hd, net, Int.mul_sub]

/-- **Fees**: an amount leaves what is wanted if and only if it covers what is asked. -/
theorem le_net_iff (h : beforeFee wanted fee = .ok asked) :
    wanted ≤ net amount fee ↔ asked ≤ amount := by
  obtain ⟨⟨-, -, -, hd⟩, rfl, -⟩ := mulDivUp_eq_ok_iff.1 h
  rw [net, le_floorDiv_iff bpsWhole_pos, ceilDiv_le_iff hd]

theorem net_lt_iff (h : beforeFee wanted fee = .ok asked) :
    net amount fee < wanted ↔ amount < asked := by
  rw [← Int.not_le, ← Int.not_le, le_net_iff h]

/-- What is asked leaves just what is wanted. -/
theorem net_of_beforeFee (hfee : 0 ≤ fee) (h : beforeFee wanted fee = .ok asked) :
    net asked fee = wanted := by
  refine Int.le_antisymm (Int.lt_add_one_iff.1 ?_) ((le_net_iff h).2 (Int.le_refl _))
  obtain ⟨⟨-, -, -, hd⟩, rfl, -⟩ := mulDivUp_eq_ok_iff.1 h
  refine (floorDiv_lt_iff bpsWhole_pos).2 ?_
  have hless : (ceilDiv (wanted * bpsWhole) (bpsWhole - fee) - 1) * (bpsWhole - fee) <
      wanted * bpsWhole := (lt_ceilDiv_iff hd).1 (by omega)
  rw [Int.sub_mul, Int.one_mul] at hless
  rw [Int.add_mul, Int.one_mul]
  omega

theorem isUint_of_beforeFee (h : beforeFee wanted fee = .ok asked) : IsUint asked := by
  obtain ⟨⟨ha, hb, -, hd⟩, rfl, hle⟩ := mulDivUp_eq_ok_iff.1 h
  exact ⟨ceilDiv_nonneg (Int.mul_nonneg ha.1 hb.1) hd, hle⟩

theorem isUint_bps (h : 0 ≤ fee ∧ fee < bpsWhole) : IsUint fee ∧ IsUint (bpsWhole - fee) := by
  have hwhole : bpsWhole ≤ maxUint := by decide
  unfold IsUint
  omega

/-- A fee can be taken from any amount of 256 bits. -/
theorem lessFee_of_isUint (hfee : 0 ≤ fee ∧ fee < bpsWhole) (h : IsUint amount) :
    lessFee amount fee = .ok (net amount fee) := by
  refine mulDivDown_eq_ok_iff.2 ⟨⟨h, (isUint_bps hfee).2, by decide, bpsWhole_pos⟩, rfl, ?_⟩
  exact Int.le_trans (floorDiv_mul_le_of_le h.1 bpsWhole_pos (by omega)) h.2

theorem afterFee_of_isUint (hfee : 0 ≤ fee ∧ fee < bpsWhole) (h : IsUint amount) :
    afterFee amount fee = .ok (net amount fee) := by
  have hquotient : mulDivUp amount fee bpsWhole = .ok (ceilDiv (amount * fee) bpsWhole) := by
    refine mulDivUp_eq_ok_iff.2 ⟨⟨h, (isUint_bps hfee).1, by decide, bpsWhole_pos⟩, rfl, ?_⟩
    refine Int.le_trans ((ceilDiv_le_iff bpsWhole_pos).2 ?_) h.2
    exact Int.mul_le_mul_of_nonneg_left (Int.le_of_lt hfee.2) h.1
  have hafter : afterFee amount fee = .ok (amount - ceilDiv (amount * fee) bpsWhole) := by
    rw [afterFee, hquotient]
    rfl
  rw [hafter, eq_net_of_afterFee hafter]

end Fee

/-! ### The peg -/

/-- **The peg**: what is given covers an output if and only if the input covers what is asked. -/
theorem Peg.le_exactIn_iff {rate : Int} (hin : exactIn balanceOut given rate = .ok out)
    (hout : exactOut balanceOut wanted rate = .ok asked) : wanted ≤ out ↔ asked ≤ given := by
  obtain ⟨_, -, hin⟩ := Outcome.bind_eq_ok.1 hin
  obtain ⟨_, -, hin⟩ := Outcome.bind_eq_ok.1 hin
  obtain ⟨_, hdown, hin⟩ := Outcome.bind_eq_ok.1 hin
  obtain ⟨_, -, hin⟩ := Outcome.bind_eq_ok.1 hin
  cases hin
  obtain ⟨_, -, hout⟩ := Outcome.bind_eq_ok.1 hout
  obtain ⟨_, -, hout⟩ := Outcome.bind_eq_ok.1 hout
  obtain ⟨_, -, hup⟩ := Outcome.bind_eq_ok.1 hout
  obtain ⟨⟨-, -, -, hone⟩, rfl, -⟩ := mulDivDown_eq_ok_iff.1 hdown
  obtain ⟨⟨-, -, -, hrate⟩, rfl, -⟩ := mulDivUp_eq_ok_iff.1 hup
  rw [le_floorDiv_iff hone, ceilDiv_le_iff hrate]

/-! ### The power curve -/

namespace Power

variable {alpha : Int} {limits : Limits} {q : Quote}

/-- What is asked for an output covers it. -/
theorem le_exactIn_of_exactOut (hout : exactOut balanceIn balanceOut wanted alpha limits = .ok q)
    (hin : exactIn balanceIn balanceOut q.amountIn alpha = .ok out) : wanted ≤ out := by
  obtain ⟨-, -, out', hout', hle⟩ := delivers_of_exactOut hout
  obtain rfl : out = out' := Except.ok.inj (hin.symm.trans hout')
  exact hle

/-- No more is given than the balance. -/
theorem exactIn_le (h : exactIn balanceIn balanceOut given alpha = .ok out) :
    out ≤ balanceOut ∧ out ≤ maxUint := by
  obtain ⟨hx, hy, hg, h⟩ := exactIn_eq_ok h
  have hshare {a d : Int} (had : a ≤ d) (h : mulDivDown balanceOut a d = .ok out) :
      out ≤ balanceOut ∧ out ≤ maxUint := by
    obtain ⟨⟨-, -, -, hd⟩, rfl, hle⟩ := mulDivDown_eq_ok_iff.1 h
    exact ⟨floorDiv_mul_le_of_le (Int.le_of_lt hy) hd had, hle⟩
  unfold outputFor at h
  split at h
  · exact hshare (by omega) h
  · obtain ⟨ratio, -, h⟩ := Outcome.bind_eq_ok.1 h
    obtain ⟨power, hpower, h⟩ := Outcome.bind_eq_ok.1 h
    have hmin : 0 ≤ min power one := Int.le_min.2 ⟨powUp_nonneg hpower, by decide⟩
    exact hshare (by omega) h

/-- Along the constant product an input covers an output if it pays for the share that is left. -/
theorem le_exactIn_one_iff (h : exactIn balanceIn balanceOut given one = .ok out)
    (hwanted : wanted < balanceOut) :
    wanted ≤ out ↔ ceilDiv (balanceIn * wanted) (balanceOut - wanted) ≤ given := by
  obtain ⟨hx, hy, hg, h⟩ := exactIn_eq_ok h
  rw [outputFor, if_pos rfl] at h
  obtain ⟨⟨-, -, -, hd⟩, rfl, -⟩ := mulDivDown_eq_ok_iff.1 h
  rw [le_floorDiv_iff hd, ceilDiv_le_iff (by omega), Int.mul_add, Int.mul_sub,
    Int.mul_comm balanceIn wanted, Int.mul_comm balanceOut given, Int.mul_comm wanted given]
  omega

theorem isUint_of_exactIn (h : exactIn balanceIn balanceOut given alpha = .ok out) :
    IsUint balanceOut ∧ IsUint (balanceIn + given) := by
  obtain ⟨-, -, -, h⟩ := exactIn_eq_ok h
  unfold outputFor at h
  split at h
  · obtain ⟨⟨hy, -, hsum, -⟩, -⟩ := mulDivDown_eq_ok_iff.1 h
    exact ⟨hy, hsum⟩
  · obtain ⟨_, hratio, h⟩ := Outcome.bind_eq_ok.1 h
    obtain ⟨_, -, h⟩ := Outcome.bind_eq_ok.1 h
    obtain ⟨⟨-, -, hsum, -⟩, -⟩ := mulDivUp_eq_ok_iff.1 hratio
    exact ⟨(mulDivDown_eq_ok_iff.1 h).1.1, hsum⟩

/-- The constant product gives an output wherever the balances are 256-bit unsigned numbers. -/
theorem exactIn_one_of_isUint (hx : 0 < balanceIn) (hy : 0 < balanceOut ∧ IsUint balanceOut)
    (hg : 0 < given) (hsum : IsUint (balanceIn + given)) :
    exactIn balanceIn balanceOut given one =
      .ok (floorDiv (balanceOut * given) (balanceIn + given)) := by
  have hle : floorDiv (balanceOut * given) (balanceIn + given) ≤ balanceOut :=
    floorDiv_mul_le_of_le (Int.le_of_lt hy.1) (by omega) (by omega)
  have hmax := hy.2.2
  have hsummax := hsum.2
  have hdiv : outputFor balanceIn balanceOut given one =
      .ok (floorDiv (balanceOut * given) (balanceIn + given)) := by
    rw [outputFor, if_pos rfl]
    exact mulDivDown_eq_ok_iff.2
      ⟨⟨hy.2, ⟨by omega, by omega⟩, hsum, by omega⟩, rfl, by omega⟩
  exact Outcome.bind_eq_ok.2 ⟨(), requireBalances_eq_ok_iff.2 ⟨hx, hy.1⟩,
    Outcome.bind_eq_ok.2 ⟨(), rfl, Outcome.bind_eq_ok.2 ⟨(), requirePositive_eq_ok_iff.2 hg, hdiv⟩⟩⟩

section Correct

variable {t : Target} {raise : Int → Outcome Int} {left corrections : Nat} {candidate step : Int}

/-- A candidate that delivers at once is the quote. -/
theorem correct_of_delivers (h : Delivers t candidate) :
    correct t raise left corrections candidate step none =
      .ok ⟨candidate, t.amountOut, corrections⟩ := by
  obtain ⟨out, hout, hle⟩ := h
  cases left <;>
  · rw [correct, hout]
    exact if_pos hle

theorem exists_exactIn_of_correct {short : Option Int}
    (h : correct t raise left corrections candidate step short = .ok q) :
    ∃ out, exactIn t.balanceIn t.balanceOut candidate t.alpha = .ok out := by
  cases left <;>
  · obtain ⟨out, hout, -⟩ := Outcome.bind_eq_ok.1 h
    exact ⟨out, hout⟩

end Correct

/-- Along the constant product the first estimate is what is asked. -/
theorem exactOut_one (h : exactOut balanceIn balanceOut wanted one limits = .ok q) :
    wanted < balanceOut ∧
      q = ⟨ceilDiv (balanceIn * wanted) (balanceOut - wanted), wanted, 0⟩ := by
  obtain ⟨⟨⟩, ht, h⟩ := Outcome.bind_eq_ok.1 h
  obtain ⟨⟨hx, hy⟩, hpos, hlt⟩ := requireTarget_eq_ok ht
  split at h
  · cases h
  · dsimp only at hx hy hpos hlt h
    obtain ⟨first, hfirst, h⟩ := Outcome.bind_eq_ok.1 h
    obtain ⟨quotient, hquotient, hfirst⟩ := Outcome.bind_eq_ok.1 hfirst
    cases hfirst
    rw [estimate, if_pos rfl] at hquotient
    obtain ⟨_, -, hquotient⟩ := Outcome.bind_eq_ok.1 hquotient
    dsimp only at hquotient
    rw [if_neg (by omega)] at hquotient
    cases hquotient
    have hpos' : 0 < ceilDiv (balanceIn * wanted) (balanceOut - wanted) :=
      ceilDiv_pos (Int.mul_pos hx hpos) (by omega)
    rw [Int.max_eq_right (by omega)] at h
    obtain ⟨out, hout⟩ := exists_exactIn_of_correct h
    rw [correct_of_delivers ⟨out, hout, (le_exactIn_one_iff hout hlt).2 (Int.le_refl _)⟩] at h
    exact ⟨hlt, (Except.ok.inj h).symm⟩

/-- **The constant product**: what is given covers an output if and only if the input covers what is
asked. -/
theorem le_exactIn_iff (hin : exactIn balanceIn balanceOut given one = .ok out)
    (hout : exactOut balanceIn balanceOut wanted one limits = .ok q) :
    wanted ≤ out ↔ q.amountIn ≤ given := by
  obtain ⟨hlt, rfl⟩ := exactOut_one hout
  exact le_exactIn_one_iff hin hlt

end Power

/-! ### Density curves -/

namespace Density

variable {c : Density} {sold sold' m m' a a' : Int}

/-- The unit that amounts along the curve are counted in. -/
def unit (c : Density) : Int :=
  ((c.shape.degree + 1 : Nat) : Int) * Int.pow c.capacity c.shape.degree

/-- The integral of the price over a stretch, before it is divided. -/
def integral (c : Density) (sold m : Int) : Int :=
  c.basePrice * (one * c.unit * m +
    c.strength * (Int.pow (sold + m) (c.shape.degree + 1) - Int.pow sold (c.shape.degree + 1)))

theorem unit_pos (c : Density) : 0 < c.unit :=
  Int.mul_pos (Int.natCast_pos.2 (Nat.succ_pos _)) (Int.pow_pos c.capacity_pos)

theorem integral_zero (c : Density) (sold : Int) : c.integral sold 0 = 0 := by simp [integral]

/-- The cost is one integral, divided and rounded once. -/
theorem cost_eq (hm : 0 ≤ m) :
    c.cost sold m = .ok (ceilDiv (c.integral sold m) (one * one * c.unit)) := by
  have hunit : 0 < one * one * c.unit := Int.mul_pos (by decide) c.unit_pos
  unfold cost
  split
  · rename_i hzero
    rw [hzero, integral_zero, ceilDiv_zero]
  · rename_i hne
    have hpos : 0 < m := by omega
    have hnum : c.basePrice * (m * one * (c.unit * (sold + m - sold)) + c.strength * m *
        (Int.pow (sold + m) (c.shape.degree + 1) - Int.pow sold (c.shape.degree + 1))) =
        m * c.integral sold m := by
      unfold integral
      grind
    have hden : one * one * (c.unit * (sold + m - sold)) = m * (one * one * c.unit) := by
      grind
    show divideUp (c.basePrice * (m * one * (c.unit * (sold + m - sold)) + c.strength * m *
        (Int.pow (sold + m) (c.shape.degree + 1) - Int.pow sold (c.shape.degree + 1))))
      (one * one * (c.unit * (sold + m - sold))) = _
    rw [hnum, hden, divideUp, if_neg (Int.ne_of_gt (Int.mul_pos hpos hunit)),
      ceilDiv_mul_left hpos hunit]

theorem integral_le_integral (hsold : 0 ≤ sold) (hm : 0 ≤ m) (h : m ≤ m') :
    c.integral sold m ≤ c.integral sold m' := by
  have hpow : Int.pow (sold + m) (c.shape.degree + 1) ≤ Int.pow (sold + m') (c.shape.degree + 1) :=
    pow_le_pow_left₀ (by omega) (by omega) _
  have hline : one * c.unit * m ≤ one * c.unit * m' :=
    Int.mul_le_mul_of_nonneg_left h (Int.le_of_lt (Int.mul_pos (by decide) c.unit_pos))
  refine Int.mul_le_mul_of_nonneg_left ?_ (Int.le_of_lt c.basePrice_pos)
  exact Int.add_le_add hline (Int.mul_le_mul_of_nonneg_left (by omega) c.strength_nonneg)

theorem integral_nonneg (hsold : 0 ≤ sold) (hm : 0 ≤ m) : 0 ≤ c.integral sold m :=
  c.integral_zero sold ▸ integral_le_integral hsold (Int.le_refl 0) hm

/-- What a stretch is charged is its cost with the spread. -/
theorem charge_eq_ok_iff (hm : 0 ≤ m) : c.charge sold m = .ok a ↔
    mulDivUp (ceilDiv (c.integral sold m) (one * one * c.unit)) (bpsWhole + c.spread) bpsWhole =
      .ok a := by
  unfold charge
  rw [cost_eq hm]
  refine (check_bind_eq_ok requireUint_eq_ok_iff).trans ?_
  rw [if_neg (not_not_intro ⟨c.spread_nonneg, c.spread_lt⟩), if_pos rfl]
  exact and_iff_right_of_imp fun h => (mulDivUp_eq_ok_iff.1 h).1.1

/-- A stretch can be charged where one that is worth no less can, and no more is. -/
theorem exists_charge_of_integral_le (hsold : 0 ≤ sold) (hm : 0 ≤ m) (hm' : 0 ≤ m')
    (h : c.integral sold m ≤ c.integral sold' m') (ha' : c.charge sold' m' = .ok a') :
    ∃ a, c.charge sold m = .ok a ∧ a ≤ a' := by
  have hunit : 0 < one * one * c.unit := Int.mul_pos (by decide) c.unit_pos
  obtain ⟨⟨hraw', hfactor, hwhole⟩, rfl, hfits⟩ :=
    mulDivUp_eq_ok_iff.1 ((charge_eq_ok_iff hm').1 ha')
  have hraw := ceilDiv_le_ceilDiv hunit h
  have hprice := ceilDiv_le_ceilDiv bpsWhole_pos (Int.mul_le_mul_of_nonneg_right hraw hfactor.1)
  have huint := ceilDiv_nonneg (integral_nonneg (c := c) hsold hm) hunit
  refine ⟨_, (charge_eq_ok_iff hm).2 (mulDivUp_eq_ok_iff.2 ?_), hprice⟩
  refine ⟨⟨⟨huint, ?_⟩, hfactor, hwhole⟩, rfl, ?_⟩
  · exact Int.le_trans hraw hraw'.2
  · exact Int.le_trans hprice hfits

/-- Less can be charged where more can, and no more is. -/
theorem exists_charge_le (hsold : 0 ≤ sold) (hm : 0 ≤ m) (h : m ≤ m')
    (ha' : c.charge sold m' = .ok a') : ∃ a, c.charge sold m = .ok a ∧ a ≤ a' :=
  exists_charge_of_integral_le hsold hm (Int.le_trans hm h) (integral_le_integral hsold hm h) ha'

/-- More costs no less. -/
theorem charge_le_charge (hsold : 0 ≤ sold) (hm : 0 ≤ m) (h : m ≤ m')
    (ha : c.charge sold m = .ok a) (ha' : c.charge sold m' = .ok a') : a ≤ a' := by
  obtain ⟨b, hb, hle⟩ := exists_charge_le hsold hm h ha'
  obtain rfl : a = b := Except.ok.inj (ha.symm.trans hb)
  exact hle

theorem available_eq_ok_iff {most : Int} : c.available balanceOut = .ok most ↔
    0 ≤ balanceOut ∧ min balanceOut (c.capacity - c.soldAt balanceOut) = most := by
  unfold available Density.sold requireRemainder
  split
  · exact iff_of_false (fun h => nomatch h) (by omega)
  · rename_i hneg
    exact ⟨fun h => ⟨by omega, Except.ok.inj h⟩, fun h => congrArg Except.ok h.2⟩

/-- An output that is left is charged along the curve. -/
theorem exactOut_eq_ok_iff : c.exactOut balanceOut wanted = .ok asked ↔
    0 < wanted ∧ 0 ≤ balanceOut ∧ wanted ≤ min balanceOut (c.capacity - c.soldAt balanceOut) ∧
      c.charge (c.soldAt balanceOut) wanted = .ok asked := by
  refine (check_bind_eq_ok requirePositive_eq_ok_iff).trans (and_congr_right fun _ => ?_)
  constructor
  · intro h
    obtain ⟨most, hmost, h⟩ := Outcome.bind_eq_ok.1 h
    obtain ⟨hbalance, rfl⟩ := available_eq_ok_iff.1 hmost
    split at h
    · cases h
    · exact ⟨hbalance, by omega, h⟩
  · rintro ⟨hbalance, hle, h⟩
    refine Outcome.bind_eq_ok.2 ⟨_, available_eq_ok_iff.2 ⟨hbalance, rfl⟩, ?_⟩
    rw [if_neg (by omega)]
    exact h

/-- Bisection ends between its bounds, at the lower one or at a number that is affordable, and below
the upper one only where the next number is not. -/
theorem bisect_eq_ok {isAffordable : Int → Outcome Bool} {lo hi : Int}
    (h : bisect isAffordable lo hi = .ok out) : lo ≤ out ∧ out ≤ max lo hi ∧
      (out = lo ∨ isAffordable out = .ok true) ∧
      (hi ≤ out ∨ isAffordable (out + 1) = .ok false) := by
  fun_induction bisect isAffordable lo hi with
  | case1 lo hi hlt middle ih1 ih2 =>
    obtain ⟨b, hb, h⟩ := Outcome.bind_eq_ok.1 h
    have hmiddle : middle = (lo + hi + 1) / 2 := Int.fdiv_eq_ediv_of_nonneg _ (by decide)
    cases b with
    | true =>
      obtain ⟨hle, hmax, hpasses, hfails⟩ := ih1 h
      refine ⟨by omega, by omega, Or.inr ?_, hfails⟩
      exact hpasses.elim (fun heq => heq ▸ hb) id
    | false =>
      obtain ⟨hle, hmax, hpasses, hfails⟩ := ih2 h
      refine ⟨hle, by omega, hpasses, Or.inr ?_⟩
      refine hfails.elim (fun hge => ?_) id
      rwa [show out + 1 = middle by omega]
  | case2 lo hi hge =>
    cases h
    exact ⟨Int.le_refl _, by omega, Or.inl rfl, Or.inl (by omega)⟩

/-- **Density curves**: what is given covers an output if and only if the input covers what is asked.
-/
theorem le_exactIn_iff (hin : c.exactIn balanceOut given = .ok out)
    (hout : c.exactOut balanceOut wanted = .ok asked) : wanted ≤ out ↔ asked ≤ given := by
  obtain ⟨_, -, hin⟩ := Outcome.bind_eq_ok.1 hin
  obtain ⟨most, hmost, hin⟩ := Outcome.bind_eq_ok.1 hin
  obtain ⟨-, rfl⟩ := available_eq_ok_iff.1 hmost
  obtain ⟨hpos, -, hle, hout⟩ := exactOut_eq_ok_iff.1 hout
  have hsold : 0 ≤ c.soldAt balanceOut := Int.le_max_left 0 _
  obtain ⟨hnonneg, -, hpaid, hnext⟩ := bisect_eq_ok hin
  constructor
  · intro hcovers
    obtain ⟨paid, hpaid, hgiven⟩ := Outcome.test_eq_ok_iff.1 (hpaid.resolve_left (by omega))
    have hgiven := hgiven.2 rfl
    have := charge_le_charge hsold (Int.le_of_lt hpos) hcovers hout hpaid
    omega
  · intro hpays
    refine Int.not_lt.1 fun hshort => ?_
    obtain ⟨cost, hcost, hgiven⟩ := Outcome.test_eq_ok_iff.1 (hnext.resolve_left (by omega))
    have hgiven : ¬ cost ≤ given := fun h => Bool.false_ne_true (hgiven.1 h)
    have := charge_le_charge hsold (by omega) (by omega) hcost hout
    omega

end Density

end SwapMachine.Curve
