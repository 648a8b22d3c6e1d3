import SwapMachine.Curve.Power
import SwapMachine.Proofs.Quotient

/-!
# SwapMachine.Proofs.Delivery — quotes for a fixed output deliver it

The estimate of `Power.exactOut` comes from approximate powers, so what can be said of a quote comes
from the checks by `Power.exactIn` that it has passed: raising stops at a candidate that delivers,
and bisection keeps to candidates that do.

* `Delivers t c`: the input `c` gives the output that is asked for.
* `delivers_of_exactOut`: the input of a quote does.
-/

namespace SwapMachine

/-- A test of a result comes out as the result does. -/
theorem Outcome.test_eq_ok_iff {x : Outcome Int} {P : Int → Prop} [DecidablePred P] {b : Bool} :
    (do return decide (P (← x)) : Outcome Bool) = .ok b ↔ ∃ a, x = .ok a ∧ (P a ↔ b = true) := by
  rw [Outcome.bind_eq_ok]
  refine exists_congr fun a => and_congr_right fun _ => ?_
  constructor
  · intro h
    cases h
    exact decide_eq_true_iff.symm
  · intro h
    exact congrArg Except.ok (Bool.eq_iff_iff.2 (decide_eq_true_iff.trans h))

namespace Curve.Power

open FixedPoint

theorem requireBalances_eq_ok_iff {balanceIn balanceOut : Int} :
    requireBalances balanceIn balanceOut = .ok () ↔ 0 < balanceIn ∧ 0 < balanceOut := by
  unfold requireBalances
  split
  · exact iff_of_false (fun h => nomatch h) (by omega)
  · split
    · exact iff_of_false (fun h => nomatch h) (by omega)
    · exact iff_of_true rfl (by omega)

theorem requireTarget_eq_ok {t : Target} (h : requireTarget t = .ok ()) :
    (0 < t.balanceIn ∧ 0 < t.balanceOut) ∧ 0 < t.amountOut ∧ t.amountOut < t.balanceOut := by
  obtain ⟨⟨⟩, hb, h⟩ := Outcome.bind_eq_ok.1 h
  obtain ⟨⟨⟩, -, h⟩ := Outcome.bind_eq_ok.1 h
  obtain ⟨⟨⟩, hpos, h⟩ := Outcome.bind_eq_ok.1 h
  split at h
  · cases h
  · exact ⟨requireBalances_eq_ok_iff.1 hb, requirePositive_eq_ok_iff.1 hpos, by omega⟩

theorem exactIn_eq_ok {balanceIn balanceOut amountIn alpha out : Int}
    (h : exactIn balanceIn balanceOut amountIn alpha = .ok out) :
    0 < balanceIn ∧ 0 < balanceOut ∧ 0 < amountIn ∧
      outputFor balanceIn balanceOut amountIn alpha = .ok out := by
  obtain ⟨⟨⟩, hb, h⟩ := Outcome.bind_eq_ok.1 h
  obtain ⟨⟨⟩, -, h⟩ := Outcome.bind_eq_ok.1 h
  obtain ⟨⟨⟩, ha, h⟩ := Outcome.bind_eq_ok.1 h
  rw [requireBalances_eq_ok_iff] at hb
  exact ⟨hb.1, hb.2, requirePositive_eq_ok_iff.1 ha, h⟩

/-- The input gives at least the output that is asked for. -/
def Delivers (t : Target) (c : Int) : Prop :=
  ∃ out, exactIn t.balanceIn t.balanceOut c t.alpha = .ok out ∧ t.amountOut ≤ out

/-- Bisection ends at a number that passes its test if it starts at one. -/
theorem tighten_passes {isEnough : Int → Outcome Bool} {short enough c : Int}
    (he : isEnough enough = .ok true) (h : tighten isEnough short enough = .ok c) :
    isEnough c = .ok true := by
  fun_induction tighten isEnough short enough with
  | case1 short enough _ middle ih1 ih2 =>
    obtain ⟨b, hb, h⟩ := Outcome.bind_eq_ok.1 h
    cases b with
    | true => exact ih1 hb h
    | false => exact ih2 he h
  | case2 short enough => cases h; exact he

theorem delivers_iff {t : Target} {c : Int} :
    (do return decide (t.amountOut ≤ (← exactIn t.balanceIn t.balanceOut c t.alpha)) : Outcome Bool)
      = .ok true ↔ Delivers t c :=
  Outcome.test_eq_ok_iff.trans (exists_congr fun _ => and_congr_right fun _ => iff_true_right rfl)

theorem delivers_of_settle {t : Target} {candidate c : Int} {short : Option Int}
    (hd : Delivers t candidate) (h : settle t candidate short = .ok c) : Delivers t c := by
  cases short with
  | none => cases h; exact hd
  | some short => exact delivers_iff.1 (tighten_passes (delivers_iff.2 hd) h)

theorem delivers_of_correct {t : Target} {raise : Int → Outcome Int} {left corrections : Nat}
    {candidate step : Int} {short : Option Int} {q : Quote}
    (h : correct t raise left corrections candidate step short = .ok q) :
    q.amountOut = t.amountOut ∧ Delivers t q.amountIn := by
  induction left generalizing corrections candidate step short with
  | zero =>
    obtain ⟨out, hout, h⟩ := Outcome.bind_eq_ok.1 h
    split at h
    · rename_i hle
      obtain ⟨c, hc, h⟩ := Outcome.bind_eq_ok.1 h
      cases h
      exact ⟨rfl, delivers_of_settle ⟨out, hout, hle⟩ hc⟩
    · cases h
  | succ left ih =>
    obtain ⟨out, hout, h⟩ := Outcome.bind_eq_ok.1 h
    split at h
    · rename_i hle
      obtain ⟨c, hc, h⟩ := Outcome.bind_eq_ok.1 h
      cases h
      exact ⟨rfl, delivers_of_settle ⟨out, hout, hle⟩ hc⟩
    · obtain ⟨marginal, -, h⟩ := Outcome.bind_eq_ok.1 h
      obtain ⟨step', -, h⟩ := Outcome.bind_eq_ok.1 h
      exact ih h

/-- **Quotes deliver**: the input of a quote gives at least the output that was asked for. -/
theorem delivers_of_exactOut {balanceIn balanceOut amountOut alpha : Int} {limits : Limits}
    {q : Quote} (h : exactOut balanceIn balanceOut amountOut alpha limits = .ok q) :
    0 < amountOut ∧ q.amountOut = amountOut ∧
      Delivers ⟨balanceIn, balanceOut, amountOut, alpha⟩ q.amountIn := by
  obtain ⟨⟨⟩, ht, h⟩ := Outcome.bind_eq_ok.1 h
  split at h
  · cases h
  · obtain ⟨first, -, h⟩ := Outcome.bind_eq_ok.1 h
    exact ⟨(requireTarget_eq_ok ht).2.1, delivers_of_correct h⟩

end Curve.Power

end SwapMachine
