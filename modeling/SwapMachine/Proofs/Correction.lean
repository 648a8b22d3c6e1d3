import SwapMachine.Proofs.Failure
import SwapMachine.Proofs.Inverse

/-!
# SwapMachine.Proofs.Correction — quotes for a fixed output, raised and trimmed

A candidate that falls short is raised.  Every raise is above zero, so candidates rise, and the one
before falls short.  Bisection between it and one that delivers keeps a lower end that falls short
and an upper one that delivers until they are neighbours.  That `exactIn` rises with its input is
not used anywhere.

* `FallsShort t c`: the input `c` gives less than the output that is asked for.
* `quote_settled`: what the input of a quote gives, and the input next below it.
* `exactOut_one_eq_ite`: along the constant product a quote is given exactly where a product of
  amounts fits in 256 bits, although what it asks may fit where the product does not.
-/

namespace SwapMachine.Curve.Power

open FixedPoint Number

variable {t : Target} {short : Option Int} {candidate step : Int} {left corrections : Nat}
  {balanceIn balanceOut given wanted alpha out : Int} {limits : Limits} {q : Quote}

/-! ### Trimmed quotes -/

/-- The input gives less than the output that is asked for. -/
def FallsShort (t : Target) (c : Int) : Prop :=
  ∃ out, exactIn t.balanceIn t.balanceOut c t.alpha = .ok out ∧ out < t.amountOut

theorem fallsShort_iff {c : Int} :
    (do return decide (t.amountOut ≤ (← exactIn t.balanceIn t.balanceOut c t.alpha)) : Outcome Bool)
      = .ok false ↔ FallsShort t c :=
  Outcome.test_eq_ok_iff.trans <| exists_congr fun _ => and_congr_right fun _ => by
    rw [iff_false_right Bool.false_ne_true, Int.not_le]

/-- Bisection ends next above a number that fails its test if it starts above one. -/
theorem tighten_fails_below {isEnough : Int → Outcome Bool} {short enough c : Int}
    (hs : isEnough short = .ok false) (hlt : short < enough)
    (h : tighten isEnough short enough = .ok c) : isEnough (c - 1) = .ok false := by
  fun_induction tighten isEnough short enough with
  | case1 short enough _ middle ih1 ih2 =>
    have hmiddle : middle = (short + enough) / 2 := Int.fdiv_eq_ediv_of_nonneg _ (by decide)
    obtain ⟨b, hb, h⟩ := Outcome.bind_eq_ok.1 h
    cases b with
    | true => exact ih1 hs (by omega) h
    | false => exact ih2 hb (by omega) h
  | case2 short enough hclose =>
    cases h
    rwa [show c - 1 = short by omega]

/-- What is known of a candidate: only the first one comes without one below it that falls short. -/
structure IsRaised (t : Target) (corrections : Nat) (candidate : Int) (short : Option Int) : Prop
    where
  first : short = none → corrections = 0
  above : ∀ c, short = some c → FallsShort t c ∧ c < candidate

theorem IsRaised.settle {c : Int} (hr : IsRaised t corrections candidate short)
    (h : settle t candidate short = .ok c) (hpos : 0 < corrections) : FallsShort t (c - 1) := by
  cases hshort : short with
  | none => exact absurd (hr.first hshort) (Nat.ne_of_gt hpos)
  | some s =>
    obtain ⟨hfalls, hlt⟩ := hr.above s hshort
    rw [hshort] at h
    exact fallsShort_iff.1 (tighten_fails_below (fallsShort_iff.2 hfalls) hlt h)

/-- If every raise is above zero, a quote takes no more raises than are left, and the input next
below one that took any falls short. -/
theorem IsRaised.of_correct {raise : Int → Outcome Int}
    (hraise : ∀ suggested r, raise suggested = .ok r → 0 < r)
    (hr : IsRaised t corrections candidate short)
    (h : correct t raise left corrections candidate step short = .ok q) :
    q.corrections ≤ corrections + left ∧ (0 < q.corrections → FallsShort t (q.amountIn - 1)) := by
  induction left generalizing corrections candidate step short with
  | zero =>
    obtain ⟨out, -, h⟩ := Outcome.bind_eq_ok.1 h
    split at h
    · obtain ⟨c, hc, h⟩ := Outcome.bind_eq_ok.1 h
      cases h
      exact ⟨Nat.le_refl _, hr.settle hc⟩
    · cases h
  | succ left ih =>
    obtain ⟨out, hout, h⟩ := Outcome.bind_eq_ok.1 h
    split at h
    · obtain ⟨c, hc, h⟩ := Outcome.bind_eq_ok.1 h
      cases h
      exact ⟨Nat.le_add_right _ _, hr.settle hc⟩
    · rename_i hfalls
      obtain ⟨marginal, -, h⟩ := Outcome.bind_eq_ok.1 h
      obtain ⟨step', hstep, h⟩ := Outcome.bind_eq_ok.1 h
      have hpos := hraise _ _ hstep
      have hnext : IsRaised t (corrections + 1) (candidate + step') (some candidate) := by
        refine ⟨nofun, fun c hc => ?_⟩
        cases hc
        exact ⟨⟨out, hout, Int.not_le.1 hfalls⟩, by omega⟩
      obtain ⟨hle, hbelow⟩ := ih hnext h
      exact ⟨by omega, hbelow⟩

theorem IsRaised.of_exactOut (h : exactOut balanceIn balanceOut wanted alpha limits = .ok q) :
    (q.corrections : Int) ≤ limits.iterations ∧
      (0 < q.corrections →
        FallsShort ⟨balanceIn, balanceOut, wanted, alpha⟩ (q.amountIn - 1)) := by
  obtain ⟨⟨⟩, -, h⟩ := Outcome.bind_eq_ok.1 h
  split at h
  · cases h
  · obtain ⟨first, -, h⟩ := Outcome.bind_eq_ok.1 h
    have hraise (suggested r : Int) (hr : limits.raise suggested = .ok r) : 0 < r := by
      cases hr
      omega
    have hfirst : IsRaised ⟨balanceIn, balanceOut, wanted, alpha⟩ 0 first none :=
      ⟨fun _ => rfl, nofun⟩
    obtain ⟨hle, hbelow⟩ := hfirst.of_correct hraise h
    exact ⟨by omega, hbelow⟩

/-- **Quotes for an output** ask an input of one at least that gives it, after no more raises than
are allowed.  After a raise the input next below gives less.  Along the constant product there are no
raises, and no lesser input gives the output. -/
theorem quote_settled (h : exactOut balanceIn balanceOut wanted alpha limits = .ok q) :
    (∃ out, exactIn balanceIn balanceOut q.amountIn alpha = .ok out ∧ wanted ≤ out) ∧
      1 ≤ q.amountIn ∧ (q.corrections : Int) ≤ limits.iterations ∧
      (0 < q.corrections →
        ∃ out, exactIn balanceIn balanceOut (q.amountIn - 1) alpha = .ok out ∧ out < wanted) ∧
      (alpha = one → q.corrections = 0 ∧
        ∀ c out, exactIn balanceIn balanceOut c alpha = .ok out → wanted ≤ out →
          q.amountIn ≤ c) := by
  obtain ⟨-, -, out, hout, hle⟩ := delivers_of_exactOut h
  obtain ⟨hcorrections, hbelow⟩ := IsRaised.of_exactOut h
  refine ⟨⟨out, hout, hle⟩, (exactIn_eq_ok hout).2.2.1, hcorrections, hbelow, ?_⟩
  rintro rfl
  have hquote := (exactOut_one h).2
  exact ⟨by rw [hquote], fun c out hc hcovers => (le_exactIn_iff hc h).1 hcovers⟩

/-- A quote for nine tenths of a balance, at an exponent of 0.8, is raised once and then trimmed. -/
theorem quote_settled_deep :
    ∃ q out, exactOut 10000000000000000000000 10000000000000000000000 9000000000000000000000
        800000000000000000 {} = .ok q ∧ q.corrections = 1 ∧
      exactIn 10000000000000000000000 10000000000000000000000 (q.amountIn - 1)
        800000000000000000 = .ok out ∧ out < 9000000000000000000000 := by
  have hanswer : ((exactOut 10000000000000000000000 10000000000000000000000 9000000000000000000000
      800000000000000000 {}).toOption.map Quote.corrections) = some 1 := by
    decide +kernel
  obtain ⟨q, hq, hcorrections⟩ := Option.map_eq_some_iff.1 hanswer
  replace hq := Outcome.eq_ok_of_toOption hq
  obtain ⟨-, -, -, hbelow, -⟩ := quote_settled hq
  obtain ⟨out, hout, hless⟩ := hbelow (by rw [hcorrections]; decide)
  exact ⟨q, out, hq, hcorrections, hout, hless⟩

/-! ### Where the constant product is quoted -/

theorem quotientUp_of_nonneg {a b : Int} (ha : 0 ≤ a) (hb : 0 < b) :
    quotientUp a b =
      if a ≤ maxUint then .ok (ceilDiv a b) else .error (.math (.tooWide "numerator")) := by
  unfold quotientUp requireUint
  rw [if_neg (Int.not_lt.2 ha)]
  by_cases hfits : a ≤ maxUint
  · rw [if_pos hfits, if_neg (Int.not_lt.2 hfits)]
    exact if_neg (Int.not_le.2 hb)
  · rw [if_neg hfits, if_pos (Int.not_le.1 hfits)]
    rfl

theorem exactOut_of_target (ht : requireTarget t = .ok ())
    (hlimits : 0 ≤ limits.iterations ∧ 0 < limits.step) :
    exactOut t.balanceIn t.balanceOut t.amountOut t.alpha limits =
      firstCandidate t >>= fun first =>
        correct t limits.raise limits.iterations.toNat 0 first 0 none := by
  have hchecked : exactOut t.balanceIn t.balanceOut t.amountOut t.alpha limits =
      requireTarget t >>= fun _ =>
        if limits.iterations < 0 ∨ limits.step ≤ 0 then .error (.curve .correctionLimits)
        else firstCandidate t >>= fun first =>
          correct t limits.raise limits.iterations.toNat 0 first 0 none := rfl
  rw [hchecked, ht]
  exact if_neg (by omega)

/-- What is asked along the constant product is given wherever more is. -/
theorem delivers_of_exactIn_one (hwanted : wanted < balanceOut)
    (hpos : 0 < balanceIn * wanted)
    (hin : exactIn balanceIn balanceOut given one = .ok out) (hcovers : wanted ≤ out) :
    Delivers ⟨balanceIn, balanceOut, wanted, one⟩
      (ceilDiv (balanceIn * wanted) (balanceOut - wanted)) := by
  obtain ⟨hx, hy, -, -⟩ := exactIn_eq_ok hin
  obtain ⟨huint, hsum⟩ := isUint_of_exactIn hin
  have hle := (le_exactIn_one_iff hin hwanted).1 hcovers
  have hquotient := ceilDiv_pos hpos (Int.sub_pos_of_lt hwanted)
  have hleast := exactIn_one_of_isUint hx ⟨hy, huint⟩ hquotient
    ⟨by omega, Int.le_trans (by omega) hsum.2⟩
  exact ⟨_, hleast, (le_exactIn_one_iff hleast hwanted).2 (Int.le_refl _)⟩

/-- **Quotes along the constant product**: where some input gives an output, the least one is quoted
exactly if the product of the incoming balance and the output fits in 256 bits. -/
theorem exactOut_one_eq_ite (hlimits : 0 ≤ limits.iterations ∧ 0 < limits.step)
    (hwanted : 0 < wanted ∧ wanted < balanceOut)
    (hin : exactIn balanceIn balanceOut given one = .ok out) (hcovers : wanted ≤ out) :
    exactOut balanceIn balanceOut wanted one limits =
      if balanceIn * wanted ≤ maxUint then
        .ok ⟨ceilDiv (balanceIn * wanted) (balanceOut - wanted), wanted, 0⟩
      else .error (.math (.tooWide "numerator")) := by
  obtain ⟨hx, hy, -, -⟩ := exactIn_eq_ok hin
  have hpos : 0 < balanceIn * wanted := Int.mul_pos hx hwanted.1
  have hrest : 0 < balanceOut - wanted := Int.sub_pos_of_lt hwanted.2
  have htarget : requireTarget ⟨balanceIn, balanceOut, wanted, one⟩ = .ok () :=
    Outcome.bind_eq_ok.2 ⟨(), requireBalances_eq_ok_iff.2 ⟨hx, hy⟩, Outcome.bind_eq_ok.2 ⟨(), rfl,
      Outcome.bind_eq_ok.2 ⟨(), requirePositive_eq_ok_iff.2 hwanted.1,
        if_neg (Int.not_le.2 hwanted.2)⟩⟩⟩
  have hestimate : estimate balanceIn balanceOut wanted one =
      if balanceIn * wanted ≤ maxUint then
        .ok (ceilDiv (balanceIn * wanted) (balanceOut - wanted))
      else .error (.math (.tooWide "numerator")) :=
    quotientUp_of_nonneg (Int.le_of_lt hpos) hrest
  refine (exactOut_of_target htarget hlimits).trans ?_
  split at hestimate
  case isTrue hfits =>
    have hfirst : firstCandidate ⟨balanceIn, balanceOut, wanted, one⟩ =
        .ok (ceilDiv (balanceIn * wanted) (balanceOut - wanted)) :=
      Outcome.bind_eq_ok.2 ⟨_, hestimate,
        congrArg Except.ok (Int.max_eq_right (ceilDiv_pos hpos hrest))⟩
    rw [if_pos hfits, hfirst]
    exact correct_of_delivers (delivers_of_exactIn_one hwanted.2 hpos hin hcovers)
  case isFalse hwide =>
    have hfirst : firstCandidate ⟨balanceIn, balanceOut, wanted, one⟩ =
        .error (.math (.tooWide "numerator")) := by
      unfold firstCandidate
      dsimp only
      rw [hestimate]
      rfl
    rw [if_neg hwide, hfirst]
    rfl

/-- A thousandth of the incoming balance gives an output of 9, which is quoted. -/
theorem exactOut_one_small :
    exactIn 10000 10000 10 one = .ok 9 ∧ exactOut 10000 10000 9 one {} = .ok ⟨10, 9, 0⟩ := by
  have hin : exactIn 10000 10000 10 one = .ok 9 := by rfl
  refine ⟨hin, ?_⟩
  rw [exactOut_one_eq_ite (by decide) (by decide) hin (by decide)]
  rfl

/-- Doubling the incoming balance gives half of the other one, but that is not quoted. -/
theorem exactOut_one_tooWide :
    exactIn 1000000000000000000000000000000000000000 1000000000000000000000000000000000000000
        1000000000000000000000000000000000000000 one =
      .ok 500000000000000000000000000000000000000 ∧
    exactOut 1000000000000000000000000000000000000000 1000000000000000000000000000000000000000
        500000000000000000000000000000000000000 one {} =
      .error (.math (.tooWide "numerator")) := by
  exact ⟨by rfl, by rfl⟩

end SwapMachine.Curve.Power
