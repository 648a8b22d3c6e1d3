import SwapMachine.Proofs.Delivery
import SwapMachine.Proofs.Failure
import SwapMachine.Proofs.Parameter
import SwapMachine.Walk.Effect

/-!
# SwapMachine.Proofs.Blame — why instructions with valid parameters fail

One rule for each computation that an instruction or its pending work is made of.  Curves check
their parameters once more when they compute; those checks cannot fail, since parsing has made them,
and neither is any divisor zero.

* `Walk.Effect.ordinary_of`: the effect of an instruction with valid parameters.
* `Walk.Pending.failsWithin_settle`: work done later.
-/

namespace SwapMachine

/-! ### Fixed-point numbers -/

namespace FixedPoint

open Number

theorem ordinary_requireUint (field : String) (z : Int) :
    FailsWithin Ordinary (requireUint field z) :=
  .ite (fun _ => failsWithin_error ⟨rfl, rfl⟩) fun _ =>
    .ite (fun _ => failsWithin_error ⟨rfl, rfl⟩) fun _ => failsWithin_ok

theorem ordinary_bounded (q : Int) : FailsWithin Ordinary (bounded q) :=
  .ite (fun _ => failsWithin_error ⟨rfl, rfl⟩) fun _ => failsWithin_ok

theorem ordinary_requireRatio (a b d : Int) : FailsWithin Ordinary (requireRatio a b d) :=
  .bind (ordinary_requireUint _ a) fun _ _ => .bind (ordinary_requireUint _ b) fun _ _ =>
    .bind (ordinary_requireUint _ d) fun _ _ =>
      .ite (fun _ => failsWithin_error ⟨rfl, rfl⟩) fun _ => failsWithin_ok

theorem ordinary_mulDivDown (a b d : Int) : FailsWithin Ordinary (mulDivDown a b d) :=
  .bind (ordinary_requireRatio a b d) fun _ _ => ordinary_bounded _

theorem ordinary_mulDivUp (a b d : Int) : FailsWithin Ordinary (mulDivUp a b d) :=
  .bind (ordinary_requireRatio a b d) fun _ _ => ordinary_bounded _

theorem ordinary_quotientUp (n d : Int) : FailsWithin Ordinary (quotientUp n d) :=
  .bind (ordinary_requireUint _ n) fun _ _ =>
    .ite (fun _ => failsWithin_error ⟨rfl, rfl⟩) fun _ => failsWithin_ok

theorem failsWithin_divideDown {P : Fault → Prop} (a : Int) {b : Int} (hb : b ≠ 0) :
    FailsWithin P (divideDown a b) :=
  .ite (fun h => absurd h hb) fun _ => failsWithin_ok

theorem failsWithin_divideUp {P : Fault → Prop} (a : Int) {b : Int} (hb : b ≠ 0) :
    FailsWithin P (divideUp a b) :=
  .ite (fun h => absurd h hb) fun _ => failsWithin_ok

theorem ordinary_applySpread (amount spread : Int) (takerPays : Bool) :
    FailsWithin Ordinary (applySpread amount spread takerPays) :=
  .bind (ordinary_requireUint _ amount) fun _ _ =>
    .ite (fun _ => failsWithin_error ⟨rfl, rfl⟩) fun _ =>
      .ite (fun _ => ordinary_mulDivUp _ _ _) fun _ => ordinary_mulDivDown _ _ _

theorem ordinary_expFine (r : Int) : FailsWithin Ordinary (expFine r) :=
  .ite (fun _ => failsWithin_ok) fun _ =>
    .ite (fun _ => failsWithin_error ⟨rfl, rfl⟩) fun _ => failsWithin_ok

theorem ordinary_pow (base exponent : Int) : FailsWithin Ordinary (pow base exponent) := by
  refine .bind (ordinary_requireUint _ base) fun _ _ =>
    .bind (ordinary_requireUint _ exponent) fun _ _ => ?_
  refine .ite (fun _ => failsWithin_ok) fun _ => .ite (fun _ => failsWithin_ok) fun _ =>
    .ite (fun _ => failsWithin_ok) fun _ => .ite (fun _ => failsWithin_ok) fun _ => ?_
  refine .bind ?_ fun _ _ =>
    .ite (fun _ => failsWithin_error ⟨rfl, rfl⟩) fun _ => failsWithin_ok
  exact .ite (fun _ => failsWithin_ok) fun _ => ordinary_expFine _

theorem ordinary_powUp (base exponent : Int) : FailsWithin Ordinary (powUp base exponent) :=
  .bind (ordinary_pow base exponent) fun _ _ => .ite (fun _ => failsWithin_ok) fun _ =>
    .bind (.bind (ordinary_mulDivUp _ _ _) fun _ _ => failsWithin_pure) fun _ _ => failsWithin_pure

end FixedPoint

/-! ### Curves -/

namespace Curve

open FixedPoint Number

theorem ordinary_requirePositive (field : String) (amount : Int) :
    FailsWithin Ordinary (requirePositive field amount) :=
  .ite (fun _ => failsWithin_error ⟨rfl, rfl⟩) fun _ => failsWithin_ok

theorem ordinary_afterFee (amount fee : Int) : FailsWithin Ordinary (afterFee amount fee) :=
  .bind (ordinary_mulDivUp _ _ _) fun _ _ => failsWithin_pure

theorem ordinary_beforeFee (amount fee : Int) : FailsWithin Ordinary (beforeFee amount fee) :=
  ordinary_mulDivUp _ _ _

theorem ordinary_lessFee (amount fee : Int) : FailsWithin Ordinary (lessFee amount fee) :=
  ordinary_mulDivDown _ _ _

namespace Power

variable {alpha : Int} {P : Fault → Prop}

theorem failsWithin_requireAlpha (h : 0 < alpha ∧ alpha ≤ one) :
    FailsWithin P (requireAlpha alpha) := by
  rw [Instruction.requireAlpha_eq_ok_iff.2 h]
  exact failsWithin_ok

theorem ordinary_requireBalances (balanceIn balanceOut : Int) :
    FailsWithin Ordinary (requireBalances balanceIn balanceOut) :=
  .ite (fun _ => failsWithin_error ⟨rfl, rfl⟩) fun _ =>
    .ite (fun _ => failsWithin_error ⟨rfl, rfl⟩) fun _ => failsWithin_ok

theorem ordinary_exactIn (h : 0 < alpha ∧ alpha ≤ one) (balanceIn balanceOut amountIn : Int) :
    FailsWithin Ordinary (exactIn balanceIn balanceOut amountIn alpha) := by
  refine .bind (ordinary_requireBalances _ _) fun _ _ => .bind (failsWithin_requireAlpha h)
    fun _ _ => .bind (ordinary_requirePositive _ _) fun _ _ => ?_
  exact .ite (fun _ => ordinary_mulDivDown _ _ _) fun _ => .bind (ordinary_mulDivUp _ _ _)
    fun _ _ => .bind (ordinary_powUp _ _) fun _ _ => ordinary_mulDivDown _ _ _

theorem ordinary_estimate (balanceIn balanceOut amountOut : Int) :
    FailsWithin Ordinary (estimate balanceIn balanceOut amountOut alpha) :=
  .ite (fun _ => ordinary_quotientUp _ _) fun _ => .bind (ordinary_mulDivUp _ _ _)
    fun _ _ => .bind (ordinary_mulDivUp _ _ _) fun _ _ => .bind (ordinary_powUp _ _) fun _ _ =>
      .ite (fun _ => failsWithin_ok) fun _ => ordinary_mulDivUp _ _ _

/-- A bisection fails as its test does on the numbers in between. -/
theorem failsWithin_tighten {isEnough : Int → Outcome Bool} {short enough : Int}
    (h : ∀ c, short < c → c < enough → FailsWithin P (isEnough c)) :
    FailsWithin P (tighten isEnough short enough) := by
  fun_induction tighten isEnough short enough with
  | case1 short enough _ middle ih1 ih2 =>
    have hmiddle : middle = (short + enough) / 2 := Int.fdiv_eq_ediv_of_nonneg _ (by decide)
    refine .bind (h middle (by omega) (by omega)) fun b _ => .ite (fun _ => ih1 ?_) fun _ => ih2 ?_
    · exact fun c hlo hhi => h c hlo (by omega)
    · exact fun c hlo hhi => h c (by omega) hhi
  | case2 short enough => exact failsWithin_ok

theorem ordinary_settle {t : Target} (h : 0 < t.alpha ∧ t.alpha ≤ one) (candidate : Int)
    (short : Option Int) : FailsWithin Ordinary (settle t candidate short) := by
  cases short with
  | none => exact failsWithin_ok
  | some short =>
    exact failsWithin_tighten fun c _ _ =>
      .bind (ordinary_exactIn h _ _ _) fun _ _ => failsWithin_pure

/-- A candidate that falls short leaves more of the balance than the target does, so that the
marginal price there is defined. -/
theorem failsWithin_marginalStep {t : Target} (h : 0 < t.alpha) (ht : t.amountOut < t.balanceOut)
    {delivered : Int} (hshort : ¬ t.amountOut ≤ delivered) (candidate : Int) :
    FailsWithin P (marginalStep t candidate delivered) :=
  failsWithin_divideUp _ (Int.ne_of_gt (Int.mul_pos h (by omega)))

theorem ordinary_correct {t : Target} (h : 0 < t.alpha ∧ t.alpha ≤ one)
    (ht : t.amountOut < t.balanceOut) (limits : Limits) (left corrections : Nat)
    (candidate step : Int) (short : Option Int) :
    FailsWithin Ordinary (correct t limits.raise left corrections candidate step short) := by
  induction left generalizing corrections candidate step short with
  | zero =>
    refine .bind (ordinary_exactIn h _ _ _) fun _ _ => .ite (fun _ => ?_) fun _ => ?_
    · exact .bind (ordinary_settle h _ _) fun _ _ => failsWithin_pure
    · exact failsWithin_error ⟨rfl, rfl⟩
  | succ left ih =>
    refine .bind (ordinary_exactIn h _ _ _) fun _ _ => .ite (fun _ => ?_) fun hshort => ?_
    · exact .bind (ordinary_settle h _ _) fun _ _ => failsWithin_pure
    · exact .bind (failsWithin_marginalStep h.1 ht hshort _) fun _ _ =>
        .bind failsWithin_ok fun _ _ => ih _ _ _ _

theorem ordinary_requireTarget {t : Target} (h : 0 < t.alpha ∧ t.alpha ≤ one) :
    FailsWithin Ordinary (requireTarget t) :=
  .bind (ordinary_requireBalances _ _) fun _ _ => .bind (failsWithin_requireAlpha h) fun _ _ =>
    .bind (ordinary_requirePositive _ _) fun _ _ =>
      .ite (fun _ => failsWithin_error ⟨rfl, rfl⟩) fun _ => failsWithin_ok

theorem ordinary_exactOut (h : 0 < alpha ∧ alpha ≤ one) (balanceIn balanceOut amountOut : Int)
    (limits : Limits) :
    FailsWithin Ordinary (exactOut balanceIn balanceOut amountOut alpha limits) := by
  refine .bind (ordinary_requireTarget h) fun _ ht => ?_
  refine .ite (fun _ => failsWithin_error ⟨rfl, rfl⟩) fun _ => ?_
  refine .bind (.bind (ordinary_estimate _ _ _) fun _ _ => failsWithin_pure) fun _ _ => ?_
  exact ordinary_correct (t := ⟨balanceIn, balanceOut, amountOut, alpha⟩) h
    (requireTarget_eq_ok ht).2.2 _ _ _ _ _ _

end Power

namespace Peg

variable {rate : Int}

theorem failsWithin_requireRate {P : Fault → Prop} (h : 0 < rate) :
    FailsWithin P (requireRate rate) := by
  rw [Instruction.requireRate_eq_ok_iff.2 h]
  exact failsWithin_ok

theorem ordinary_requireWithin (amountOut balanceOut : Int) :
    FailsWithin Ordinary (requireWithin amountOut balanceOut) :=
  .ite (fun _ => failsWithin_error ⟨rfl, rfl⟩) fun _ => failsWithin_ok

theorem ordinary_exactIn (h : 0 < rate) (balanceOut amountIn : Int) :
    FailsWithin Ordinary (exactIn balanceOut amountIn rate) :=
  .bind (failsWithin_requireRate h) fun _ _ => .bind (ordinary_requirePositive _ _) fun _ _ =>
    .bind (ordinary_mulDivDown _ _ _) fun _ _ => .bind (ordinary_requireWithin _ _) fun _ _ =>
      failsWithin_pure

theorem ordinary_exactOut (h : 0 < rate) (balanceOut amountOut : Int) :
    FailsWithin Ordinary (exactOut balanceOut amountOut rate) :=
  .bind (failsWithin_requireRate h) fun _ _ => .bind (ordinary_requirePositive _ _) fun _ _ =>
    .bind (ordinary_requireWithin _ _) fun _ _ => ordinary_mulDivUp _ _ _

end Peg

namespace Density

variable (c : Density)

theorem ordinary_available (balanceOut : Int) : FailsWithin Ordinary (c.available balanceOut) :=
  .bind (.bind (.ite (fun _ => failsWithin_error ⟨rfl, rfl⟩) fun _ => failsWithin_ok) fun _ _ =>
    failsWithin_pure) fun _ _ => failsWithin_pure

theorem failsWithin_cost {P : Fault → Prop} (soldBefore amountOut : Int) :
    FailsWithin P (c.cost soldBefore amountOut) := by
  refine .ite (fun _ => failsWithin_ok) fun hout => failsWithin_divideUp _ ?_
  have hpow : Int.pow c.capacity c.shape.degree ≠ 0 := Int.ne_of_gt (Int.pow_pos c.capacity_pos)
  have hspan : soldBefore + amountOut - soldBefore ≠ 0 := by omega
  exact Int.mul_ne_zero (by decide) (Int.mul_ne_zero (Int.mul_ne_zero (by omega) hpow) hspan)

theorem ordinary_charge (soldBefore amountOut : Int) :
    FailsWithin Ordinary (c.charge soldBefore amountOut) :=
  .bind (c.failsWithin_cost _ _) fun _ _ => ordinary_applySpread _ _ _

theorem failsWithin_bisect {P : Fault → Prop} {isAffordable : Int → Outcome Bool} {lo hi : Int}
    (h : ∀ m, lo < m → m ≤ hi → FailsWithin P (isAffordable m)) :
    FailsWithin P (bisect isAffordable lo hi) := by
  fun_induction bisect isAffordable lo hi with
  | case1 lo hi hlt middle ih1 ih2 =>
    have hmiddle : middle = (lo + hi + 1) / 2 := Int.fdiv_eq_ediv_of_nonneg _ (by decide)
    refine .bind (h middle (by omega) (by omega)) fun b _ => .ite (fun _ => ih1 ?_) fun _ => ih2 ?_
    · exact fun m hlo hhi => h m (by omega) hhi
    · exact fun m hlo hhi => h m hlo (by omega)
  | case2 lo hi => exact failsWithin_ok

theorem ordinary_exactIn (balanceOut amountIn : Int) :
    FailsWithin Ordinary (c.exactIn balanceOut amountIn) :=
  .bind (ordinary_requirePositive _ _) fun _ _ => .bind (c.ordinary_available _) fun _ _ =>
    failsWithin_bisect fun _ _ _ => .bind (c.ordinary_charge _ _) fun _ _ => failsWithin_pure

theorem ordinary_exactOut (balanceOut amountOut : Int) :
    FailsWithin Ordinary (c.exactOut balanceOut amountOut) :=
  .bind (ordinary_requirePositive _ _) fun _ _ => .bind (c.ordinary_available _) fun _ _ =>
    .ite (fun _ => failsWithin_error ⟨rfl, rfl⟩) fun _ => c.ordinary_charge _ _

end Density

end Curve

/-! ### State -/

namespace Overlay

theorem ordinary_balance (o : Overlay) (token : String) :
    FailsWithin Ordinary (o.balance token) := by
  unfold balance
  split
  · exact failsWithin_ok
  · exact failsWithin_error ⟨rfl, rfl⟩

theorem ordinary_setBalance (o : Overlay) (token : String) (amount : Int) :
    FailsWithin Ordinary (o.setBalance token amount) :=
  .ite (fun _ => failsWithin_error ⟨rfl, rfl⟩) fun _ => failsWithin_ok

theorem ordinary_setScale (o : Overlay) (scale : Int) :
    FailsWithin Ordinary (o.setScale scale) :=
  .ite (fun _ => failsWithin_error ⟨rfl, rfl⟩) fun _ => failsWithin_ok

end Overlay

section Defined

variable {P : Fault → Prop}

theorem failsWithin_effectiveBalance (balance delta : Int) (scale : Option Int) {liquidity : Int}
    (hl : liquidity ≠ 0) : FailsWithin P (effectiveBalance balance delta scale liquidity) := by
  cases scale with
  | none => exact failsWithin_ok
  | some s => exact .bind (FixedPoint.failsWithin_divideDown _ hl) fun _ _ => failsWithin_pure

theorem Fade.failsWithin_valueAt (fade : Fade) (now : Int) {period : Int} (hp : 0 < period) :
    FailsWithin P (fade.valueAt now period) :=
  .ite (fun h => absurd hp (Int.not_lt.2 h)) fun _ => failsWithin_ok

theorem Walk.failsWithin_fadeLeft (t : Terms) (o : Overlay) (token : String) (side : Side)
    {period : Nat} (hp : 0 < period) : FailsWithin P (fadeLeft t o token side period) := by
  unfold fadeLeft
  split
  · exact Fade.failsWithin_valueAt _ _ (Int.natCast_pos.2 hp)
  · exact failsWithin_ok

end Defined

/-! ### Effects and pending work -/

namespace Walk

namespace Effect

theorem ordinary_ask (what : String) (a : Answer) : FailsWithin Ordinary (ask what a) := by
  cases a with
  | ok d => exact failsWithin_ok
  | error reason => exact failsWithin_error ⟨rfl, rfl⟩

theorem ordinary_ledger (t : Terms) : FailsWithin Ordinary (ledger t) := by
  unfold ledger
  split
  · exact failsWithin_ok
  · exact failsWithin_error ⟨rfl, rfl⟩

theorem ordinary_takerBalance (t : Terms) (token : String) :
    FailsWithin Ordinary (takerBalance t token) := by
  refine .bind (ordinary_ledger t) fun l _ => .bind (ordinary_ask _ _) fun answer _ => ?_
  split
  · exact failsWithin_pure
  · exact failsWithin_error ⟨rfl, rfl⟩

theorem ordinary_supply (t : Terms) (token : String) : FailsWithin Ordinary (supply t token) := by
  refine .bind (ordinary_ledger t) fun l _ => .bind (ordinary_ask _ _) fun answer _ => ?_
  split
  · exact failsWithin_pure
  · exact failsWithin_error ⟨rfl, rfl⟩

theorem ordinary_dynamicFee (t : Terms) (source : String) :
    FailsWithin Ordinary (dynamicFee t source) := by
  unfold dynamicFee
  split
  · exact failsWithin_error ⟨rfl, rfl⟩
  · refine .bind (ordinary_ask _ _) fun answer _ => ?_
    split
    · exact failsWithin_pure
    · exact failsWithin_error ⟨rfl, rfl⟩

theorem ordinary_requireInTime (t : Terms) (deadline : Nat) :
    FailsWithin Ordinary (requireInTime t deadline) :=
  .ite (fun _ => failsWithin_error ⟨rfl, rfl⟩) fun _ => failsWithin_ok

theorem ordinary_requireHolds (t : Terms) (token : String) :
    FailsWithin Ordinary (requireHolds t token) := by
  refine .bind (ordinary_takerBalance t token) fun balance _ => ?_
  exact .ite (fun _ => failsWithin_error ⟨rfl, rfl⟩) fun _ => failsWithin_pure

theorem ordinary_requireHoldsAtLeast (t : Terms) (token : String) (minimum : Nat) :
    FailsWithin Ordinary (requireHoldsAtLeast t token minimum) := by
  refine .bind (ordinary_takerBalance t token) fun balance _ => ?_
  exact .ite (fun _ => failsWithin_error ⟨rfl, rfl⟩) fun _ => failsWithin_pure

theorem ordinary_requireShareAtLeast (t : Terms) (token : String) (minimum : Nat) :
    FailsWithin Ordinary (requireShareAtLeast t token minimum) := by
  refine .bind (ordinary_takerBalance t token) fun balance _ =>
    .bind (ordinary_supply t token) fun supply _ => ?_
  refine .ite (fun _ => failsWithin_error ⟨rfl, rfl⟩) fun _ => ?_
  refine .bind (FixedPoint.ordinary_mulDivDown _ _ _) fun share _ => ?_
  exact .ite (fun _ => failsWithin_error ⟨rfl, rfl⟩) fun _ => failsWithin_pure

theorem ordinary_listed (entries : Entries) (token : String) :
    FailsWithin Ordinary (listed entries token) := by
  unfold listed
  split
  · exact failsWithin_ok
  · exact failsWithin_error ⟨rfl, rfl⟩

theorem ordinary_initialise (entries : Entries) (o : Overlay) :
    FailsWithin Ordinary (initialise entries o) := by
  induction entries generalizing o with
  | nil => exact failsWithin_ok
  | cons e entries ih =>
    obtain ⟨token, amount⟩ := e
    rw [initialise]
    refine .ite (fun _ => ih o) fun _ => ?_
    exact .bind (o.ordinary_setBalance _ _) fun o' _ => ih o'

theorem ordinary_dynamicBalances (q : Query) (entries : Entries) (s : Sheet) :
    FailsWithin Ordinary (dynamicBalances q entries s) :=
  .bind (ordinary_initialise entries s.overlay) fun o _ => .bind (o.ordinary_balance _) fun _ _ =>
    .bind (o.ordinary_balance _) fun _ _ => failsWithin_pure

theorem ordinary_virtualBalance (c : Concentration) (token : String) :
    FailsWithin Ordinary (virtualBalance c token) :=
  .ite (fun _ => failsWithin_ok) fun _ => .ite (fun _ => failsWithin_ok) fun _ =>
    failsWithin_error ⟨rfl, rfl⟩

theorem ordinary_feeIn (q : Query) (fee : Int) (s : Sheet) :
    FailsWithin Ordinary (feeIn q fee s) :=
  .ite (fun _ => .bind (Curve.ordinary_afterFee _ _) fun _ _ => failsWithin_pure) fun _ =>
    failsWithin_pure

theorem ordinary_feeOut (q : Query) (fee : Int) (s : Sheet) :
    FailsWithin Ordinary (feeOut q fee s) :=
  .ite (fun _ => failsWithin_pure) fun _ =>
    .bind (Curve.ordinary_beforeFee _ _) fun _ _ => failsWithin_pure

theorem ordinary_require {condition : Outcome Unit} (h : FailsWithin Ordinary condition)
    (s : Sheet) : FailsWithin Ordinary (require s condition) :=
  .bind h fun _ _ => failsWithin_pure

theorem ordinary_swapped {s : Outcome Sheet} (h : FailsWithin Ordinary s) (t : Terms) (pc : Nat) :
    FailsWithin Ordinary (swapped t pc s) :=
  .bind h fun _ _ => failsWithin_pure

/-- **Effects** of instructions with valid parameters fail for ordinary causes. -/
theorem ordinary_of (t : Terms) (pc : Nat) {i : Instruction} (hi : i.IsValid) (s : Sheet) :
    FailsWithin Ordinary (of t pc i s) := by
  cases i with
  | jump | jumpIfTokenIn | jumpIfTokenOut | salt | inert => exact failsWithin_pure
  | deadline time => exact ordinary_require (ordinary_requireInTime t time) s
  | takerHolds token => exact ordinary_require (ordinary_requireHolds t token) s
  | takerHoldsAtLeast token minimum =>
    exact ordinary_require (ordinary_requireHoldsAtLeast t token minimum) s
  | takerShareAtLeast token minimum =>
    exact ordinary_require (ordinary_requireShareAtLeast t token minimum) s
  | staticBalances entries =>
    refine .bind ?_ fun _ _ => failsWithin_pure
    exact .bind (ordinary_listed _ _) fun _ _ => .bind (ordinary_listed _ _) fun _ _ =>
      failsWithin_pure
  | dynamicBalances entries => exact ordinary_dynamicBalances t.query entries s
  | decay period =>
    exact .bind (failsWithin_fadeLeft t _ _ _ hi) fun _ _ =>
      .bind (failsWithin_fadeLeft t _ _ _ hi) fun _ _ => failsWithin_pure
  | concentrate c =>
    have hl : (c.liquidity : Int) ≠ 0 := Int.ne_of_gt (Int.natCast_pos.2 hi.2)
    exact .bind (ordinary_virtualBalance c _) fun _ _ =>
      .bind (failsWithin_effectiveBalance _ _ _ hl) fun _ _ =>
        .bind (ordinary_virtualBalance c _) fun _ _ =>
          .bind (failsWithin_effectiveBalance _ _ _ hl) fun _ _ => failsWithin_pure
  | flatFeeIn fee => exact ordinary_feeIn t.query fee s
  | flatFeeOut fee => exact ordinary_feeOut t.query fee s
  | dynamicFeeIn source =>
    exact .bind (ordinary_dynamicFee t source) fun _ _ => ordinary_feeIn t.query _ _
  | constantProduct alpha =>
    refine ordinary_swapped (.ite (fun _ => ?_) fun _ => ?_) t pc
    · exact .bind (Curve.Power.ordinary_exactIn hi _ _ _) fun _ _ => failsWithin_pure
    · exact .bind (Curve.Power.ordinary_exactOut hi _ _ _ _) fun _ _ => failsWithin_pure
  | pegged rate =>
    refine ordinary_swapped (.ite (fun _ => ?_) fun _ => ?_) t pc
    · exact .bind (Curve.Peg.ordinary_exactIn hi _ _) fun _ _ => failsWithin_pure
    · exact .bind (Curve.Peg.ordinary_exactOut hi _ _) fun _ _ => failsWithin_pure
  | density curve =>
    refine ordinary_swapped (.ite (fun _ => ?_) fun _ => ?_) t pc
    · exact .bind (curve.ordinary_exactIn _ _) fun _ _ => failsWithin_pure
    · exact .bind (curve.ordinary_exactOut _ _) fun _ _ => failsWithin_pure

end Effect

namespace Pending

theorem ordinary_settleBook (q : Query) (f : Figures) (o : Overlay) :
    FailsWithin Ordinary (settleBook q f o) := by
  refine .bind (o.ordinary_balance _) fun _ _ =>
    .ite (fun _ => failsWithin_error ⟨rfl, rfl⟩) fun _ => ?_
  exact .bind (o.ordinary_balance _) fun _ _ => .bind (o.ordinary_setBalance _ _) fun o' _ =>
    o'.ordinary_setBalance _ _

/-- **Pending work** fails for an ordinary cause, unless a fading amount or the scale turns out
negative. -/
theorem failsWithin_settle {P : Fault → Prop} (hP : ∀ f, Ordinary f → P f) {t : Terms} {p : Pending}
    {s : Sheet}
    (hfade : ∀ period, p = .fade period → s.isComputed = true →
      FailsWithin P (settleFade t s.figures period s.overlay))
    (hscale : ∀ realIn realOut virtualIn virtualOut, p = .scale realIn realOut virtualIn virtualOut →
      s.isComputed = true →
        FailsWithin P (scaleAfter (s.withBalances realIn realOut).figures virtualIn virtualOut)) :
    FailsWithin P (p.settle t s) := by
  cases p with
  | book =>
    refine .ite (fun _ => ?_) fun _ => failsWithin_pure
    exact .bind ((ordinary_settleBook _ _ _).mono hP) fun _ _ => failsWithin_pure
  | fade period =>
    refine .ite (fun hc => ?_) fun _ => failsWithin_pure
    exact .bind (hfade period rfl hc) fun _ _ => failsWithin_pure
  | scale realIn realOut virtualIn virtualOut =>
    refine .ite (fun hc => ?_) fun _ => failsWithin_pure
    exact .bind (hscale _ _ _ _ rfl hc) fun _ _ =>
      .bind ((Overlay.ordinary_setScale _ _).mono hP) fun _ _ => failsWithin_pure
  | restoreIn | restoreOut => exact failsWithin_pure
  | raiseIn fee =>
    refine .ite (fun _ => ?_) fun _ => failsWithin_pure
    exact .bind ((Curve.ordinary_beforeFee _ _).mono hP) fun _ _ => failsWithin_pure
  | lowerOut fee =>
    refine .ite (fun _ => ?_) fun _ => failsWithin_pure
    exact .bind ((Curve.ordinary_lessFee _ _).mono hP) fun _ _ => failsWithin_pure

theorem blameless_settleFade (t : Terms) (f : Figures) (period : Nat) (o : Overlay) :
    FailsWithin Blameless (settleFade t f period o) := by
  have hleft (token : String) (side : Side) :
      FailsWithin Blameless (fadeLeft t o token side period) := by
    unfold fadeLeft
    split
    · exact .ite (fun _ => failsWithin_error rfl) fun _ => failsWithin_ok
    · exact failsWithin_ok
  have hmake (base : Int) : FailsWithin Blameless (Fade.make base t.now) := by
    unfold Fade.make
    split
    · exact failsWithin_ok
    · exact failsWithin_error rfl
  exact .bind (hleft _ _) fun _ _ => .bind (hleft _ _) fun _ _ => .bind (hmake _) fun _ _ =>
    .bind (hmake _) fun _ _ => failsWithin_pure

theorem blameless_scaleAfter (f : Figures) (virtualIn virtualOut : Int) :
    FailsWithin Blameless (scaleAfter f virtualIn virtualOut) :=
  .ite (fun _ => failsWithin_error rfl) fun _ =>
    .ite (fun _ => failsWithin_error rfl) fun _ => failsWithin_ok

/-- Pending work does not blame the program. -/
theorem blameless_settle (t : Terms) (p : Pending) (s : Sheet) :
    FailsWithin Blameless (p.settle t s) :=
  failsWithin_settle (fun _ h => h.blameless) (fun _ _ _ => blameless_settleFade _ _ _ _)
    fun _ _ _ _ _ _ => blameless_scaleAfter _ _ _

end Pending

end Walk

end SwapMachine
