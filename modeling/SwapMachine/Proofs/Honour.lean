import SwapMachine.Proofs.PoolHistory

/-!
# SwapMachine.Proofs.Honour — answers are what was asked for

Fees move the amount that a request fixes while the instructions behind them run, and work done
later puts it back; the threshold is looked at only when all that has been done.

* `Engine.Honours`: a fill has the amount that a request fixes, and the other one keeps to its
  threshold.
* `honours_of_answer`: whatever the program of the order is, no answer of an engine is anything else.
-/

namespace SwapMachine.Engine

/-- The fill has the amount that the request fixes, and the other amount keeps to the threshold: it
is at least, or at most, a whole number, and it does not pass any other datum that is given for
one. -/
structure Honours (r : Request) (f : Fill) : Prop where
  amount : r.amount = .int (if r.isExactIn then f.amountIn else f.amountOut)
  threshold : ∀ d limit, r.threshold = some d → d.quantity? = some (.whole limit) →
    if r.isExactIn then limit ≤ f.amountOut else f.amountIn ≤ limit
  datum : ∀ d, r.threshold = some d → Keeps r f d

variable {r : Request} {f : Fill}

theorem fixed_figures (q : Query) (amount : Int) :
    (figures q.isExactIn amount).fixed q = amount := by
  unfold figures Walk.Figures.fixed
  split <;> rfl

/-- To compare data that are whole numbers is to compare these. -/
theorem isBelow_of_whole {d d' : Datum} {x y : Int} (hx : d.quantity? = some (.whole x))
    (hy : d'.quantity? = some (.whole y)) : d.isBelow d' = decide (x < y) := by
  have hcompare : d.compare? d' = (Number.Quantity.whole x).compare? (.whole y) := by
    cases d <;> cases d' <;> cases hx <;> cases hy <;> rfl
  rw [Datum.isBelow, hcompare]
  exact Number.Quantity.isBelow_whole x y

theorem Keeps.whole {d : Datum} {limit : Int} (h : Keeps r f d)
    (hd : d.quantity? = some (.whole limit)) :
    if r.isExactIn then limit ≤ f.amountOut else f.amountIn ≤ limit := by
  unfold Keeps at h
  split at h
  · rename_i hin
    rw [isBelow_of_whole rfl hd, decide_eq_false_iff_not] at h
    rw [if_pos hin]
    exact Int.not_lt.1 h
  · rename_i hout
    rw [isBelow_of_whole hd rfl, decide_eq_false_iff_not] at h
    rw [if_neg hout]
    exact Int.not_lt.1 h

/-- What a price gives honours the request. -/
theorem honours_of_priced {e : Engine} {o : Order} {now : Int} {stopAtSwap : Bool} {p : Priced}
    (h : e.priced o r now stopAtSwap = .ok p) : Honours r p.fill := by
  obtain ⟨amount, w, hq, hw, -, hfill⟩ := price_eq_ok (priced_eq_ok h)
  obtain ⟨-, hmode, -, ⟨hamount, -⟩, -⟩ := query_eq_ok hq
  obtain ⟨-, hfigures, hkeeps⟩ := fill_eq_ok hfill
  refine ⟨?_, fun d limit hd hlimit => (hkeeps d hd).whole hlimit, hkeeps⟩
  -- the walk has handed the fixed amount back
  rw [Walk.through_zero] at hw
  have hfixed : w.sheet.figures.fixed p.query = amount := by
    have hrun := Walk.fixed_of_run hw
    rw [← hmode] at hrun
    exact hrun.trans (fixed_figures p.query amount)
  rw [Walk.Figures.fixed, hmode] at hfixed
  rw [hamount, hfigures, ← hfixed]

/-- **Answers honour requests**: whatever the state, the order, the time and the outside parties
are, a quote or a swap that is answered has the amount that the request fixes, and the other amount
keeps to the threshold. -/
theorem honours_of_answer (e : Engine) (c : Call) (f : Fill) (h : e.answer c = .ok f) :
    Honours c.request f := by
  obtain ⟨p, hp, rfl⟩ := answer_eq_ok h
  exact honours_of_priced hp

/-- A trade in the pool with a fee, asked for from either side, with a threshold. -/
def feePoolTrade (isExactIn : Bool) (amount limit : Int) : Call :=
  { feePoolSwap 'a' 'b' amount with
    request := { (feePoolSwap 'a' 'b' amount).request with
                 isExactIn, threshold := some (.int limit) } }

/-- An input of 100 gives the 180 that are the least, and an output of 180 takes the 100 that are the
most. -/
theorem honours_feePoolTrade :
    (∃ f, feePoolEngine.answer (feePoolTrade true 100 180) = .ok f ∧
      Honours (feePoolTrade true 100 180).request f) ∧
    ∃ f, feePoolEngine.answer (feePoolTrade false 180 100) = .ok f ∧
      Honours (feePoolTrade false 180 100).request f := by
  have hin : (feePoolEngine.answer (feePoolTrade true 100 180)).toOption.isSome = true := by
    decide +kernel
  have hout : (feePoolEngine.answer (feePoolTrade false 180 100)).toOption.isSome = true := by
    decide +kernel
  obtain ⟨f, hf⟩ := Option.isSome_iff_exists.1 hin
  obtain ⟨g, hg⟩ := Option.isSome_iff_exists.1 hout
  replace hf := Outcome.eq_ok_of_toOption hf
  replace hg := Outcome.eq_ok_of_toOption hg
  exact ⟨⟨f, hf, honours_of_answer _ _ f hf⟩, ⟨g, hg, honours_of_answer _ _ g hg⟩⟩

end SwapMachine.Engine
