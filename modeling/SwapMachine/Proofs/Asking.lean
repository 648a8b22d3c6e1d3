import SwapMachine.Proofs.Payable

/-!
# SwapMachine.Proofs.Asking — what a quote for an output asks

* `quote_eq_ok_iff`: quotes by their walks.
* `asked_enough`: who pays what is asked is given no less than was wanted, if anything.  Along the
  power curve he is, where balances are loaded once and not concentrated.
* `asked_least`: where the swap asks the least input, so does the quote, whatever stands before it.
-/

namespace SwapMachine

/-- The request for a fixed output. -/
def Request.fixingOut (r : Request) (amountOut : Int) : Request :=
  { r with amount := .int amountOut, isExactIn := false }

/-- The request for a fixed input, with another threshold. -/
def Request.fixingIn (r : Request) (amountIn : Int) (threshold : Option Datum) : Request :=
  { r with amount := .int amountIn, isExactIn := true, threshold }

namespace Engine

open Program

variable {e : Engine} {o : Order} {r : Request} {now wanted paid : Int} {q : Query} {f f' : Fill}
  {i : Instruction} {threshold : Option Datum}

/-- **Quotes** by the walks that they are read from. -/
theorem quote_eq_ok_iff : (e.quote o r now).outcome = .ok f ↔ e.accept o = .ok o.hash ∧
    ∃ q amount w, query o o.hash r = .ok (q, amount) ∧
      Walk.run (terms e o q now true)
        ⟨0, 0, .start (figures r.isExactIn amount) (e.store.overlay o.hash)⟩ = .ok w ∧
      fill r o.hash w.sheet = .ok f := by
  rw [quote_outcome]
  constructor
  · intro h
    cases hp : e.priced o r now true with
    | error fault => rw [hp] at h; cases h
    | ok p =>
      rw [hp] at h
      cases h
      obtain ⟨hash, hhash, -⟩ := Outcome.bind_eq_ok.1 hp
      obtain rfl := accept_eq_ok hhash
      obtain ⟨amount, w, hq, hw, -, hfill⟩ := price_eq_ok (priced_eq_ok hp)
      rw [Walk.through_zero] at hw
      exact ⟨hhash, p.query, amount, w, hq, hw, hfill⟩
  · rintro ⟨hhash, q, amount, w, hq, hw, hfill⟩
    have hprice : (price e o o.hash r now true).outcome = .ok ⟨q, f, w.sheet.overlay⟩ := by
      rw [price, hq]
      dsimp only
      rw [Walk.through_zero, hw]
      dsimp only [priceWalk]
      rw [(query_eq_ok hq).1, hfill]
    have hpriced : e.priced o r now true = .ok ⟨q, f, w.sheet.overlay⟩ :=
      Outcome.bind_eq_ok.2 ⟨o.hash, hhash, hprice⟩
    rw [hpriced]
    rfl

/-- The query of the same request with the input fixed. -/
theorem query_fixingIn {amount : Int}
    (h : query o o.hash (r.fixingOut wanted) = .ok (q, amount)) (hpaid : 0 < paid) :
    query o o.hash (r.fixingIn paid threshold) = .ok ({ q with isExactIn := true }, paid) := by
  obtain ⟨tokenIn, hin, h⟩ := Outcome.bind_eq_ok.1 h
  obtain ⟨tokenOut, hout, h⟩ := Outcome.bind_eq_ok.1 h
  split at h
  · cases h
  · rename_i htrades
    obtain ⟨_, -, h⟩ := Outcome.bind_eq_ok.1 h
    obtain ⟨taker, htaker, h⟩ := Outcome.bind_eq_ok.1 h
    cases h
    refine Outcome.bind_eq_ok.2 ⟨tokenIn, hin, Outcome.bind_eq_ok.2 ⟨tokenOut, hout, ?_⟩⟩
    refine (if_neg htrades).trans ?_
    exact Outcome.bind_eq_ok.2 ⟨paid, if_pos hpaid, Outcome.bind_eq_ok.2 ⟨taker, htaker, rfl⟩⟩

/-- The walk of a request for an output, before its first step. -/
def beginning (e : Engine) (o : Order) (wanted : Int) : Walk :=
  ⟨0, 0, .start (figures false wanted) (e.store.overlay o.hash)⟩

/-- The course of the walk behind a quote for an output. -/
theorem course_of_quote (hends : EndsIn e.instructions o.program i)
    (h : (e.quote o (r.fixingOut wanted) now).outcome = .ok f) : e.accept o = .ok o.hash ∧
      ∃ q w, query o o.hash (r.fixingOut wanted) = .ok (q, wanted) ∧ q.isExactIn = false ∧
        Walk.Course (terms e o q now true) i (e.beginning o wanted) w ∧
        f.amountIn = w.sheet.figures.amountIn := by
  obtain ⟨haccept, q, amount, w, hq, hw, hfill⟩ := quote_eq_ok_iff.1 h
  obtain ⟨-, hmode, -, ⟨hamount, -⟩, -⟩ := query_eq_ok hq
  obtain rfl : wanted = amount := Datum.int.inj hamount
  obtain ⟨hcomputed, rfl, -⟩ := fill_eq_ok hfill
  refine ⟨haccept, q, w, hq, hmode, ?_, rfl⟩
  obtain ⟨records, last, hv, -⟩ := hends.shape
  exact Walk.course_of_run (t := terms e o q now true) hends
    (Scan.zero_mem_boundaries (validate_eq_ok_iff.1 hv).2.whole) rfl hw hcomputed

/-- The walk behind a quote for an input is the other one's with the input fixed. -/
theorem run_of_quote_fixingIn (hq : query o o.hash (r.fixingOut wanted) = .ok (q, wanted))
    (h : (e.quote o (r.fixingIn paid threshold) now).outcome = .ok f') :
    ∃ w', Walk.run (terms e o q now true).fixingIn ((e.beginning o wanted).withAmounts paid 0) =
      .ok w' ∧ f'.amountOut = w'.sheet.figures.amountOut := by
  obtain ⟨-, q', amount, w', hq', hw', hfill⟩ := quote_eq_ok_iff.1 h
  obtain ⟨-, -, -, ⟨hamount, hpos⟩, -⟩ := query_eq_ok hq'
  obtain rfl : paid = amount := Datum.int.inj hamount
  obtain ⟨rfl, -⟩ := Prod.mk.inj (Except.ok.inj (hq'.symm.trans (query_fixingIn hq hpos)))
  obtain ⟨-, rfl, -⟩ := fill_eq_ok hfill
  exact ⟨w', hw', rfl⟩

/-- **Quotes for an output ask enough**, in any state, at any time, for any taker and direction, if
the sources of fees do not look at which amount is fixed: a quote for what is asked gives no less
than was wanted, if it is answered.  Along the power curve, with balances that are loaded once and
not concentrated, it is. -/
theorem asked_enough (hends : EndsIn e.instructions o.program i)
    (hsources : Walk.IgnoresMode e.feeSources)
    (hquote : (e.quote o (r.fixingOut wanted) now).outcome = .ok f) :
    (∀ threshold f', (e.quote o (r.fixingIn f.amountIn threshold) now).outcome = .ok f' →
      wanted ≤ f'.amountOut) ∧
    (i.opcode = .constantProduct → LoadsOnce e.instructions o.program →
      ∃ f', (e.quote o (r.fixingIn f.amountIn none) now).outcome = .ok f') := by
  obtain ⟨haccept, q, w, hq, hmode, hcourse, hasked⟩ := course_of_quote hends hquote
  constructor
  · intro threshold f' h
    obtain ⟨w', hw', hgiven⟩ := run_of_quote_fixingIn hq h
    obtain ⟨-, henough⟩ := hcourse.related hmode hsources hends.swap Walk.carried_enough
      (Walk.turns_enough hends.swap) hw' hasked.symm
    rw [hgiven]
    exact henough
  · intro hproduct honce
    cases i with
    | constantProduct alpha =>
      obtain ⟨w', hw', hret⟩ := hcourse.payable hmode hsources honce 0
      rw [← hasked] at hw'
      have hpos : 0 < f.amountIn := hasked ▸ hret.paid
      have hfill : fill (r.fixingIn f.amountIn none) o.hash w'.sheet =
          .ok ⟨w'.sheet.figures.amountIn, w'.sheet.figures.amountOut, o.hash⟩ :=
        if_neg (not_not_intro hret.computed)
      exact ⟨_, quote_eq_ok_iff.2 ⟨haccept, _, _, w', query_fixingIn hq hpos, hw', hfill⟩⟩
    | _ => cases hproduct

theorem ignoresMode_feePool : Walk.IgnoresMode feePoolEngine.feeSources :=
  fun _ _ h => nomatch h

/-- In the pool with a fee, an output of 180 asks an input for which at least 180 are given. -/
theorem asked_enough_feePool :
    Walk.IgnoresMode feePoolEngine.feeSources ∧
      LoadsOnce feePoolEngine.instructions feePoolOrder.program ∧
      ∃ i f f', EndsIn feePoolEngine.instructions feePoolOrder.program i ∧
        i.opcode = .constantProduct ∧
        (feePoolEngine.quote feePoolOrder
          ((feePoolSwap 'a' 'b' 100).request.fixingOut 180) 0).outcome = .ok f ∧
        (feePoolEngine.quote feePoolOrder
          ((feePoolSwap 'a' 'b' 100).request.fixingIn f.amountIn none) 0).outcome = .ok f' ∧
        180 ≤ f'.amountOut := by
  obtain ⟨alpha, -, hends⟩ := isPool_feePool.exists_endsIn
  have hsome : (feePoolEngine.quote feePoolOrder
      ((feePoolSwap 'a' 'b' 100).request.fixingOut 180) 0).outcome.toOption.isSome = true := by
    decide +kernel
  obtain ⟨f, hf⟩ := Option.isSome_iff_exists.1 hsome
  replace hf := Outcome.eq_ok_of_toOption hf
  obtain ⟨henough, hpaid⟩ :=
    asked_enough (e := feePoolEngine) (o := feePoolOrder) hends ignoresMode_feePool hf
  obtain ⟨f', hf'⟩ := hpaid rfl isPool_feePool.loadsOnce
  exact ⟨ignoresMode_feePool, isPool_feePool.loadsOnce, _, f, f', hends, rfl, hf, hf',
    henough none f' hf'⟩

/-- **Quotes for an output ask the least** if the swap does, whatever stands before it: in any state,
at any time, for any taker and direction, a quote for less than is asked gives less than was wanted,
if it is answered at all. -/
theorem asked_least (hends : EndsIn e.instructions o.program i) (hleast : Walk.AsksLeast i)
    (hsources : Walk.IgnoresMode e.feeSources)
    (hquote : (e.quote o (r.fixingOut wanted) now).outcome = .ok f) (hpaid : paid < f.amountIn)
    (h : (e.quote o (r.fixingIn paid threshold) now).outcome = .ok f') : f'.amountOut < wanted := by
  obtain ⟨-, q, w, hq, hmode, hcourse, hasked⟩ := course_of_quote hends hquote
  obtain ⟨w', hw', hgiven⟩ := run_of_quote_fixingIn hq h
  obtain ⟨-, hshort⟩ := hcourse.related hmode hsources hends.swap Walk.carried_short
    (Walk.turns_short hleast) hw' (hasked ▸ hpaid)
  rw [hgiven]
  exact hshort

/-- In the pool with a fee, an output of 180 asks 100, and for 99 less than 180 is given. -/
theorem asked_least_feePool :
    ∃ i f f', EndsIn feePoolEngine.instructions feePoolOrder.program i ∧ Walk.AsksLeast i ∧
      Walk.IgnoresMode feePoolEngine.feeSources ∧
      (feePoolEngine.quote feePoolOrder
        ((feePoolSwap 'a' 'b' 100).request.fixingOut 180) 0).outcome = .ok f ∧
      f.amountIn = 100 ∧
      (feePoolEngine.quote feePoolOrder
        ((feePoolSwap 'a' 'b' 100).request.fixingIn 99 none) 0).outcome = .ok f' ∧
      f'.amountOut < 180 := by
  obtain ⟨alpha, halpha, hends⟩ := isPool_feePool.exists_endsIn
  have hasked : (feePoolEngine.quote feePoolOrder ((feePoolSwap 'a' 'b' 100).request.fixingOut 180)
      0).outcome.toOption.map Fill.amountIn = some 100 := by
    decide +kernel
  have hgiven : (feePoolEngine.quote feePoolOrder
      ((feePoolSwap 'a' 'b' 100).request.fixingIn 99 none) 0).outcome.toOption.isSome = true := by
    decide +kernel
  obtain ⟨f, hf, hamount⟩ := Option.map_eq_some_iff.1 hasked
  obtain ⟨f', hf'⟩ := Option.isSome_iff_exists.1 hgiven
  replace hf := Outcome.eq_ok_of_toOption hf
  replace hf' := Outcome.eq_ok_of_toOption hf'
  have hpaid : 99 < f.amountIn := by
    rw [hamount]
    decide
  have hshort := asked_least (e := feePoolEngine) (o := feePoolOrder) hends halpha
    ignoresMode_feePool hf hpaid hf'
  exact ⟨_, f, f', hends, halpha, ignoresMode_feePool, hf, hamount, hf', hshort⟩

end Engine

end SwapMachine
