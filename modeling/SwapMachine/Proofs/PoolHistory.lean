import SwapMachine.Proofs.Pool
import SwapMachine.Proofs.Stock

/-!
# SwapMachine.Proofs.PoolHistory — pools over many calls

* `serve_cases`: a call leaves the state of a pool alone or books one fair trade.
* `product_never_falls`: over any calls, the product of what a pool has of its two tokens does not
  fall, and nobody gains by trading there and back.
-/

namespace SwapMachine.Engine

open Curve Program

variable {e : Engine} {o : Order} {entries : Entries} {c : Call}

/-! ### One call -/

/-- A swap of the order has booked a fair trade. -/
structure Booked (e : Engine) (o : Order) (entries : Entries) (c : Call) (q : Query) (f : Fill)
    (x y : Int) : Prop where
  isSwap : c.isSwap = true
  order : c.order = o
  query : ∃ amount, Engine.query o o.hash c.request = .ok (q, amount)
  answer : e.answer c = .ok f
  heldIn : e.held o entries q.tokenIn = some x
  heldOut : e.held o entries q.tokenOut = some y
  fair : Fair x y f.amountIn f.amountOut
  stored : ∀ token, (e.serve c).stored o token =
    if token = q.tokenOut then some (y - f.amountOut)
    else if token = q.tokenIn then some (x + f.amountIn) else e.held o entries token

/-- Nothing that the engine has for the order is negative. -/
def HasNoDebt (e : Engine) (o : Order) (entries : Entries) : Prop :=
  ∀ token x, e.held o entries token = some x → 0 ≤ x

/-- A swap of a pool that is answered books a fair trade. -/
theorem booked_of_answer (hp : IsPool e.instructions o.program entries)
    (hdebt : e.HasNoDebt o entries) (hswap : c.isSwap = true) (ho : c.order = o) {f : Fill}
    (h : e.answer c = .ok f) : ∃ q x y, Booked e o entries c q f x y := by
  subst ho
  obtain ⟨q, amount, w, hq, hw, hcomputed, hfill, hstored⟩ := walk_of_answer hswap h
  have hpool : IsPool ((e.facing c).terms c.order q c.now false).instructions
      ((e.facing c).terms c.order q c.now false).program entries := hp
  obtain ⟨x, y, hbooks⟩ :=
    Walk.books_of_through hpool (fun x hx => hdebt q.tokenIn x hx) hw hcomputed
  rw [hfill] at h ⊢
  refine ⟨q, x, y, hswap, rfl, ⟨amount, hq⟩, h, hbooks.heldIn, hbooks.heldOut, hbooks.fair,
    fun token => ?_⟩
  rw [hstored]
  exact hbooks.balance? token

/-- **One call** leaves the state of a pool alone or books one fair trade. -/
theorem serve_cases (hp : IsPool e.instructions o.program entries) (hdebt : e.HasNoDebt o entries)
    (hc : c.order = o ∨ c.order.hash ≠ o.hash) :
    (e.serve c).store.snapshot o.hash = e.store.snapshot o.hash ∨
      ∃ q f x y, Booked e o entries c q f x y := by
  rcases snapshot_serve hc with hsame | ⟨ho, hswap, f, hanswer⟩
  · exact Or.inl hsame
  · obtain ⟨q, x, y, hb⟩ := booked_of_answer hp hdebt hswap ho hanswer
    exact Or.inr ⟨q, f, x, y, hb⟩

theorem Booked.held {q : Query} {f : Fill} {x y : Int} (h : Booked e o entries c q f x y)
    (token : String) : (e.serve c).held o entries token =
      if token = q.tokenOut then some (y - f.amountOut)
      else if token = q.tokenIn then some (x + f.amountIn) else e.held o entries token := by
  have hstored := h.stored token
  split
  · rename_i ht
    rw [if_pos ht] at hstored
    exact held_of_stored hstored
  · rename_i ht
    rw [if_neg ht] at hstored
    split
    · rename_i hin
      rw [if_pos hin] at hstored
      exact held_of_stored hstored
    · rename_i hin
      rw [if_neg hin] at hstored
      exact held_of_stored_eq hstored

theorem hasNoDebt_serve (hp : IsPool e.instructions o.program entries)
    (hdebt : e.HasNoDebt o entries) (hc : c.order = o ∨ c.order.hash ≠ o.hash) :
    (e.serve c).HasNoDebt o entries := by
  intro token z hz
  rcases serve_cases hp hdebt hc with hsame | ⟨q, f, x, y, hb⟩
  · rw [held_congr hsame] at hz
    exact hdebt token z hz
  · rw [hb.held] at hz
    have hpays := hb.fair.pays
    have hleaves := hb.fair.leaves
    have hx := hdebt _ x hb.heldIn
    split at hz
    · cases hz
      omega
    · split at hz
      · cases hz
        omega
      · exact hdebt token z hz

/-! ### Many calls -/

theorem hasNoDebt_of_empty (h : e.store = .empty) : e.HasNoDebt o entries := by
  intro token x hx
  have hnone : e.stored o token = none := by
    rw [stored, h]
    rfl
  rw [held_of_not_stored hnone] at hx
  exact Overlay.listed?_nonneg hx

theorem hasNoDebt_run (hp : IsPool e.instructions o.program entries)
    (hdebt : e.HasNoDebt o entries) {calls : List Call}
    (hcalls : ∀ c ∈ calls, c.order = o ∨ c.order.hash ≠ o.hash) :
    (e.run calls).HasNoDebt o entries := by
  induction calls generalizing e with
  | nil => exact hdebt
  | cons c calls ih =>
    have hp' : IsPool (e.serve c).instructions o.program entries := by
      rwa [serve_instructions]
    refine ih hp' (hasNoDebt_serve hp hdebt (hcalls c List.mem_cons_self)) fun d hd => ?_
    exact hcalls d (List.mem_cons_of_mem c hd)

/-- The second engine still stores what the first one stores for the order, and what it has of the
two tokens is worth no less. -/
structure KeepsProduct (o : Order) (entries : Entries) (e e' : Engine) : Prop where
  stored : ∀ token, (e.stored o token).isSome = true → (e'.stored o token).isSome = true
  product : ∀ x y, e.held o entries o.token0 = some x → e.held o entries o.token1 = some y →
    ∃ x' y', e'.held o entries o.token0 = some x' ∧ e'.held o entries o.token1 = some y' ∧
      x * y ≤ x' * y' ∧ (0 < x → 0 < x') ∧ (0 < y → 0 < y')

/-- Who pays the token that a trade gave trades it back. -/
theorem eq_of_trades_back {tokenIn tokenOut tokenBack : String}
    (h : o.trades tokenIn tokenOut = true) (hback : o.trades tokenOut tokenBack = true)
    (hne : o.token0 ≠ o.token1) : tokenBack = tokenIn := by
  rcases trades_cases h with ⟨rfl, rfl⟩ | ⟨rfl, rfl⟩
  · rcases trades_cases hback with ⟨h, -⟩ | ⟨-, rfl⟩
    · exact absurd h.symm hne
    · rfl
  · rcases trades_cases hback with ⟨-, rfl⟩ | ⟨h, -⟩
    · rfl
    · exact absurd h hne

theorem Booked.trades {q : Query} {f : Fill} {x y : Int} (h : Booked e o entries c q f x y) :
    o.trades q.tokenIn q.tokenOut = true := by
  obtain ⟨amount, hq⟩ := h.query
  exact (query_eq_ok hq).2.2.1

theorem Booked.keepsProduct {q : Query} {f : Fill} {x y : Int} (h : Booked e o entries c q f x y)
    (hne : o.token0 ≠ o.token1) : KeepsProduct o entries e (e.serve c) := by
  have hpays := h.fair.pays
  have hleaves := h.fair.leaves
  have hmul := h.fair.mul_le_mul
  refine ⟨fun token hs => ?_, fun a b ha hb => ?_⟩
  · rw [h.stored]
    split
    · rfl
    · split
      · rfl
      · obtain ⟨z, hz⟩ := Option.isSome_iff_exists.1 hs
        rw [held_of_stored hz]
        rfl
  · have hin := h.heldIn
    have hout := h.heldOut
    rcases trades_cases h.trades with ⟨h0, h1⟩ | ⟨h1, h0⟩
    · rw [h0] at hin
      rw [h1] at hout
      obtain rfl : x = a := Option.some.inj (hin.symm.trans ha)
      obtain rfl : y = b := Option.some.inj (hout.symm.trans hb)
      refine ⟨x + f.amountIn, y - f.amountOut, ?_, ?_, hmul, fun _ => by omega, fun _ => by omega⟩
      · rw [h.held, h0, h1, if_neg hne, if_pos rfl]
      · rw [h.held, h1, if_pos rfl]
    · rw [h1] at hin
      rw [h0] at hout
      obtain rfl : y = a := Option.some.inj (hout.symm.trans ha)
      obtain rfl : x = b := Option.some.inj (hin.symm.trans hb)
      rw [Int.mul_comm x, Int.mul_comm (x + f.amountIn)] at hmul
      refine ⟨y - f.amountOut, x + f.amountIn, ?_, ?_, hmul, fun _ => by omega, fun _ => by omega⟩
      · rw [h.held, h0, if_pos rfl]
      · rw [h.held, h0, h1, if_neg hne.symm, if_pos rfl]

theorem keepsProduct_of_snapshot {e' : Engine}
    (h : e'.store.snapshot o.hash = e.store.snapshot o.hash) : KeepsProduct o entries e e' := by
  refine ⟨fun token hs => ?_, fun x y hx hy => ?_⟩
  · rw [stored, h]
    exact hs
  · rw [held_congr h]
    exact ⟨x, y, hx, hy, Int.le_refl _, id, id⟩

/-- A swap there and one back by its whole output, between which the state of the order stays as it
is. -/
structure RoundTrip (e : Engine) (o : Order) (before : List Call) (there : Call)
    (between : List Call) (back : Call) (f g : Fill) : Prop where
  orders : there.order = o ∧ back.order = o
  swaps : there.isSwap = true ∧ back.isSwap = true
  answerThere : (e.run before).answer there = .ok f
  undisturbed : (e.run (before ++ there :: between)).store.snapshot o.hash =
    (e.run (before ++ [there])).store.snapshot o.hash
  answerBack : (e.run (before ++ there :: between)).answer back = .ok g
  reverse : requestAddress "token_in" back.request.tokenIn =
    requestAddress "token_out" there.request.tokenOut
  whole : g.amountIn = f.amountOut

theorem RoundTrip.out_le {before between : List Call} {there back : Call} {f g : Fill}
    (h : RoundTrip e o before there between back f g)
    (hp : IsPool e.instructions o.program entries) (hne : o.token0 ≠ o.token1)
    (hdebt : (e.run before).HasNoDebt o entries)
    (hdebt' : (e.run (before ++ there :: between)).HasNoDebt o entries) :
    g.amountOut ≤ f.amountIn := by
  have hpool (calls : List Call) : IsPool (e.run calls).instructions o.program entries := by
    rwa [run_instructions]
  obtain ⟨q, x, y, hf⟩ :=
    booked_of_answer (hpool _) hdebt h.swaps.1 h.orders.1 h.answerThere
  obtain ⟨q', x', y', hg⟩ :=
    booked_of_answer (hpool _) hdebt' h.swaps.2 h.orders.2 h.answerBack
  have hin : q'.tokenIn = q.tokenOut := by
    obtain ⟨_, hq⟩ := hf.query
    obtain ⟨_, hq'⟩ := hg.query
    obtain ⟨-, -, -, -, -, htokenOut⟩ := query_eq_ok hq
    obtain ⟨-, -, -, -, htokenIn, -⟩ := query_eq_ok hq'
    exact Except.ok.inj (htokenIn.symm.trans (h.reverse.trans htokenOut))
  have hout : q'.tokenOut = q.tokenIn := by
    have hback := hg.trades
    rw [hin] at hback
    exact eq_of_trades_back hf.trades hback hne
  have hheld (token : String) : (e.run (before ++ there :: between)).held o entries token =
      ((e.run before).serve there).held o entries token := by
    rw [held_congr h.undisturbed, run_append]
    rfl
  -- the swap back finds what the swap there has left
  have hq := ne_of_trades hf.trades hne
  have hx' := hg.heldIn
  have hy' := hg.heldOut
  rw [hheld, hf.held, hin, if_pos rfl] at hx'
  rw [hheld, hf.held, hout, if_neg hq, if_pos rfl] at hy'
  obtain rfl := Option.some.inj hx'
  obtain rfl := Option.some.inj hy'
  have hback := hg.fair
  rw [h.whole] at hback
  exact hf.fair.back_le hback

/-- **Pools keep their product**: an order whose program is a pool, at an engine that starts with an
empty store, and any calls, of which those on other orders have other hashes.  From each state to
the next, the product of the two balances does not fall and positive balances stay positive; and a
swap back of all that a swap gave does not give more than was paid, if the state of the order has
been left alone in between. -/
theorem product_never_falls {maker token0 token1 program flags : Datum}
    (hmade : Order.make maker token0 token1 program flags = .ok o)
    (hp : IsPool e.instructions o.program entries) (hempty : e.store = .empty) {calls : List Call}
    (hcalls : ∀ c ∈ calls, c.order = o ∨ c.order.hash ≠ o.hash) :
    (∀ before c after, calls = before ++ c :: after →
      KeepsProduct o entries (e.run before) (e.run (before ++ [c]))) ∧
    ∀ before there between back after f g, calls = before ++ there :: between ++ back :: after →
      RoundTrip e o before there between back f g → g.amountOut ≤ f.amountIn := by
  have hne := tokens_ne_of_make hmade
  have hdebt : e.HasNoDebt o entries := hasNoDebt_of_empty hempty
  constructor
  · intro before c after hsplit
    have hbefore : (e.run before).HasNoDebt o entries := hasNoDebt_run hp hdebt fun d hd =>
      hcalls d (by rw [hsplit]; exact List.mem_append_left _ hd)
    have hc := hcalls c (by rw [hsplit]; exact List.mem_append_right _ List.mem_cons_self)
    rw [run_append]
    have hp' : IsPool (e.run before).instructions o.program entries := by
      rwa [run_instructions]
    rcases serve_cases hp' hbefore hc with hsame | ⟨q, f, x, y, hb⟩
    · exact keepsProduct_of_snapshot hsame
    · exact hb.keepsProduct hne
  · intro before there between back after f g hsplit htrip
    refine htrip.out_le hp hne (hasNoDebt_run hp hdebt fun d hd => hcalls d ?_)
      (hasNoDebt_run hp hdebt fun d hd => hcalls d ?_)
    · rw [hsplit, List.append_assoc]
      exact List.mem_append_left _ hd
    · rw [hsplit]
      exact List.mem_append_left _ hd

/-! ### A pool with a fee -/

/-- An address of forty times the same digit. -/
def addressOf (digit : Char) : String := String.ofList ('0' :: 'x' :: List.replicate 40 digit)

/-- Balances of 1000 and 2000, a fee of 30 basis points on the amount in, and a swap. -/
def feePool : Bytes :=
  [0x11, 105, 2] ++ List.replicate 20 0xaa ++ List.replicate 30 0 ++ [0x03, 0xe8]
    ++ List.replicate 20 0xbb ++ List.replicate 30 0 ++ [0x07, 0xd0]
    ++ [0x20, 2, 0, 30, 0x30, 8, 0x0d, 0xe0, 0xb6, 0xb3, 0xa7, 0x64, 0, 0]

/-- The balances that `feePool` lists. -/
def feePoolEntries : Entries := [(addressOf 'a', 1000), (addressOf 'b', 2000)]

theorem isPool_feePool : IsPool .standard feePool feePoolEntries := by
  let first : Record := ⟨0, .dynamicBalances, (feePool.drop 2).take 105⟩
  let fee : Record := ⟨107, .flatFeeIn, [0, 30]⟩
  let last : Record := ⟨111, .constantProduct, feePool.drop 113⟩
  have hvalid : (validate .standard feePool).toOption = some [first, fee, last] := by
    decide +kernel
  refine ⟨first, [fee], last, Outcome.eq_ok_of_toOption hvalid, rfl,
    ⟨1000000000000000000, rfl, rfl⟩, ?_⟩
  intro r hr
  rw [List.mem_singleton.1 hr]
  rfl

/-- An order with the program `feePool`. -/
def feePoolOrder : Order := ⟨addressOf 'c', addressOf 'a', addressOf 'b', feePool, 0⟩

/-- A swap of an exact amount in of the order. -/
def feePoolSwap (tokenIn tokenOut : Char) (amount : Int) : Call :=
  ⟨feePoolOrder, { tokenIn := .text (addressOf tokenIn)
                   tokenOut := .text (addressOf tokenOut)
                   amount := .int amount }, 0, none, .empty, true⟩

/-- An engine that has served no order yet. -/
def feePoolEngine : Engine := .start .default .standard none .empty

/-- The order `feePoolOrder` with another program. -/
def poolOrder (program : Bytes) : Order := { feePoolOrder with program }

theorem make_poolOrder (program : Bytes) :
    Order.make (.text (addressOf 'c')) (.text (addressOf 'a')) (.text (addressOf 'b'))
      (.bytes program) (.int 0) = .ok (poolOrder program) := rfl

/-- A call on such an order. -/
def poolCall (program : Bytes) (isExactIn isSwap : Bool) (tokenIn tokenOut : Char) (amount : Int) :
    Call :=
  ⟨poolOrder program, { tokenIn := .text (addressOf tokenIn)
                        tokenOut := .text (addressOf tokenOut)
                        amount := .int amount
                        isExactIn }, 0, none, .empty, isSwap⟩

/-- A swap of 100, which gives 180, and a swap of those back. -/
def thereAndBack : List Call := [feePoolSwap 'a' 'b' 100, feePoolSwap 'b' 'a' 180]

/-- The product does not fall from the listed balances to those after the first swap, nor from these
to the ones after the second. -/
theorem keepsProduct_thereAndBack :
    Order.make (.text (addressOf 'c')) (.text (addressOf 'a')) (.text (addressOf 'b'))
        (.bytes feePool) (.int 0) = .ok feePoolOrder ∧
      IsPool feePoolEngine.instructions feePoolOrder.program feePoolEntries ∧
      feePoolEngine.store = .empty ∧ (∀ c ∈ thereAndBack, c.order = feePoolOrder) ∧
      KeepsProduct feePoolOrder feePoolEntries feePoolEngine
        (feePoolEngine.run [feePoolSwap 'a' 'b' 100]) ∧
      KeepsProduct feePoolOrder feePoolEntries (feePoolEngine.run [feePoolSwap 'a' 'b' 100])
        (feePoolEngine.run thereAndBack) := by
  have hmade : Order.make (.text (addressOf 'c')) (.text (addressOf 'a')) (.text (addressOf 'b'))
      (.bytes feePool) (.int 0) = .ok feePoolOrder := rfl
  have hcalls : ∀ c ∈ thereAndBack, c.order = feePoolOrder := by
    intro c hc
    rcases List.mem_cons.1 hc with rfl | hc
    · rfl
    · rw [List.mem_singleton.1 hc]
      rfl
  obtain ⟨hkeeps, -⟩ := product_never_falls (e := feePoolEngine) hmade isPool_feePool rfl
    fun c hc => Or.inl (hcalls c hc)
  exact ⟨hmade, isPool_feePool, rfl, hcalls, hkeeps [] _ [feePoolSwap 'b' 'a' 180] rfl,
    hkeeps [feePoolSwap 'a' 'b' 100] (feePoolSwap 'b' 'a' 180) [] rfl⟩

end SwapMachine.Engine
