import SwapMachine.Proofs.Booking
import SwapMachine.Proofs.Calls

/-!
# SwapMachine.Proofs.Stock — what an engine has of the tokens of an order

* `Engine.stored`: the balance that is stored.
* `Engine.held`: what the engine has, the listed balance until one is stored.
* `walk_of_answer`: a swap that is answered reports and stores what its walk ends with.
-/

namespace SwapMachine.Engine

variable {e : Engine} {o : Order} {entries : Entries} {c : Call}

/-- The stored balance of a token for an order. -/
def stored (e : Engine) (o : Order) (token : String) : Option Int :=
  (e.store.snapshot o.hash).balances.get? token

/-- What an engine has of a token for an order: the stored balance or else the listed one. -/
def held (e : Engine) (o : Order) (entries : Entries) (token : String) : Option Int :=
  (e.store.overlay o.hash).held entries token

theorem held_of_stored {token : String} {x : Int} (h : e.stored o token = some x) :
    e.held o entries token = some x := by
  have hread : (e.store.overlay o.hash).balance? token = e.stored o token := rfl
  rw [held, Overlay.held, hread, h]
  rfl

theorem held_of_not_stored {token : String} (h : e.stored o token = none) :
    e.held o entries token = Overlay.listed? entries token := by
  have hread : (e.store.overlay o.hash).balance? token = e.stored o token := rfl
  rw [held, Overlay.held, hread, h]
  rfl

/-- What is stored where something else has been held is held then. -/
theorem held_of_stored_eq {e' : Engine} {token : String}
    (h : e'.stored o token = e.held o entries token) :
    e'.held o entries token = e.held o entries token := by
  cases hx : e.held o entries token with
  | some x => exact held_of_stored (h.trans hx)
  | none =>
    rw [held_of_not_stored (h.trans hx)]
    exact (Option.or_eq_none_iff.1 hx).2

theorem held_congr {e' : Engine} (h : e'.store.snapshot o.hash = e.store.snapshot o.hash) :
    e'.held o entries = e.held o entries := by
  funext token
  rw [held, held, Store.overlay, Store.overlay, h]

/-! ### Calls -/

theorem serve_instructions (e : Engine) (c : Call) :
    (e.serve c).instructions = e.instructions := by
  unfold serve
  split
  · unfold swap
    split <;> rfl
  · rfl

theorem run_instructions (e : Engine) (calls : List Call) :
    (e.run calls).instructions = e.instructions := by
  induction calls generalizing e with
  | nil => rfl
  | cons c calls ih => rw [run_cons, ih, serve_instructions]

/-- **A swap that is answered** reports the amounts that its walk ends with, and stores the balances.
-/
theorem walk_of_answer {f : Fill} (hswap : c.isSwap = true) (h : e.answer c = .ok f) :
    ∃ q amount w, query c.order c.order.hash c.request = .ok (q, amount) ∧
      Walk.through ((e.facing c).terms c.order q c.now false) 0
        (.start (figures c.request.isExactIn amount) (e.store.overlay c.order.hash)) = .ok w ∧
      w.sheet.isComputed = true ∧
      f = ⟨w.sheet.figures.amountIn, w.sheet.figures.amountOut, c.order.hash⟩ ∧
      ∀ token, (e.serve c).stored c.order token = w.sheet.overlay.balance? token := by
  obtain ⟨p, hpriced, rfl⟩ := answer_eq_ok h
  have hafter := serve_of_priced hswap hpriced
  rw [priceOf, hswap] at hpriced
  replace hpriced := priced_eq_ok hpriced
  obtain ⟨horder, hbase⟩ := origin_of_price hpriced
  obtain ⟨amount, w, hq, hw, hoverlay, hfill⟩ := price_eq_ok hpriced
  obtain ⟨hcomputed, hamounts, -⟩ := fill_eq_ok hfill
  have hget := Store.get?_publish hbase
  rw [horder] at hget
  rw [hoverlay] at hafter hget
  refine ⟨p.query, amount, w, hq, hw, hcomputed, hamounts, fun token => ?_⟩
  rw [hafter]
  exact hget token

/-! ### Pairs of tokens -/

theorem trades_cases {tokenIn tokenOut : String} (h : o.trades tokenIn tokenOut = true) :
    (tokenIn = o.token0 ∧ tokenOut = o.token1) ∨ (tokenIn = o.token1 ∧ tokenOut = o.token0) := by
  simpa [Order.trades] using h

theorem ne_of_trades {tokenIn tokenOut : String} (h : o.trades tokenIn tokenOut = true)
    (hne : o.token0 ≠ o.token1) : tokenIn ≠ tokenOut := by
  rcases trades_cases h with ⟨rfl, rfl⟩ | ⟨rfl, rfl⟩
  · exact hne
  · exact hne.symm

theorem tokens_ne_of_make {maker token0 token1 program flags : Datum}
    (h : Order.make maker token0 token1 program flags = .ok o) : o.token0 ≠ o.token1 := by
  obtain ⟨m, -, h⟩ := Outcome.bind_eq_ok.1 h
  obtain ⟨a, -, h⟩ := Outcome.bind_eq_ok.1 h
  obtain ⟨b, -, h⟩ := Outcome.bind_eq_ok.1 h
  split at h
  · cases h
  · rename_i hne
    obtain ⟨_, -, h⟩ := Outcome.bind_eq_ok.1 h
    obtain ⟨_, -, h⟩ := Outcome.bind_eq_ok.1 h
    cases h
    exact hne

end SwapMachine.Engine
