import SwapMachine.Proofs.Foreseen
import SwapMachine.Proofs.PoolHistory

/-!
# SwapMachine.Proofs.Conservation — stored balances are listed balances and what was traded

* `Engine.trades`: the swaps of an order that were answered, over any calls.
* `Moved`: what one of them does to the stored balances; `Accounts`: what many do.
* `balances_conserved`: after the first trade, the stored balances are the listed ones with all that
  was paid and without all that was given.
-/

namespace SwapMachine.Engine

open Program

/-- The tokens and amounts of a swap that was answered. -/
structure Trade where
  tokenIn : String
  tokenOut : String
  amountIn : Int
  amountOut : Int
  deriving DecidableEq

namespace Trade

variable {token : String} {ts : List Trade}

/-- What was paid of a token: the amounts in of the trades for which it is the token in. -/
def paid (token : String) (ts : List Trade) : Int :=
  ((ts.filter fun t => t.tokenIn = token).map amountIn).sum

/-- What was given of a token: the amounts out of the trades for which it is the token out. -/
def given (token : String) (ts : List Trade) : Int :=
  ((ts.filter fun t => t.tokenOut = token).map amountOut).sum

theorem paid_append (token : String) (ts us : List Trade) :
    paid token (ts ++ us) = paid token ts + paid token us := by
  simp only [paid, List.filter_append, List.map_append, List.sum_append]

theorem given_append (token : String) (ts us : List Trade) :
    given token (ts ++ us) = given token ts + given token us := by
  simp only [given, List.filter_append, List.map_append, List.sum_append]

theorem paid_eq_zero (h : ∀ t ∈ ts, t.tokenIn ≠ token) : paid token ts = 0 := by
  rw [paid, List.filter_eq_nil_iff.2 fun t ht => by simpa using h t ht]
  rfl

theorem given_eq_zero (h : ∀ t ∈ ts, t.tokenOut ≠ token) : given token ts = 0 := by
  rw [given, List.filter_eq_nil_iff.2 fun t ht => by simpa using h t ht]
  rfl

theorem paid_singleton (token : String) (t : Trade) :
    paid token [t] = if t.tokenIn = token then t.amountIn else 0 := by
  by_cases h : t.tokenIn = token <;> simp [paid, h]

theorem given_singleton (token : String) (t : Trade) :
    given token [t] = if t.tokenOut = token then t.amountOut else 0 := by
  by_cases h : t.tokenOut = token <;> simp [given, h]

end Trade

open Trade

variable {e e' e'' : Engine} {o : Order} {entries : Entries} {c : Call} {t : Trade}
  {ts us : List Trade}

/-- The trade that a call makes in an order, if it is a swap that is answered. -/
def trade? (e : Engine) (o : Order) (c : Call) : Option Trade :=
  if c.isSwap = true ∧ c.order.hash = o.hash then
    match e.answer c, requestAddress "token_in" c.request.tokenIn,
      requestAddress "token_out" c.request.tokenOut with
    | .ok f, .ok tokenIn, .ok tokenOut => some ⟨tokenIn, tokenOut, f.amountIn, f.amountOut⟩
    | _, _, _ => none
  else none

/-- The trades that calls in turn make in an order. -/
def trades (e : Engine) (o : Order) : List Call → List Trade
  | [] => []
  | c :: calls => (e.trade? o c).toList ++ (e.serve c).trades o calls

/-! ### One call -/

/-- A trade has moved its amounts between the balances of its tokens. -/
structure Moved (e e' : Engine) (o : Order) (entries : Entries) (t : Trade) (x y : Int) :
    Prop where
  trades : o.trades t.tokenIn t.tokenOut = true
  heldIn : e.held o entries t.tokenIn = some x
  heldOut : e.held o entries t.tokenOut = some y
  stored : ∀ token, e'.stored o token =
    if token = t.tokenOut then some (y - t.amountOut)
    else if token = t.tokenIn then some (x + t.amountIn) else e.held o entries token

/-- **One call** makes no trade and leaves the state of the order alone, or moves what it trades. -/
theorem serve_trade_cases (hp : LoadsFirst e.instructions o.program entries)
    (hc : c.order = o ∨ c.order.hash ≠ o.hash) :
    (e.trade? o c = none ∧ (e.serve c).store.snapshot o.hash = e.store.snapshot o.hash) ∨
      ∃ t x y, e.trade? o c = some t ∧ Moved e (e.serve c) o entries t x y := by
  unfold trade?
  rcases hc with rfl | hne
  · cases hswap : c.isSwap with
    | false =>
      refine Or.inl ⟨if_neg fun h => Bool.false_ne_true h.1, ?_⟩
      rw [serve_of_quote hswap]
      rfl
    | true =>
      rw [if_pos ⟨rfl, rfl⟩]
      cases hanswer : e.answer c with
      | error f =>
        refine Or.inl ⟨rfl, ?_⟩
        rw [serve_of_unpriced (answer_eq_error hanswer)]
        rfl
      | ok f =>
        obtain ⟨q, amount, w, hq, hw, hcomputed, rfl, hstored⟩ := walk_of_answer hswap hanswer
        obtain ⟨-, -, htrades, -, hin, hout⟩ := query_eq_ok hq
        have hloads : LoadsFirst ((e.facing c).terms c.order q c.now false).instructions
            ((e.facing c).terms c.order q c.now false).program entries := hp
        obtain ⟨x, y, hmoves⟩ := Walk.moves_of_through hloads hw hcomputed
        refine Or.inr ⟨⟨q.tokenIn, q.tokenOut, w.sheet.figures.amountIn,
          w.sheet.figures.amountOut⟩, x, y, ?_, htrades, hmoves.heldIn, hmoves.heldOut, ?_⟩
        · rw [hin, hout]
        · intro token
          rw [hstored]
          exact hmoves.balance? token
  · exact Or.inl ⟨if_neg fun h => hne h.2, snapshot_serve_of_ne hne.symm⟩

/-- A trade between different tokens adds what is paid and takes what is given. -/
theorem Moved.stored_eq {x y : Int} (h : Moved e e' o entries t x y) (hne : o.token0 ≠ o.token1)
    (token : String) : e'.stored o token =
      (e.held o entries token).map fun z => z + paid token [t] - given token [t] := by
  have htokens := ne_of_trades h.trades hne
  rw [h.stored, paid_singleton, given_singleton]
  by_cases hout : token = t.tokenOut
  · subst hout
    rw [if_pos rfl, h.heldOut, if_neg htokens, if_pos rfl, Option.map_some, Int.add_zero]
  · rw [if_neg hout, if_neg (Ne.symm hout)]
    by_cases hin : token = t.tokenIn
    · subst hin
      rw [if_pos rfl, h.heldIn, if_pos rfl, Option.map_some, Int.sub_zero]
    · rw [if_neg hin, if_neg (Ne.symm hin)]
      simp only [Int.add_zero, Int.sub_zero, Option.map_id']

/-! ### Many calls -/

/-- All that the engine has for the order is stored. -/
def StoresAll (e : Engine) (o : Order) (entries : Entries) : Prop :=
  ∀ token, e.stored o token = e.held o entries token

/-- From the first engine to the second, trades have moved what each of them says; after a trade all
balances are stored. -/
structure Accounts (o : Order) (entries : Entries) (e e' : Engine) (ts : List Trade) : Prop where
  held : ∀ token, e'.held o entries token =
    (e.held o entries token).map fun z => z + paid token ts - given token ts
  stores : ts ≠ [] ∨ e.StoresAll o entries → e'.StoresAll o entries
  possible : ∀ t ∈ ts, o.trades t.tokenIn t.tokenOut = true ∧
    (e.held o entries t.tokenIn).isSome = true ∧ (e.held o entries t.tokenOut).isSome = true

namespace Accounts

theorem of_snapshot (h : e'.store.snapshot o.hash = e.store.snapshot o.hash) :
    Accounts o entries e e' [] := by
  refine ⟨fun token => ?_, fun hs token => ?_, nofun⟩
  · rw [held_congr h]
    simp only [paid, given, List.filter_nil, List.map_nil, List.sum_nil, Int.add_zero,
      Int.sub_zero, Option.map_id']
  · rw [held_congr h, stored, h]
    exact hs.resolve_left (fun hne => hne rfl) token

theorem of_moved {x y : Int} (h : Moved e e' o entries t x y) (hne : o.token0 ≠ o.token1) :
    Accounts o entries e e' [t] := by
  have hstores : e'.StoresAll o entries := by
    intro token
    have hstored := h.stored_eq hne token
    cases hx : e.held o entries token with
    | some z =>
      rw [hx] at hstored
      rw [held_of_stored hstored, hstored]
      rfl
    | none =>
      rw [hx] at hstored
      rw [held_of_stored_eq (hstored.trans hx.symm), hx]
      exact hstored
  refine ⟨fun token => ?_, fun _ => hstores, fun u hu => ?_⟩
  · rw [← hstores]
    exact h.stored_eq hne token
  · rw [List.mem_singleton.1 hu, h.heldIn, h.heldOut]
    exact ⟨h.trades, rfl, rfl⟩

theorem trans (h : Accounts o entries e e' ts) (h' : Accounts o entries e' e'' us) :
    Accounts o entries e e'' (ts ++ us) := by
  have hsome (token : String) : (e'.held o entries token).isSome =
      (e.held o entries token).isSome := by
    rw [h.held, Option.isSome_map]
  refine ⟨fun token => ?_, fun hs => h'.stores ?_, fun t ht => ?_⟩
  · rw [h'.held, h.held, Option.map_map, paid_append, given_append]
    refine congrArg (Option.map · _) (funext fun z => ?_)
    simp only [Function.comp_apply]
    omega
  · cases us with
    | cons u us => exact Or.inl (List.cons_ne_nil u us)
    | nil =>
      rw [List.append_nil] at hs
      exact Or.inr (h.stores hs)
  · rcases List.mem_append.1 ht with ht | ht
    · exact h.possible t ht
    · obtain ⟨htrades, hin, hout⟩ := h'.possible t ht
      exact ⟨htrades, (hsome _).symm.trans hin, (hsome _).symm.trans hout⟩

end Accounts

theorem accounts_serve (hp : LoadsFirst e.instructions o.program entries)
    (hne : o.token0 ≠ o.token1) (hc : c.order = o ∨ c.order.hash ≠ o.hash) :
    Accounts o entries e (e.serve c) (e.trade? o c).toList := by
  rcases serve_trade_cases hp hc with ⟨hnone, hsame⟩ | ⟨t, x, y, hsome, hmoved⟩
  · rw [hnone]
    exact .of_snapshot hsame
  · rw [hsome]
    exact .of_moved hmoved hne

theorem accounts_run (hp : LoadsFirst e.instructions o.program entries)
    (hne : o.token0 ≠ o.token1) {calls : List Call}
    (hcalls : ∀ c ∈ calls, c.order = o ∨ c.order.hash ≠ o.hash) :
    Accounts o entries e (e.run calls) (e.trades o calls) := by
  induction calls generalizing e with
  | nil => exact .of_snapshot rfl
  | cons c calls ih =>
    have hp' : LoadsFirst (e.serve c).instructions o.program entries := by
      rwa [serve_instructions]
    refine (accounts_serve hp hne (hcalls c List.mem_cons_self)).trans (ih hp' fun d hd => ?_)
    exact hcalls d (List.mem_cons_of_mem c hd)

/-- What is stored for the order is what the program lists, with all that trades have paid and
without all that they have been given; tokens outside the pair keep what is listed, and nothing that
is stored is negative. -/
structure Balanced (e : Engine) (o : Order) (entries : Entries) (ts : List Trade) : Prop where
  pair : ∀ token, token = o.token0 ∨ token = o.token1 →
    ∃ listed, Overlay.listed? entries token = some listed ∧
      e.stored o token = some (listed + paid token ts - given token ts)
  others : ∀ token listed, token ≠ o.token0 → token ≠ o.token1 →
    Overlay.listed? entries token = some listed → e.stored o token = some listed
  nonneg : ∀ token x, e.stored o token = some x → 0 ≤ x

/-- The two tokens of a trade are the pair of the order. -/
theorem mem_pair_of_trades {tokenIn tokenOut : String} (token : String)
    (h : o.trades tokenIn tokenOut = true) :
    token = o.token0 ∨ token = o.token1 ↔ token = tokenIn ∨ token = tokenOut := by
  rcases trades_cases h with ⟨rfl, rfl⟩ | ⟨rfl, rfl⟩
  · exact Iff.rfl
  · exact or_comm

/-- **Balances are conserved**: an order whose program loads the stored balances first and nowhere
else, whatever else it does, at an engine that starts with an empty store, and any calls, of which
those on other orders have other hashes.  Once a swap has been answered, the stored balances of the
pair are the listed ones with the amounts that answered swaps were paid and without those that they
gave. -/
theorem balances_conserved {maker token0 token1 program flags : Datum}
    (hmade : Order.make maker token0 token1 program flags = .ok o)
    (hp : LoadsFirst e.instructions o.program entries) (hempty : e.store = .empty)
    {calls : List Call} (hcalls : ∀ c ∈ calls, c.order = o ∨ c.order.hash ≠ o.hash)
    (htraded : e.trades o calls ≠ []) :
    Balanced (e.run calls) o entries (e.trades o calls) := by
  have hne := tokens_ne_of_make hmade
  have haccounts := accounts_run hp hne hcalls
  have hstores := haccounts.stores (Or.inl htraded)
  have hheld (token : String) : e.held o entries token = Overlay.listed? entries token :=
    held_of_not_stored (by rw [stored, hempty]; rfl)
  obtain ⟨t, ts, htrades⟩ := List.exists_cons_of_ne_nil htraded
  refine ⟨fun token htoken => ?_, fun token listed h0 h1 hlisted => ?_, fun token x hx => ?_⟩
  · -- the first trade has found both tokens of the pair
    obtain ⟨hpair, hin, hout⟩ := haccounts.possible t (htrades ▸ List.mem_cons_self)
    have hsome : (e.held o entries token).isSome = true := by
      rcases (mem_pair_of_trades token hpair).1 htoken with rfl | rfl
      · exact hin
      · exact hout
    obtain ⟨listed, hlisted⟩ := Option.isSome_iff_exists.1 hsome
    refine ⟨listed, (hheld token).symm.trans hlisted, ?_⟩
    rw [hstores, haccounts.held, hlisted]
    rfl
  · have hother : ∀ t ∈ e.trades o calls, t.tokenIn ≠ token ∧ t.tokenOut ≠ token := by
      intro t ht
      have hpair := mem_pair_of_trades token (haccounts.possible t ht).1
      exact ⟨fun h => (hpair.2 (Or.inl h.symm)).elim h0 h1,
        fun h => (hpair.2 (Or.inr h.symm)).elim h0 h1⟩
    rw [hstores, haccounts.held, hheld, hlisted, paid_eq_zero fun t ht => (hother t ht).1,
      given_eq_zero fun t ht => (hother t ht).2, Option.map_some, Int.add_zero, Int.sub_zero]
  · have hsound : e.IsSound := fun order => by
      rw [hempty]
      exact Snapshot.isSound_empty
    exact (hsound.run calls o.hash).balances token x hx

/-- What the pool with a fee trades for 100. -/
theorem trades_feePoolSwap : feePoolEngine.trades feePoolOrder [feePoolSwap 'a' 'b' 100] =
    [⟨addressOf 'a', addressOf 'b', 100, 180⟩] := by
  have hamounts : (feePoolEngine.answer (feePoolSwap 'a' 'b' 100)).toOption.map
      (fun f => (f.amountIn, f.amountOut)) = some (100, 180) := by
    decide +kernel
  obtain ⟨⟨amountIn, amountOut, hash⟩, hf, hpair⟩ := Option.map_eq_some_iff.1 hamounts
  obtain ⟨rfl, rfl⟩ := Prod.mk.inj hpair
  have htrade : feePoolEngine.trade? feePoolOrder (feePoolSwap 'a' 'b' 100) =
      some ⟨addressOf 'a', addressOf 'b', 100, 180⟩ := by
    rw [trade?, if_pos ⟨rfl, rfl⟩, Outcome.eq_ok_of_toOption hf]
    rfl
  rw [trades, trades, htrade]
  rfl

/-- The pool with a fee lists 1000 and 2000; after 100 were swapped for 180, it has 1100 and 1820. -/
theorem balanced_feePoolSwap :
    Order.make (.text (addressOf 'c')) (.text (addressOf 'a')) (.text (addressOf 'b'))
        (.bytes feePool) (.int 0) = .ok feePoolOrder ∧
      LoadsFirst feePoolEngine.instructions feePoolOrder.program feePoolEntries ∧
      feePoolEngine.store = .empty ∧
      Balanced (feePoolEngine.run [feePoolSwap 'a' 'b' 100]) feePoolOrder feePoolEntries
        [⟨addressOf 'a', addressOf 'b', 100, 180⟩] := by
  have hmade : Order.make (.text (addressOf 'c')) (.text (addressOf 'a')) (.text (addressOf 'b'))
      (.bytes feePool) (.int 0) = .ok feePoolOrder := rfl
  have hcalls : ∀ c ∈ [feePoolSwap 'a' 'b' 100], c.order = feePoolOrder ∨
      c.order.hash ≠ feePoolOrder.hash := by
    intro c hc
    rw [List.mem_singleton.1 hc]
    exact Or.inl rfl
  have hbalanced := balances_conserved (e := feePoolEngine) hmade isPool_feePool.loadsFirst rfl
    hcalls (by rw [trades_feePoolSwap]; exact List.cons_ne_nil _ _)
  rw [trades_feePoolSwap] at hbalanced
  exact ⟨hmade, isPool_feePool.loadsFirst, rfl, hbalanced⟩

end SwapMachine.Engine
