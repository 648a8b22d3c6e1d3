import SwapMachine.Proofs.Commit
import SwapMachine.Proofs.Frame

/-!
# SwapMachine.Proofs.Calls — quotes and swaps at an engine, one after another

What outside parties answer may be different at each call, so a call brings its parties along.

* `Engine.priced`: what a request is priced at; the writes behind a price are over the snapshot that
  is current (`origin_of_price`).
* `quote_outcome`, `swap_of_priced`, `swap_of_unpriced`: quotes and swaps by their prices.
* `answer_eq`, `serve_of_priced`, `serve_of_unpriced`: the same for a call and its parties.
* `Engine.run`: the engine after calls in turn.
-/

namespace SwapMachine

namespace Engine

variable {e : Engine} {o : Order} {r : Request} {now : Int}

/-! ### Requests -/

theorem requestAmount_eq_ok {d : Datum} {z : Int} (h : requestAmount d = .ok z) :
    d = .int z ∧ 0 < z := by
  unfold requestAmount at h
  split at h
  · split at h
    · cases h
      exact ⟨rfl, ‹_›⟩
    · cases h
  · cases h

theorem query_eq_ok {hash : String} {q : Query} {amount : Int}
    (h : query o hash r = .ok (q, amount)) :
    q.order = hash ∧ q.isExactIn = r.isExactIn ∧ o.trades q.tokenIn q.tokenOut = true ∧
      (r.amount = .int amount ∧ 0 < amount) ∧
      requestAddress "token_in" r.tokenIn = .ok q.tokenIn ∧
      requestAddress "token_out" r.tokenOut = .ok q.tokenOut := by
  obtain ⟨tokenIn, hin, h⟩ := Outcome.bind_eq_ok.1 h
  obtain ⟨tokenOut, hout, h⟩ := Outcome.bind_eq_ok.1 h
  split at h
  · cases h
  · rename_i htrades
    obtain ⟨z, hz, h⟩ := Outcome.bind_eq_ok.1 h
    obtain ⟨taker, -, h⟩ := Outcome.bind_eq_ok.1 h
    cases h
    exact ⟨rfl, rfl, Decidable.not_not.1 htrades, requestAmount_eq_ok hz, hin, hout⟩

/-- An amount that the query leaves open keeps to the threshold. -/
def Keeps (r : Request) (f : Fill) (limit : Datum) : Prop :=
  if r.isExactIn then (Datum.int f.amountOut).isBelow limit = false
  else limit.isBelow (.int f.amountIn) = false

/-- A walk that gives a fill has met a swap, and what it has computed keeps to the threshold. -/
theorem fill_eq_ok {hash : String} {s : Walk.Sheet} {f : Fill} (h : fill r hash s = .ok f) :
    s.isComputed = true ∧ f = ⟨s.figures.amountIn, s.figures.amountOut, hash⟩ ∧
      ∀ limit, r.threshold = some limit → Keeps r f limit := by
  unfold fill at h
  by_cases hc : s.isComputed = true
  · refine ⟨hc, ?_⟩
    rw [if_neg (not_not_intro hc)] at h
    split at h
    · rename_i hnone
      cases h
      refine ⟨rfl, fun limit hlimit => ?_⟩
      rw [hnone] at hlimit
      cases hlimit
    · rename_i limit hsome
      rw [hsome]
      unfold Keeps
      split at h
      · rename_i hin
        obtain ⟨hkept, rfl⟩ := Outcome.of_refuse h
        refine ⟨rfl, fun limit' hlimit => ?_⟩
        obtain rfl := Option.some.inj hlimit
        rwa [if_pos hin]
      · rename_i hout
        obtain ⟨hkept, rfl⟩ := Outcome.of_refuse h
        refine ⟨rfl, fun limit' hlimit => ?_⟩
        obtain rfl := Option.some.inj hlimit
        rwa [if_neg hout]
  · rw [if_pos hc] at h
    cases h

theorem withRejection_outcome {α : Type} (what hash : String) (x : Report α) :
    (withRejection what hash x).outcome = x.outcome := by
  unfold withRejection
  split <;> rfl

/-- What a walk for a request has come to when there is a price. -/
theorem price_eq_ok {hash : String} {stopAtSwap : Bool} {p : Priced}
    (h : (price e o hash r now stopAtSwap).outcome = .ok p) :
    ∃ amount w, query o hash r = .ok (p.query, amount) ∧
      Walk.through (terms e o p.query now stopAtSwap) 0
        (.start (figures r.isExactIn amount) (e.store.overlay hash)) = .ok w ∧
      p.overlay = w.sheet.overlay ∧ fill r hash w.sheet = .ok p.fill := by
  unfold price at h
  cases hq : query o hash r with
  | error f => rw [hq] at h; cases h
  | ok qa =>
    obtain ⟨q, amount⟩ := qa
    rw [hq] at h
    dsimp only [priceWalk] at h
    cases hw : Walk.through (terms e o q now stopAtSwap) 0
        (.start (figures r.isExactIn amount) (e.store.overlay hash)) with
    | error f => rw [hw] at h; cases h
    | ok w =>
      rw [hw] at h
      dsimp only at h
      cases hf : fill r q.order w.sheet with
      | error f => rw [hf] at h; cases h
      | ok f =>
        rw [hf] at h
        cases h
        rw [(query_eq_ok hq).1] at hf
        exact ⟨amount, w, rfl, hw, rfl, hf⟩

/-- What a request for an order is priced at. -/
def priced (e : Engine) (o : Order) (r : Request) (now : Int) (stopAtSwap : Bool) :
    Outcome Priced := do
  let hash ← e.accept o
  (price e o hash r now stopAtSwap).outcome

theorem accept_eq_ok {hash : String} (h : e.accept o = .ok hash) : hash = o.hash := by
  obtain ⟨_, -, h⟩ := Outcome.bind_eq_ok.1 h
  dsimp only at h
  split at h
  · cases h
  · cases h; rfl

theorem priced_eq_ok {stopAtSwap : Bool} {p : Priced} (h : e.priced o r now stopAtSwap = .ok p) :
    (price e o o.hash r now stopAtSwap).outcome = .ok p := by
  obtain ⟨hash, hhash, h⟩ := Outcome.bind_eq_ok.1 h
  obtain rfl := accept_eq_ok hhash
  exact h

/-- The writes behind a price are to the order that was asked for, over its current snapshot. -/
theorem origin_of_price {hash : String} {stopAtSwap : Bool} {p : Priced}
    (h : (price e o hash r now stopAtSwap).outcome = .ok p) :
    p.overlay.order = hash ∧ p.overlay.base = e.store.snapshot p.overlay.order := by
  obtain ⟨amount, w, -, hw, hoverlay, -⟩ := price_eq_ok h
  rw [Walk.through_zero] at hw
  obtain ⟨horder, hbase⟩ := Walk.origin_of_run hw
  rw [hoverlay]
  refine ⟨horder, ?_⟩
  rw [hbase, horder]
  rfl

/-! ### Quotes and swaps -/

/-- **A quote** answers with the fill of the price. -/
theorem quote_outcome (e : Engine) (o : Order) (r : Request) (now : Int) :
    (e.quote o r now).outcome = Priced.fill <$> e.priced o r now true := by
  unfold quote priced
  cases e.accept o with
  | error f => rfl
  | ok hash =>
    dsimp only
    rw [withRejection_outcome]
    rfl

theorem commit_of_priced {s : Store} {x : Report Priced} {p : Priced} (h : x.outcome = .ok p)
    (hbase : p.overlay.base = s.snapshot p.overlay.order) :
    (commit s x).1.outcome = .ok p.fill ∧ (commit s x).2 = s.publish p.overlay := by
  obtain ⟨c, hc⟩ := Store.commit_of_current hbase
  unfold commit
  rw [h]
  dsimp only
  rw [hc]
  exact ⟨rfl, Store.store_of_commit hc⟩

theorem commit_of_unpriced {s : Store} {x : Report Priced} {f : Fault} (h : x.outcome = .error f) :
    (commit s x).1.outcome = .error f ∧ (commit s x).2 = s := by
  unfold commit
  rw [h]
  exact ⟨rfl, rfl⟩

/-- The engine while a swap of the order goes on. -/
def locked (e : Engine) (o : Order) : Engine := { e with store := e.store.lock o.hash }

/-- A swap of an order that is accepted prices it under the order's lock. -/
theorem swap_of_accept (h : e.accept o = .ok o.hash) (r : Request) (now : Int) :
    ∃ x : Report Priced, x.outcome = (price e o o.hash r now false).outcome ∧
      (e.swap o r now).1 = (commit (locked e o).store x).1 ∧
      (e.swap o r now).2 = { e with store := (commit (locked e o).store x).2.unlock o.hash } := by
  -- prices do not depend on locks
  have hlocked : price (locked e o) o o.hash r now false = price e o o.hash r now false := rfl
  refine ⟨withRejection "swap" o.hash (price (locked e o) o o.hash r now false), ?_, ?_⟩
  · rw [withRejection_outcome, hlocked]
  · unfold swap
    rw [h]
    exact ⟨rfl, rfl⟩

/-- **A swap that has a price** answers with its fill and publishes the writes behind it. -/
theorem swap_of_priced {p : Priced} (h : e.priced o r now false = .ok p) :
    (e.swap o r now).1.outcome = .ok p.fill ∧
      (e.swap o r now).2 = { e with store := e.store.publish p.overlay } := by
  obtain ⟨-, hbase⟩ := origin_of_price (priced_eq_ok h)
  obtain ⟨hash, hhash, h⟩ := Outcome.bind_eq_ok.1 h
  obtain rfl := accept_eq_ok hhash
  obtain ⟨x, hx, hout, hafter⟩ := swap_of_accept hhash r now
  obtain ⟨hfill, hstore⟩ :=
    commit_of_priced (s := (locked e o).store) (hx.trans h) hbase
  rw [hout, hafter, hstore]
  refine ⟨hfill, ?_⟩
  rw [locked, Store.unlock_publish_lock]

/-- **A swap that has no price** answers with the fault and leaves the engine as it is. -/
theorem swap_of_unpriced {f : Fault} (h : e.priced o r now false = .error f) :
    (e.swap o r now).1.outcome = .error f ∧ (e.swap o r now).2 = e := by
  cases ha : e.accept o with
  | error g =>
    rw [priced, ha] at h
    cases h
    unfold swap
    rw [ha]
    exact ⟨rfl, rfl⟩
  | ok hash =>
    obtain rfl := accept_eq_ok ha
    rw [priced, ha] at h
    obtain ⟨x, hx, hout, hafter⟩ := swap_of_accept ha r now
    obtain ⟨hfault, hstore⟩ := commit_of_unpriced (s := (locked e o).store) (hx.trans h)
    rw [hout, hafter, hstore]
    refine ⟨hfault, ?_⟩
    simp only [locked, Store.lock, Store.unlock, List.erase_cons_head]

/-! ### Calls in turn -/

/-- A call with the parties that answer during it: a swap or a quote. -/
structure Call where
  order : Order
  request : Request
  now : Int
  ledger : Option Ledger
  feeSources : FeeSources
  isSwap : Bool

/-- The engine with the parties of a call. -/
def facing (e : Engine) (c : Call) : Engine :=
  { e with ledger := c.ledger, feeSources := c.feeSources }

/-- What the engine answers to a call. -/
def answer (e : Engine) (c : Call) : Outcome Fill :=
  if c.isSwap then ((e.facing c).swap c.order c.request c.now).1.outcome
  else ((e.facing c).quote c.order c.request c.now).outcome

/-- The engine after a call. -/
def serve (e : Engine) (c : Call) : Engine :=
  if c.isSwap then ((e.facing c).swap c.order c.request c.now).2 else e.facing c

/-- What a call is priced at. -/
def priceOf (e : Engine) (c : Call) : Outcome Priced :=
  (e.facing c).priced c.order c.request c.now (!c.isSwap)

variable {c : Call} {p : Priced}

/-- **Answers** are the fills of prices. -/
theorem answer_eq (e : Engine) (c : Call) : e.answer c = Priced.fill <$> e.priceOf c := by
  unfold answer priceOf
  cases c.isSwap with
  | true =>
    rw [if_pos rfl, Bool.not_true]
    cases hp : (e.facing c).priced c.order c.request c.now false with
    | ok p => exact (swap_of_priced hp).1
    | error f => exact (swap_of_unpriced hp).1
  | false =>
    rw [if_neg Bool.false_ne_true, Bool.not_false]
    exact quote_outcome _ _ _ _

theorem answer_eq_ok {f : Fill} (h : e.answer c = .ok f) :
    ∃ p, e.priceOf c = .ok p ∧ f = p.fill := by
  rw [answer_eq] at h
  cases hp : e.priceOf c with
  | ok p => rw [hp] at h; cases h; exact ⟨p, rfl, rfl⟩
  | error g => rw [hp] at h; cases h

theorem answer_eq_error {f : Fault} (h : e.answer c = .error f) : e.priceOf c = .error f := by
  rw [answer_eq] at h
  cases hp : e.priceOf c with
  | ok p => rw [hp] at h; cases h
  | error g => rw [hp] at h; cases h; rfl

/-- A swap that has a price publishes the writes behind it, and does nothing else. -/
theorem serve_of_priced (hswap : c.isSwap = true) (h : e.priceOf c = .ok p) :
    e.serve c = { e.facing c with store := e.store.publish p.overlay } := by
  rw [priceOf, hswap] at h
  rw [serve, if_pos hswap]
  exact (swap_of_priced h).2

/-- A call that has no price does nothing. -/
theorem serve_of_unpriced {f : Fault} (h : e.priceOf c = .error f) : e.serve c = e.facing c := by
  by_cases hswap : c.isSwap = true
  · rw [priceOf, hswap] at h
    rw [serve, if_pos hswap]
    exact (swap_of_unpriced h).2
  · rw [serve, if_neg hswap]

/-- A quote does nothing. -/
theorem serve_of_quote (hquote : c.isSwap = false) : e.serve c = e.facing c := by
  rw [serve, hquote, if_neg Bool.false_ne_true]

/-- A call changes the snapshot of its own order at most. -/
theorem snapshot_serve_of_ne {order : String} (hne : order ≠ c.order.hash) :
    (e.serve c).store.snapshot order = e.store.snapshot order := by
  cases hp : e.priceOf c with
  | error f => rw [serve_of_unpriced hp]; rfl
  | ok p =>
    cases hswap : c.isSwap with
    | false => rw [serve_of_quote hswap]; rfl
    | true =>
      obtain ⟨horder, -⟩ := origin_of_price (priced_eq_ok hp)
      rw [serve_of_priced hswap hp]
      exact Store.snapshot_publish_of_ne fun heq => hne (heq.trans horder)

/-- A call leaves the snapshot of an order alone, or is a swap of the order that is answered. -/
theorem snapshot_serve (ho : c.order = o ∨ c.order.hash ≠ o.hash) :
    (e.serve c).store.snapshot o.hash = e.store.snapshot o.hash ∨
      (c.order = o ∧ c.isSwap = true ∧ ∃ f, e.answer c = .ok f) := by
  rcases ho with ho | hne
  · cases hanswer : e.answer c with
    | error f =>
      refine Or.inl ?_
      rw [serve_of_unpriced (answer_eq_error hanswer)]
      rfl
    | ok f =>
      cases hswap : c.isSwap with
      | true => exact Or.inr ⟨ho, rfl, f, rfl⟩
      | false =>
        refine Or.inl ?_
        rw [serve_of_quote hswap]
        rfl
  · exact Or.inl (snapshot_serve_of_ne hne.symm)

/-- The engine after calls in turn. -/
def run (e : Engine) (calls : List Call) : Engine := calls.foldl serve e

@[simp] theorem run_nil (e : Engine) : e.run [] = e := rfl

@[simp] theorem run_cons (e : Engine) (c : Call) (calls : List Call) :
    e.run (c :: calls) = (e.serve c).run calls := rfl

theorem run_append (e : Engine) (xs ys : List Call) : e.run (xs ++ ys) = (e.run xs).run ys :=
  List.foldl_append

end Engine

end SwapMachine
