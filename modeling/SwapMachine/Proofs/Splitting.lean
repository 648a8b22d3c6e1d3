import Mathlib.Data.List.Forall2
import SwapMachine.Proofs.Honour
import SwapMachine.Proofs.Inverse
import SwapMachine.Proofs.Isolation
import SwapMachine.Proofs.Payable
import SwapMachine.Proofs.Straight

/-!
# SwapMachine.Proofs.Splitting — trades in parts are no better than at once

Each part of a trade is rounded, and is priced on the balances that the one before it leaves.

* `Power.Chain`: trades along the constant product in turn.  They do not lower the product of the
  balances (`Chain.mul_le_mul`), so one trade that pays as much gives no less (`Chain.exactIn_ge`),
  and one that gives as much asks no more (`Chain.exactOut_le`).
* `Engine.deal_of_answer`, `Engine.answer_of_deal`: at a pool without fees, answers are such trades
  on what the order has.
* `Engine.splitting_never_helps`: swaps in turn compared with a quote for the sum of their amounts.
-/

namespace SwapMachine

/-- A valid program that loads stored balances and swaps along the constant product. -/
def Program.IsBare (set : InstructionSet) (program : Bytes) (entries : Entries) : Prop :=
  ∃ first last, validate set program = .ok [first, last] ∧
    first.parse = .ok (.dynamicBalances entries) ∧
    ∃ alpha : Nat, (alpha : Int) = FixedPoint.one ∧ last.parse = .ok (.constantProduct alpha)

/-- The records of a bare pool do not jump, and only the last one swaps. -/
theorem Program.isStraight_of_isBare {set : InstructionSet} {program : Bytes} {entries : Entries}
    {first last : Record} {alpha : Nat} (hv : validate set program = .ok [first, last])
    (hfirst : first.parse = .ok (.dynamicBalances entries))
    (hlast : last.parse = .ok (.constantProduct alpha)) :
    IsStraight set program [first, last] ∧ EndsInOnlySwap set program := by
  have hload := (Instruction.parse_eq_ok hfirst).1
  have hswap := (Instruction.parse_eq_ok hlast).1
  refine ⟨⟨hv, fun r hr => ?_⟩, [first], last, hv, hswap ▸ rfl, fun r hr => ?_⟩
  · simp only [List.mem_cons, List.not_mem_nil, or_false] at hr
    rcases hr with rfl | rfl
    · rw [← hload]; rfl
    · rw [← hswap]; rfl
  · rw [List.mem_singleton.1 hr, ← hload]
    rfl

/-- The amount that is paid and the one that is given. -/
def Fill.amounts (f : Fill) : Int × Int := (f.amountIn, f.amountOut)

/-! ### Trades in turn -/

namespace Curve.Power

open FixedPoint Number

variable {limits : Limits} {isExactIn : Bool} {x y a b amount : Int} {ts : List (Int × Int)}

/-- The amounts of a trade at exponent one, one of which is fixed. -/
def trade (limits : Limits) (isExactIn : Bool) (x y amount : Int) : Outcome (Int × Int) :=
  if isExactIn then return (amount, ← exactIn x y amount one)
  else return ((← exactOut x y amount one limits).amountIn, amount)

theorem trade_exactIn_iff : trade limits true x y amount = .ok (a, b) ↔
    a = amount ∧ exactIn x y amount one = .ok b := by
  constructor
  · intro h
    obtain ⟨b', hb, h⟩ := Outcome.bind_eq_ok.1 h
    cases h
    exact ⟨rfl, hb⟩
  · rintro ⟨rfl, hb⟩
    exact Outcome.bind_eq_ok.2 ⟨b, hb, rfl⟩

theorem trade_exactOut_iff : trade limits false x y amount = .ok (a, b) ↔
    b = amount ∧ ∃ q, exactOut x y amount one limits = .ok q ∧ q.amountIn = a := by
  constructor
  · intro h
    obtain ⟨q, hq, h⟩ := Outcome.bind_eq_ok.1 h
    cases h
    exact ⟨rfl, q, hq, rfl⟩
  · rintro ⟨rfl, q, hq, rfl⟩
    exact Outcome.bind_eq_ok.2 ⟨q, hq, rfl⟩

/-- A trade has the amount that is fixed. -/
theorem fixed_of_trade (h : trade limits isExactIn x y amount = .ok (a, b)) :
    (if isExactIn then a else b) = amount := by
  cases isExactIn with
  | true => exact (trade_exactIn_iff.1 h).1
  | false => exact (trade_exactOut_iff.1 h).1

theorem fair_of_trade (h : trade limits isExactIn x y amount = .ok (a, b)) :
    0 < x ∧ 0 < y ∧ Fair x y a b := by
  cases isExactIn with
  | true =>
    obtain ⟨rfl, hb⟩ := trade_exactIn_iff.1 h
    exact fair_of_exactIn hb
  | false =>
    obtain ⟨rfl, q, hq, rfl⟩ := trade_exactOut_iff.1 h
    exact fair_of_exactOut hq

/-- The amount that a trade fixes is positive. -/
theorem pos_of_trade (h : trade limits isExactIn x y amount = .ok (a, b)) : 0 < amount := by
  cases isExactIn with
  | true =>
    obtain ⟨-, hb⟩ := trade_exactIn_iff.1 h
    exact (exactIn_eq_ok hb).2.2.1
  | false =>
    obtain ⟨-, q, hq, -⟩ := trade_exactOut_iff.1 h
    exact (delivers_of_exactOut hq).1

/-- Trades in turn, each on the balances that the one before leaves. -/
def Chain (limits : Limits) (isExactIn : Bool) : Int → Int → List (Int × Int) → Prop
  | _, _, [] => True
  | x, y, (a, b) :: ts =>
    trade limits isExactIn x y (if isExactIn then a else b) = .ok (a, b) ∧
      Chain limits isExactIn (x + a) (y - b) ts

/-- What trades pay in all. -/
def paid (ts : List (Int × Int)) : Int := (ts.map Prod.fst).sum

/-- What trades give in all. -/
def given (ts : List (Int × Int)) : Int := (ts.map Prod.snd).sum

@[simp] theorem paid_cons (t : Int × Int) (ts : List (Int × Int)) :
    paid (t :: ts) = t.1 + paid ts := by
  rw [paid, List.map_cons, List.sum_cons, paid]

@[simp] theorem given_cons (t : Int × Int) (ts : List (Int × Int)) :
    given (t :: ts) = t.2 + given ts := by
  rw [given, List.map_cons, List.sum_cons, given]

/-- **Trades in turn** do not lower the product of the balances. -/
theorem Chain.mul_le_mul (h : Chain limits isExactIn x y ts) :
    x * y ≤ (x + paid ts) * (y - given ts) := by
  induction ts generalizing x y with
  | nil =>
    rw [show paid [] = 0 from rfl, show given [] = 0 from rfl, Int.add_zero, Int.sub_zero]
  | cons t ts ih =>
    obtain ⟨htrade, hrest⟩ := h
    calc x * y ≤ (x + t.1) * (y - t.2) := (fair_of_trade htrade).2.2.mul_le_mul
      _ ≤ (x + t.1 + paid ts) * (y - t.2 - given ts) := ih hrest
      _ = (x + paid (t :: ts)) * (y - given (t :: ts)) := by
        rw [paid_cons, given_cons, Int.add_assoc, Int.sub_sub]

/-- Trades in turn that fix what is paid leave no more than a 256-bit unsigned number. -/
theorem Chain.isUint (h : Chain limits true x y ts) (hne : ts ≠ []) :
    0 < paid ts ∧ IsUint (x + paid ts) := by
  induction ts generalizing x y with
  | nil => exact absurd rfl hne
  | cons t ts ih =>
    obtain ⟨htrade, hrest⟩ := h
    obtain ⟨-, hb⟩ := trade_exactIn_iff.1 htrade
    have hpays : 0 < t.1 := (fair_of_exactIn hb).2.2.pays
    rw [paid_cons, ← Int.add_assoc]
    cases ts with
    | nil =>
      rw [show paid [] = 0 from rfl, Int.add_zero, Int.add_zero]
      exact ⟨hpays, (isUint_of_exactIn hb).2⟩
    | cons t' ts =>
      obtain ⟨hpos, hsum⟩ := ih hrest (by simp)
      exact ⟨by omega, hsum⟩

/-- **Paying at once** what trades in turn pay gives no less. -/
theorem Chain.exactIn_ge (h : Chain limits true x y ts) (hne : ts ≠ []) :
    ∃ out, exactIn x y (paid ts) one = .ok out ∧ given ts ≤ out := by
  obtain ⟨hpaid, hsum⟩ := h.isUint hne
  have hproduct := h.mul_le_mul
  cases ts with
  | nil => exact absurd rfl hne
  | cons t ts =>
    obtain ⟨hb, -⟩ := h
    replace hb := (trade_exactIn_iff.1 hb).2
    obtain ⟨hx, hy, -⟩ := fair_of_exactIn hb
    refine ⟨_, exactIn_one_of_isUint hx ⟨hy, (isUint_of_exactIn hb).1⟩ hpaid hsum, ?_⟩
    rw [le_floorDiv_iff (by omega)]
    have hexpand : (x + paid (t :: ts)) * (y - given (t :: ts)) =
        x * y + y * paid (t :: ts) - given (t :: ts) * (x + paid (t :: ts)) := by grind
    omega

/-- **Asking at once** for what trades in turn give costs no more. -/
theorem Chain.exactOut_le {limits' : Limits} {q : Quote} (h : Chain limits isExactIn x y ts)
    (hq : exactOut x y (given ts) one limits' = .ok q) : q.amountIn ≤ paid ts := by
  obtain ⟨hlt, rfl⟩ := exactOut_one hq
  rw [ceilDiv_le_iff (by omega)]
  have hproduct := h.mul_le_mul
  have hexpand : (x + paid ts) * (y - given ts) =
      x * y - x * given ts + paid ts * (y - given ts) := by grind
  omega

end Curve.Power

/-! ### Walks of bare pools -/

namespace Walk

open Program Curve FixedPoint

variable {t : Terms} {entries : Entries} {first last : Record} {alpha : Nat} {f : Figures}
  {o : Overlay} {s v u : Sheet} {x y a b : Int}

/-- A swap along the constant product is a trade on the balances of the sheet. -/
theorem trade_of_pass (halpha : (alpha : Int) = one)
    (hlast : last.parse = .ok (.constantProduct alpha)) (h : pass t [last] s = .ok v) :
    v.overlay = s.overlay ∧ Power.trade t.limits t.query.isExactIn s.figures.balanceIn
      s.figures.balanceOut (s.figures.fixed t.query) =
        .ok (v.figures.amountIn, v.figures.amountOut) := by
  obtain ⟨e, v', he, hv, hu⟩ := effect_of_pass hlast h
  cases hv
  obtain ⟨hin, hout⟩ := (Acted.of_effect he).swap rfl
  unfold Figures.fixed
  cases hmode : t.query.isExactIn with
  | true =>
    obtain ⟨given, hgiven, rfl⟩ := hin hmode
    cases hu
    replace hgiven := Option.some.inj hgiven
    rw [halpha] at hgiven
    exact ⟨rfl, Power.trade_exactIn_iff.2 ⟨rfl, hgiven⟩⟩
  | false =>
    obtain ⟨asked, notes, hasked, rfl⟩ := hout hmode
    cases hu
    obtain ⟨q, hq, hin⟩ := Outcome.bind_eq_ok.1 (Option.some.inj hasked)
    cases hin
    rw [halpha] at hq
    exact ⟨rfl, Power.trade_exactOut_iff.2 ⟨rfl, q, hq, rfl⟩⟩

theorem pass_of_trade (halpha : (alpha : Int) = one)
    (hlast : last.parse = .ok (.constantProduct alpha))
    (h : Power.trade t.limits t.query.isExactIn s.figures.balanceIn s.figures.balanceOut
      (s.figures.fixed t.query) = .ok (a, b)) :
    ∃ v, pass t [last] s = .ok v ∧ v.isComputed = true ∧ v.overlay = s.overlay ∧
      v.figures.amountIn = a ∧ v.figures.amountOut = b := by
  have hpass {s' : Sheet} (h : Effect.constantProduct t last.pc alpha s = .ok s') :
      pass t [last] s = .ok (s'.swapped last.pc t.stopAtSwap) := by
    rw [pass_cons hlast]
    exact Outcome.bind_eq_ok.2 ⟨.now (s'.swapped last.pc t.stopAtSwap),
      Outcome.bind_eq_ok.2 ⟨s', h, rfl⟩, rfl⟩
  unfold Figures.fixed at h
  unfold Effect.constantProduct at hpass
  rw [halpha] at hpass
  cases hmode : t.query.isExactIn with
  | true =>
    rw [hmode] at h hpass
    obtain ⟨rfl, hb⟩ := Power.trade_exactIn_iff.1 h
    exact ⟨_, hpass (Outcome.bind_eq_ok.2 ⟨b, hb, rfl⟩), rfl, rfl, rfl, rfl⟩
  | false =>
    rw [hmode] at h hpass
    obtain ⟨rfl, q, hq, rfl⟩ := Power.trade_exactOut_iff.1 h
    exact ⟨_, hpass (Outcome.bind_eq_ok.2 ⟨q, hq, rfl⟩), rfl, rfl, rfl, rfl⟩

/-- What a walk of a bare pool has come to: a trade on what the pool has, which is booked. -/
structure Deals (t : Terms) (entries : Entries) (f : Figures) (o : Overlay) (u : Sheet)
    (x y : Int) : Prop where
  heldIn : o.held entries t.query.tokenIn = some x
  heldOut : o.held entries t.query.tokenOut = some y
  trade : Power.trade t.limits t.query.isExactIn x y (f.fixed t.query) =
    .ok (u.figures.amountIn, u.figures.amountOut)
  balance? : ∀ token, u.overlay.balance? token =
    if token = t.query.tokenOut then some (y - u.figures.amountOut)
    else if token = t.query.tokenIn then some (x + u.figures.amountIn) else o.held entries token

theorem deals_of_pass (halpha : (alpha : Int) = one)
    (hfirst : first.parse = .ok (.dynamicBalances entries))
    (hlast : last.parse = .ok (.constantProduct alpha))
    (h : pass t [first, last] (.start f o) = .ok u) (hc : u.isComputed = true) :
    ∃ x y, Deals t entries f o u x y := by
  obtain ⟨loaded, x, y, v, o', hinit, hx, hy, hv, -, hbooked, rfl⟩ := loaded_of_pass hfirst h hc
  have hheld : ∀ token, loaded.balance? token = o.held entries token := (initialise_eq_ok hinit).2.2
  obtain ⟨hoverlay, htrade⟩ := trade_of_pass halpha hlast hv
  obtain ⟨-, hbalance⟩ := balance?_of_booked hx hy (fun token => hoverlay ▸ rfl) hbooked
  rw [Overlay.balance_eq_ok_iff, hheld] at hx hy
  refine ⟨x, y, hx, hy, htrade, fun token => ?_⟩
  exact (hbalance token).trans (hheld token ▸ rfl)

/-- A walk of a bare pool comes to its end wherever there is a trade. -/
theorem pass_of_deal (halpha : (alpha : Int) = one)
    (hfirst : first.parse = .ok (.dynamicBalances entries))
    (hlast : last.parse = .ok (.constantProduct alpha))
    (hx : o.held entries t.query.tokenIn = some x) (hy : o.held entries t.query.tokenOut = some y)
    (h : Power.trade t.limits t.query.isExactIn x y (f.fixed t.query) = .ok (a, b)) :
    ∃ u, pass t [first, last] (.start f o) = .ok u ∧ u.isComputed = true ∧
      u.figures.amountIn = a ∧ u.figures.amountOut = b := by
  obtain ⟨loaded, hinit⟩ := exists_initialise entries o
  have hheld : ∀ token, loaded.balance? token = o.held entries token := (initialise_eq_ok hinit).2.2
  have hbalance {token : String} {z : Int} (hz : o.held entries token = some z) :
      loaded.balance token = .ok z := Overlay.balance_eq_ok_iff.2 ((hheld token).trans hz)
  let s : Sheet := ((Sheet.start f o).writing loaded).withBalances x y
  obtain ⟨v, hv, hc, hoverlay, rfl, rfl⟩ := pass_of_trade (s := s) halpha hlast h
  obtain ⟨hxpos, -, hfair⟩ := Power.fair_of_trade h
  have hpays := hfair.pays
  have hin : v.overlay.balance? t.query.tokenIn = some x := hoverlay ▸ (hheld _).trans hx
  have hout : v.overlay.balance? t.query.tokenOut = some y := hoverlay ▸ (hheld _).trans hy
  obtain ⟨o', ho'⟩ := settleBook_of_covered (f := v.figures) hin hout (Int.le_of_lt hfair.leaves)
    (by omega)
  refine ⟨v.writing o', ?_, hc, rfl, rfl⟩
  rw [pass_cons hfirst, effect_of_load (s := .start f o) hinit (hbalance hx) (hbalance hy)]
  exact (congrArg (· >>= conclude t (some .book)) hv).trans (settle_book hc ho')

end Walk

/-! ### Answers of bare pools -/

namespace Engine

open Program Curve

variable {e : Engine} {o : Order} {entries : Entries} {c : Call} {q : Query} {f : Fill}
  {amount x y a b : Int}

/-- A call is answered with the amounts of a trade on what the order has. -/
structure Deal (e : Engine) (entries : Entries) (c : Call) (q : Query) (amount x y : Int)
    (f : Fill) : Prop where
  accepted : e.accept c.order = .ok c.order.hash
  query : query c.order c.order.hash c.request = .ok (q, amount)
  heldIn : e.held c.order entries q.tokenIn = some x
  heldOut : e.held c.order entries q.tokenOut = some y
  trade : Power.trade e.settings.limits c.request.isExactIn x y amount =
    .ok (f.amountIn, f.amountOut)

theorem Deal.of_deals {u : Walk.Sheet} (haccept : e.accept c.order = .ok c.order.hash)
    (hq : Engine.query c.order c.order.hash c.request = .ok (q, amount))
    (hd : Walk.Deals ((e.facing c).terms c.order q c.now false) entries
      (figures c.request.isExactIn amount) (e.store.overlay c.order.hash) u x y)
    (hf : f = ⟨u.figures.amountIn, u.figures.amountOut, c.order.hash⟩) :
    Deal e entries c q amount x y f := by
  have hmode : q.isExactIn = c.request.isExactIn := (query_eq_ok hq).2.1
  have htrade : Power.trade e.settings.limits q.isExactIn x y
      ((figures c.request.isExactIn amount).fixed q) = _ := hd.trade
  rw [← hmode, fixed_figures, hmode] at htrade
  exact ⟨haccept, hq, hd.heldIn, hd.heldOut, hf ▸ htrade⟩

/-- **Answers** of a bare pool are trades on what the order has. -/
theorem deal_of_answer (hp : IsBare e.instructions c.order.program entries)
    (h : e.answer c = .ok f) : ∃ q amount x y, Deal e entries c q amount x y f := by
  obtain ⟨first, last, hv, hfirst, alpha, halpha, hlast⟩ := hp
  obtain ⟨hstraight, hends⟩ := isStraight_of_isBare hv hfirst hlast
  rw [answer_straight hstraight hends (e.store.overlay c.order.hash)] at h
  obtain ⟨hash, hhash, h⟩ := Outcome.bind_eq_ok.1 h
  obtain rfl := accept_eq_ok hhash
  obtain ⟨⟨q, amount⟩, hq, h⟩ := Outcome.bind_eq_ok.1 h
  obtain ⟨s, hs, h⟩ := Outcome.bind_eq_ok.1 h
  obtain ⟨hcomputed, hf, -⟩ := fill_eq_ok h
  obtain ⟨u, hu, rfl⟩ := Outcome.map_eq_ok.1 hs
  obtain ⟨x, y, hd⟩ := Walk.deals_of_pass halpha hfirst hlast hu hcomputed
  exact ⟨q, amount, x, y, .of_deals hhash hq hd ((query_eq_ok hq).1 ▸ hf)⟩

/-- A swap that is answered books its trade. -/
theorem deal_of_swap (hp : IsBare e.instructions c.order.program entries)
    (hne : c.order.token0 ≠ c.order.token1) (hswap : c.isSwap = true) (h : e.answer c = .ok f) :
    ∃ q amount x y, Deal e entries c q amount x y f ∧
      (e.serve c).held c.order entries q.tokenIn = some (x + f.amountIn) ∧
      (e.serve c).held c.order entries q.tokenOut = some (y - f.amountOut) := by
  obtain ⟨first, last, hv, hfirst, alpha, halpha, hlast⟩ := hp
  obtain ⟨hstraight, -⟩ := isStraight_of_isBare hv hfirst hlast
  obtain ⟨q, amount, s, hpassed⟩ := passed_of_answer hstraight hswap h
  obtain ⟨x, y, hd⟩ := Walk.deals_of_pass halpha hfirst hlast hpassed.pass hpassed.computed
  have hdeal : Deal e entries c q amount x y f := .of_deals hpassed.accepted hpassed.query hd
    hpassed.fill
  have hne' := ne_of_trades (query_eq_ok hpassed.query).2.2.1 hne
  refine ⟨q, amount, x, y, hdeal, held_of_stored ((hpassed.balance? _).trans ?_),
    held_of_stored ((hpassed.balance? _).trans ?_)⟩
  · rw [hpassed.fill]
    exact (hd.balance? q.tokenIn).trans ((if_neg hne').trans (if_pos rfl))
  · rw [hpassed.fill]
    exact (hd.balance? q.tokenOut).trans (if_pos rfl)

/-- A request without a threshold is answered wherever there is a trade. -/
theorem answer_of_deal (hp : IsBare e.instructions c.order.program entries)
    (h : Deal e entries c q amount x y f) (hthreshold : c.request.threshold = none) :
    e.answer c = .ok ⟨f.amountIn, f.amountOut, c.order.hash⟩ := by
  obtain ⟨first, last, hv, hfirst, alpha, halpha, hlast⟩ := hp
  obtain ⟨hstraight, hends⟩ := isStraight_of_isBare hv hfirst hlast
  have hmode : q.isExactIn = c.request.isExactIn := (query_eq_ok h.query).2.1
  have htrade : Power.trade e.settings.limits q.isExactIn x y
      ((figures c.request.isExactIn amount).fixed q) = .ok (f.amountIn, f.amountOut) := by
    rw [← hmode, fixed_figures, hmode]
    exact h.trade
  obtain ⟨u, hu, hcomputed, hin, hout⟩ :=
    Walk.pass_of_deal (t := (e.facing c).terms c.order q c.now false) halpha hfirst hlast h.heldIn
      h.heldOut htrade
  rw [answer_straight hstraight hends u.overlay]
  refine Outcome.bind_eq_ok.2 ⟨_, h.accepted, Outcome.bind_eq_ok.2 ⟨(q, amount), h.query,
    Outcome.bind_eq_ok.2 ⟨u, Outcome.map_eq_ok.2 ⟨u, hu, rfl⟩, ?_⟩⟩⟩
  rw [fill, if_neg (not_not_intro hcomputed), hthreshold, hin, hout, (query_eq_ok h.query).1]

/-! ### Calls in turn -/

/-- What the engine answers to calls in turn. -/
def answers (e : Engine) : List Call → List (Outcome Fill)
  | [] => []
  | c :: calls => e.answer c :: (e.serve c).answers calls

/-- A request, for a swap or a quote, that trades one token of the order for the other and fixes the
given amount. -/
structure Asks (o : Order) (isExactIn : Bool) (tokenIn tokenOut : String) (isSwap : Bool)
    (amount : Int) (c : Call) : Prop where
  order : c.order = o
  isSwap : c.isSwap = isSwap
  isExactIn : c.request.isExactIn = isExactIn
  tokenIn : requestAddress "token_in" c.request.tokenIn = .ok tokenIn
  tokenOut : requestAddress "token_out" c.request.tokenOut = .ok tokenOut
  amount : c.request.amount = .int amount

/-- The request has no threshold, and its taker has an address. -/
def Call.IsPlain (c : Call) : Prop :=
  c.request.threshold = none ∧ ∃ taker, requestAddress "taker" c.request.taker = .ok taker

variable {isExactIn isSwap : Bool} {tokenIn tokenOut : String} {amounts : List Int}
  {parts : List Call} {fills : List Fill}

theorem Asks.query_eq (h : Asks o isExactIn tokenIn tokenOut isSwap amount c) {amount' : Int}
    (hq : Engine.query o o.hash c.request = .ok (q, amount')) :
    q.tokenIn = tokenIn ∧ q.tokenOut = tokenOut ∧ amount' = amount := by
  obtain ⟨-, -, -, ⟨hamount, -⟩, hin, hout⟩ := query_eq_ok hq
  exact ⟨Except.ok.inj (hin.symm.trans h.tokenIn), Except.ok.inj (hout.symm.trans h.tokenOut),
    Datum.int.inj (hamount.symm.trans h.amount)⟩

/-- What is answered to a request for a trade. -/
theorem Asks.trade_of_answer (h : Asks o isExactIn tokenIn tokenOut isSwap amount c)
    (hp : IsBare e.instructions o.program entries) (hanswer : e.answer c = .ok f) :
    e.accept o = .ok o.hash ∧ o.trades tokenIn tokenOut = true ∧
      ∃ x y, e.held o entries tokenIn = some x ∧ e.held o entries tokenOut = some y ∧
        Power.trade e.settings.limits isExactIn x y amount = .ok (f.amountIn, f.amountOut) := by
  obtain rfl := h.order
  obtain ⟨q, amount', x, y, hdeal⟩ := deal_of_answer hp hanswer
  have htrades := (query_eq_ok hdeal.query).2.2.1
  obtain ⟨rfl, rfl, rfl⟩ := h.query_eq hdeal.query
  exact ⟨hdeal.accepted, htrades, x, y, hdeal.heldIn, hdeal.heldOut, h.isExactIn ▸ hdeal.trade⟩

/-- A plain request is answered with the trade that it asks for, wherever there is one. -/
theorem Asks.answer_of_trade (h : Asks o isExactIn tokenIn tokenOut isSwap amount c)
    (hp : IsBare e.instructions o.program entries) (hplain : c.IsPlain)
    (haccept : e.accept o = .ok o.hash) (htrades : o.trades tokenIn tokenOut = true)
    (hpos : 0 < amount) (hx : e.held o entries tokenIn = some x)
    (hy : e.held o entries tokenOut = some y)
    (htrade : Power.trade e.settings.limits isExactIn x y amount = .ok (a, b)) :
    e.answer c = .ok ⟨a, b, o.hash⟩ := by
  obtain rfl := h.order
  obtain ⟨hthreshold, taker, htaker⟩ := hplain
  have hamount : requestAmount c.request.amount = .ok amount := by
    rw [h.amount]
    exact if_pos hpos
  have hq : Engine.query c.order c.order.hash c.request = .ok (⟨c.order.hash, c.order.maker, taker,
      tokenIn, tokenOut, c.request.isExactIn⟩, amount) := by
    refine Outcome.bind_eq_ok.2 ⟨_, h.tokenIn, Outcome.bind_eq_ok.2 ⟨_, h.tokenOut, ?_⟩⟩
    refine (if_neg (not_not_intro htrades)).trans ?_
    exact Outcome.bind_eq_ok.2 ⟨_, hamount, Outcome.bind_eq_ok.2 ⟨_, htaker, rfl⟩⟩
  rw [← h.isExactIn] at htrade
  exact answer_of_deal (f := ⟨a, b, c.order.hash⟩) hp ⟨haccept, hq, hx, hy, htrade⟩ hthreshold

/-- A swap that is answered leaves the balances that its trade leaves. -/
theorem Asks.held_of_swap (h : Asks o isExactIn tokenIn tokenOut true amount c)
    (hp : IsBare e.instructions o.program entries) (hne : o.token0 ≠ o.token1)
    (hanswer : e.answer c = .ok f) (hx : e.held o entries tokenIn = some x)
    (hy : e.held o entries tokenOut = some y) :
    (e.serve c).held o entries tokenIn = some (x + f.amountIn) ∧
      (e.serve c).held o entries tokenOut = some (y - f.amountOut) := by
  obtain rfl := h.order
  obtain ⟨q, amount', x', y', hdeal, hin, hout⟩ := deal_of_swap hp hne h.isSwap hanswer
  obtain ⟨rfl, rfl, rfl⟩ := h.query_eq hdeal.query
  obtain rfl := Option.some.inj (hx.symm.trans hdeal.heldIn)
  obtain rfl := Option.some.inj (hy.symm.trans hdeal.heldOut)
  exact ⟨hin, hout⟩

/-- **Swaps in turn** that are answered are trades in turn on what the order has. -/
theorem chain_of_answers (hp : IsBare e.instructions o.program entries) (hne : o.token0 ≠ o.token1)
    (hparts : List.Forall₂ (Asks o isExactIn tokenIn tokenOut true) amounts parts)
    (h : e.answers parts = fills.map .ok) (hx : e.held o entries tokenIn = some x)
    (hy : e.held o entries tokenOut = some y) :
    Power.Chain e.settings.limits isExactIn x y (fills.map Fill.amounts) ∧
      fills.map (fun f => if isExactIn then f.amountIn else f.amountOut) = amounts := by
  induction hparts generalizing e fills x y with
  | nil =>
    obtain rfl : fills = [] := List.map_eq_nil_iff.1 h.symm
    exact ⟨trivial, rfl⟩
  | @cons amount c amounts parts hc hparts ih =>
    cases fills with
    | nil => cases h
    | cons f fills =>
      obtain ⟨hanswer, hrest⟩ := List.cons.inj h
      obtain ⟨-, -, x', y', hx', hy', htrade⟩ := hc.trade_of_answer hp hanswer
      obtain rfl := Option.some.inj (hx.symm.trans hx')
      obtain rfl := Option.some.inj (hy.symm.trans hy')
      obtain ⟨hin, hout⟩ := hc.held_of_swap hp hne hanswer hx hy
      have hp' : IsBare (e.serve c).instructions o.program entries := by
        rwa [serve_instructions]
      obtain ⟨hchain, rfl⟩ := ih hp' hrest hin hout
      have hfixed := Power.fixed_of_trade htrade
      rw [serve_settings] at hchain
      exact ⟨⟨hfixed ▸ htrade, hchain⟩, congrArg (· :: _) hfixed⟩

/-- Plain swaps in turn are answered with the trades in turn that they ask for, if there are any. -/
theorem answers_of_chain (hp : IsBare e.instructions o.program entries) (hne : o.token0 ≠ o.token1)
    (haccept : e.accept o = .ok o.hash) (htrades : o.trades tokenIn tokenOut = true)
    {ts : List (Int × Int)} (hparts : List.Forall₂
      (fun t c => Asks o isExactIn tokenIn tokenOut true (if isExactIn then t.1 else t.2) c ∧
        c.IsPlain) ts parts)
    (hchain : Power.Chain e.settings.limits isExactIn x y ts)
    (hx : e.held o entries tokenIn = some x) (hy : e.held o entries tokenOut = some y) :
    ∃ fills : List Fill, e.answers parts = fills.map .ok ∧ fills.map Fill.amounts = ts := by
  induction hparts generalizing e x y with
  | nil => exact ⟨[], rfl, rfl⟩
  | @cons t c ts parts hc hparts ih =>
    obtain ⟨hasks, hplain⟩ := hc
    obtain ⟨htrade, hrest⟩ := hchain
    have hpos := Power.pos_of_trade htrade
    have hanswer := hasks.answer_of_trade hp hplain haccept htrades hpos hx hy htrade
    obtain ⟨hin, hout⟩ := hasks.held_of_swap hp hne hanswer hx hy
    have hp' : IsBare (e.serve c).instructions o.program entries := by
      rwa [serve_instructions]
    obtain ⟨fills, hfills, rfl⟩ := ih hp' ((accept_serve ..).trans haccept)
      ((serve_settings e c).symm ▸ hrest) hin hout
    exact ⟨⟨t.1, t.2, o.hash⟩ :: fills, congrArg₂ List.cons hanswer hfills, rfl⟩

theorem paid_amounts (fills : List Fill) :
    Power.paid (fills.map Fill.amounts) = (fills.map Fill.amountIn).sum := by
  rw [Power.paid, List.map_map]
  rfl

theorem given_amounts (fills : List Fill) :
    Power.given (fills.map Fill.amounts) = (fills.map Fill.amountOut).sum := by
  rw [Power.given, List.map_map]
  rfl

/-- **Splitting a trade never helps**: an order whose program loads stored balances and swaps along
the constant product, at an engine in any state.  Swaps in one direction are answered in turn.  If
they fix what is paid, then a quote for the sum of their amounts, in the state before the first, is
answered and gives no less than they give in all; if they fix what is given, then such a quote asks
no more than they pay in all, if it is answered. -/
theorem splitting_never_helps {maker token0 token1 program flags : Datum}
    (hmade : Order.make maker token0 token1 program flags = .ok o)
    (hp : IsBare e.instructions o.program entries) (hanswers : e.answers parts = fills.map .ok)
    (whole : Call) :
    (List.Forall₂ (Asks o true tokenIn tokenOut true) amounts parts → amounts ≠ [] →
      Asks o true tokenIn tokenOut false amounts.sum whole → whole.IsPlain →
      ∃ g, e.answer whole = .ok g ∧ (fills.map Fill.amountOut).sum ≤ g.amountOut) ∧
    (List.Forall₂ (Asks o false tokenIn tokenOut true) amounts parts →
      Asks o false tokenIn tokenOut false amounts.sum whole →
      ∀ g, e.answer whole = .ok g → g.amountIn ≤ (fills.map Fill.amountIn).sum) := by
  have hne := tokens_ne_of_make hmade
  constructor
  · intro hparts hsome hwhole hplain
    -- the first part shows that the order is accepted and what it has
    cases hparts with
    | nil => exact absurd rfl hsome
    | @cons amount c amounts parts hc hparts =>
      cases fills with
      | nil => cases hanswers
      | cons f fills =>
        obtain ⟨hanswer, -⟩ := List.cons.inj hanswers
        obtain ⟨haccept, htrades, x, y, hx, hy, -⟩ := hc.trade_of_answer hp hanswer
        obtain ⟨hchain, hfixed⟩ := chain_of_answers hp hne (.cons hc hparts) hanswers hx hy
        have hpaid := paid_amounts (f :: fills)
        rw [show (f :: fills).map Fill.amountIn = amount :: amounts from hfixed] at hpaid
        obtain ⟨out, hout, hle⟩ := hchain.exactIn_ge (by simp)
        have hpos := (hchain.isUint (by simp)).1
        rw [hpaid] at hout hpos
        rw [given_amounts] at hle
        exact ⟨_, hwhole.answer_of_trade hp hplain haccept htrades hpos hx hy
          (Power.trade_exactIn_iff.2 ⟨rfl, hout⟩), hle⟩
  · intro hparts hwhole g hg
    obtain ⟨-, -, x, y, hx, hy, htrade⟩ := hwhole.trade_of_answer hp hg
    obtain ⟨hchain, hfixed⟩ := chain_of_answers hp hne hparts hanswers hx hy
    have hgiven := given_amounts fills
    rw [show fills.map Fill.amountOut = amounts from hfixed] at hgiven
    rw [← hgiven] at htrade
    obtain ⟨-, p, hasked, hin⟩ := Power.trade_exactOut_iff.1 htrade
    rw [← hin, ← paid_amounts]
    exact hchain.exactOut_le hasked

/-! ### A pool without fees -/

/-- The program `feePool` without the fee. -/
def barePool : Bytes := feePool.take 107 ++ feePool.drop 111

theorem isBare_barePool : IsBare .standard barePool feePoolEntries := by
  let first : Record := ⟨0, .dynamicBalances, (barePool.drop 2).take 105⟩
  let last : Record := ⟨107, .constantProduct, barePool.drop 109⟩
  have hvalid : (validate .standard barePool).toOption = some [first, last] := by decide +kernel
  have hfirst : first.parse.toOption = some (.dynamicBalances feePoolEntries) := by decide +kernel
  have hlast : last.parse.toOption = some (.constantProduct 1000000000000000000) := by
    decide +kernel
  exact ⟨first, last, Outcome.eq_ok_of_toOption hvalid, Outcome.eq_ok_of_toOption hfirst,
    1000000000000000000, rfl, Outcome.eq_ok_of_toOption hlast⟩

theorem asks_barePool (isExactIn isSwap : Bool) (amount : Int) :
    Asks (poolOrder barePool) isExactIn (addressOf 'a') (addressOf 'b') isSwap amount
      (poolCall barePool isExactIn isSwap 'a' 'b' amount) :=
  ⟨rfl, rfl, rfl, rfl, rfl, rfl⟩

theorem isPlain_barePool (isExactIn isSwap : Bool) (amount : Int) :
    (poolCall barePool isExactIn isSwap 'a' 'b' amount).IsPlain :=
  ⟨rfl, _, rfl⟩

/-- Swaps of the pool in turn are answered with the trades that they ask for. -/
theorem exists_answers_barePool {isExactIn : Bool} {ts : List (Int × Int)}
    (h : Power.Chain feePoolEngine.settings.limits isExactIn 1000 2000 ts) :
    ∃ fills : List Fill,
      feePoolEngine.answers (ts.map fun t =>
          poolCall barePool isExactIn true 'a' 'b' (if isExactIn then t.1 else t.2)) =
        fills.map .ok ∧ fills.map Fill.amounts = ts := by
  have hne : (poolOrder barePool).token0 ≠ (poolOrder barePool).token1 := by decide +kernel
  have htrades : (poolOrder barePool).trades (addressOf 'a') (addressOf 'b') = true := by
    decide +kernel
  have hsize : feePoolEngine.requireSize (poolOrder barePool) = .ok () :=
    if_neg (by decide +kernel)
  have haccept : feePoolEngine.accept (poolOrder barePool) = .ok (poolOrder barePool).hash :=
    Outcome.bind_eq_ok.2 ⟨(), hsize, rfl⟩
  refine answers_of_chain (e := feePoolEngine) (o := poolOrder barePool) isBare_barePool hne haccept
    htrades ?_ h rfl rfl
  refine List.forall₂_map_right_iff.2 (List.forall₂_same.2 fun t _ => ⟨?_, ?_⟩)
  · exact asks_barePool isExactIn true _
  · exact isPlain_barePool isExactIn true _

/-- Swaps of 100 and 50 give 260 in all, as much as a quote for 150; and such swaps for outputs of
100 and 50 ask 82 in all, as much as a quote for 150. -/
theorem split_barePool :
    Order.make (.text (addressOf 'c')) (.text (addressOf 'a')) (.text (addressOf 'b'))
        (.bytes barePool) (.int 0) = .ok (poolOrder barePool) ∧
      IsBare feePoolEngine.instructions (poolOrder barePool).program feePoolEntries ∧
      (∃ (fills : List Fill) (g : Fill),
        feePoolEngine.answers ([100, 50].map (poolCall barePool true true 'a' 'b')) =
          fills.map .ok ∧ (fills.map Fill.amountOut).sum = 260 ∧
        feePoolEngine.answer (poolCall barePool true false 'a' 'b' 150) = .ok g ∧
        260 ≤ g.amountOut) ∧
      ∃ (fills : List Fill) (g : Fill),
        feePoolEngine.answers ([100, 50].map (poolCall barePool false true 'a' 'b')) =
          fills.map .ok ∧ (fills.map Fill.amountIn).sum = 82 ∧
        feePoolEngine.answer (poolCall barePool false false 'a' 'b' 150) = .ok g ∧
        g.amountIn ≤ 82 := by
  have hparts (isExactIn : Bool) : List.Forall₂
      (Asks (poolOrder barePool) isExactIn (addressOf 'a') (addressOf 'b') true) [100, 50]
      ([100, 50].map (poolCall barePool isExactIn true 'a' 'b')) :=
    .cons (asks_barePool isExactIn true 100) (.cons (asks_barePool isExactIn true 50) .nil)
  refine ⟨make_poolOrder barePool, isBare_barePool, ?_, ?_⟩
  · have hchain : Power.Chain feePoolEngine.settings.limits true 1000 2000 [(100, 181), (50, 79)] :=
      ⟨Outcome.eq_ok_of_toOption (by decide +kernel),
        Outcome.eq_ok_of_toOption (by decide +kernel), trivial⟩
    obtain ⟨fills, hfills, hamounts⟩ := exists_answers_barePool hchain
    have hgiven := given_amounts fills
    rw [hamounts] at hgiven
    obtain ⟨g, hg, hle⟩ := (splitting_never_helps (e := feePoolEngine) (make_poolOrder barePool)
      isBare_barePool hfills (poolCall barePool true false 'a' 'b' 150)).1 (hparts true) (by simp)
      (asks_barePool true false 150) (isPlain_barePool true false 150)
    rw [← hgiven] at hle
    exact ⟨fills, g, hfills, hgiven.symm, hg, hle⟩
  · have hchain : Power.Chain feePoolEngine.settings.limits false 1000 2000 [(53, 100), (29, 50)] :=
      ⟨Outcome.eq_ok_of_toOption (by decide +kernel),
        Outcome.eq_ok_of_toOption (by decide +kernel), trivial⟩
    obtain ⟨fills, hfills, hamounts⟩ := exists_answers_barePool hchain
    have hpaid := paid_amounts fills
    rw [hamounts] at hpaid
    have hsome : (feePoolEngine.answer
        (poolCall barePool false false 'a' 'b' 150)).toOption.isSome = true := by
      decide +kernel
    obtain ⟨g, hg⟩ := Option.isSome_iff_exists.1 hsome
    replace hg := Outcome.eq_ok_of_toOption hg
    have hle := (splitting_never_helps (e := feePoolEngine) (make_poolOrder barePool)
      isBare_barePool hfills (poolCall barePool false false 'a' 'b' 150)).2 (hparts false)
      (asks_barePool false false 150) g hg
    rw [← hpaid] at hle
    exact ⟨fills, g, hfills, hpaid.symm, hg, hle⟩

end Engine

end SwapMachine
