import Mathlib.Data.List.Forall2
import SwapMachine.Intake.Minting
import SwapMachine.Proofs.AddressText
import SwapMachine.Proofs.PoolHistory

/-!
# SwapMachine.Proofs.Respelling — a session does not depend on how addresses are spelled

Data in which an address is wanted are looked at once, where they come in, and from there on only
the canonical text is known. So two sessions that differ in spellings answer alike.

* `Address.Respelled`: texts that differ in the case of digits, in a mark before them and in blanks
  around them; all texts of one address are such (`respelled_of_holds`), and so are texts that are
  turned down for one reason.
* `Desk`: an engine, the holdings behind its ledger and the orders constructed, with all that a
  caller can do with them.
* `Desk.Action.Respelled`: actions that differ in spellings; one of them does what the other does
  (`act_congr`).
* `session_congr`: whole sessions do the same.
-/

namespace SwapMachine

namespace Address

open Text

/-! ### Spellings -/

/-- What stands between the blanks and behind the mark of a text, in lower case. -/
def folded (s : String) : List Char := (digitsOf s).map Char.toLower

/-- The same value, or two texts that differ in case, in a mark and in blanks around. -/
inductive Respelled : Datum → Datum → Prop
  | same (d : Datum) : Respelled d d
  | texts {d d' : Datum} {s s' : String} : d.text? = some s → d'.text? = some s' →
      folded s = folded s' → Respelled d d'

/-- All texts of the same bytes are spellings of one address. -/
theorem respelled_of_holds {d d' : Datum} {bs : Bytes} (h : Holds d bs) (h' : Holds d' bs) :
    Respelled d d' := by
  obtain ⟨-, s, hs, hspells⟩ := h
  obtain ⟨-, s', hs', hspells'⟩ := h'
  rw [← toBytes?_digitsOf_eq_some_iff, Hex.toBytes?_eq_some_iff] at hspells hspells'
  exact .texts hs hs' (hspells.trans hspells'.symm)

theorem all_isDigit_map_toLower (cs : List Char) :
    (cs.map Char.toLower).all Hex.isDigit = cs.all Hex.isDigit := by
  induction cs with
  | nil => rfl
  | cons c cs ih =>
    rw [List.map_cons, List.all_cons, List.all_cons, ih, Hex.isDigit, Hex.digitValue?_toLower,
      Hex.isDigit]

/-- Whether a text is an address, which one it is and why it is none, all lies in its digits. -/
theorem canonical_congr {s s' : String} (h : folded s = folded s') (field : String) :
    canonical field s = canonical field s' := by
  have hlength : (digitsOf s).length = (digitsOf s').length := by
    have := congrArg List.length h
    rwa [folded, folded, List.length_map, List.length_map] at this
  have hdigits : (digitsOf s).all Hex.isDigit = (digitsOf s').all Hex.isDigit := by
    rw [← all_isDigit_map_toLower, ← folded, h, folded, all_isDigit_map_toLower]
  unfold canonical hexText hexDigits
  rw [← digitsOf, ← digitsOf]
  dsimp only
  rw [hlength, hdigits, ← folded, ← folded, h]

theorem ofDatum_congr {d d' : Datum} (h : Respelled d d') (field : String) :
    ofDatum field d = ofDatum field d' := by
  cases h with
  | same => rfl
  | texts hs hs' hfolded =>
    unfold ofDatum
    rw [hs, hs']
    exact canonical_congr hfolded field

end Address

open Address (Respelled)

/-! ### Orders, sources of fees and holdings -/

theorem Order.make_congr {maker maker' token0 token0' token1 token1' : Datum}
    (hmaker : Respelled maker maker') (h0 : Respelled token0 token0')
    (h1 : Respelled token1 token1') (program flags : Datum) :
    Order.make maker token0 token1 program flags =
      Order.make maker' token0' token1' program flags := by
  unfold Order.make
  rw [Address.ofDatum_congr hmaker, Address.ofDatum_congr h0, Address.ofDatum_congr h1]

/-- One source at two spellings of an address. -/
def FeeSources.EntryRespelled (p p' : Datum × FeeSource) : Prop :=
  Respelled p.1 p'.1 ∧ p.2 = p'.2

theorem FeeSources.ofList_congr {sources sources' : List (Datum × FeeSource)}
    (h : List.Forall₂ EntryRespelled sources sources') (known : FeeSources) :
    ofList known sources = ofList known sources' := by
  induction h generalizing known with
  | nil => rfl
  | @cons p p' sources sources' hp _ ih =>
    obtain ⟨address, source⟩ := p
    obtain ⟨address', source'⟩ := p'
    obtain ⟨haddress, hsource⟩ := hp
    dsimp only at haddress hsource
    subst hsource
    rw [ofList, ofList, Address.ofDatum_congr haddress]
    exact Outcome.bind_congr fun a _ => ih _

namespace Intake.Minted

variable {token token' owner owner' : Datum}

theorem account_congr (htoken : Respelled token token') (howner : Respelled owner owner') :
    account token owner = account token' owner' := by
  unfold account
  rw [Address.ofDatum_congr htoken, Address.ofDatum_congr howner]

theorem mint_congr (m : Minted) (htoken : Respelled token token')
    (howner : Respelled owner owner') (amount : Datum) :
    m.mint token owner amount = m.mint token' owner' amount := by
  unfold mint
  rw [account_congr htoken howner]

theorem balanceOf_congr (m : Minted) (htoken : Respelled token token')
    (howner : Respelled owner owner') : m.balanceOf token owner = m.balanceOf token' owner' := by
  unfold balanceOf
  rw [account_congr htoken howner]

theorem totalSupply_congr (m : Minted) (htoken : Respelled token token') :
    m.totalSupply token = m.totalSupply token' := by
  unfold totalSupply
  rw [Address.ofDatum_congr htoken]

end Intake.Minted

/-! ### Requests -/

/-- Requests that differ in the spelling of the tokens and the taker. -/
structure Request.Respelled (r r' : Request) : Prop where
  tokenIn : Address.Respelled r.tokenIn r'.tokenIn
  tokenOut : Address.Respelled r.tokenOut r'.tokenOut
  taker : Address.Respelled r.taker r'.taker
  amount : r.amount = r'.amount
  isExactIn : r.isExactIn = r'.isExactIn
  threshold : r.threshold = r'.threshold

namespace Engine

variable {r r' : Request}

theorem requestAddress_congr {d d' : Datum} (h : Respelled d d') (field : String) :
    requestAddress field d = requestAddress field d' := by
  unfold requestAddress
  rw [Address.ofDatum_congr h]

theorem query_congr (h : r.Respelled r') (o : Order) (hash : String) :
    query o hash r = query o hash r' := by
  unfold query
  rw [requestAddress_congr h.tokenIn, requestAddress_congr h.tokenOut,
    requestAddress_congr h.taker, h.amount, h.isExactIn]

theorem priceWalk_congr (h : r.Respelled r') (q : Query) (w : Outcome Walk) :
    priceWalk r q w = priceWalk r' q w := by
  unfold priceWalk fill
  rw [h.threshold, h.isExactIn]

theorem price_congr (h : r.Respelled r') (e : Engine) (o : Order) (hash : String) (now : Int)
    (stopAtSwap : Bool) : price e o hash r now stopAtSwap = price e o hash r' now stopAtSwap := by
  unfold price
  simp only [query_congr h, priceWalk_congr h, h.isExactIn]

theorem quote_congr (h : r.Respelled r') (e : Engine) (o : Order) (now : Int) :
    quote e o r now = quote e o r' now := by
  unfold quote
  simp only [price_congr h]

theorem swap_congr (h : r.Respelled r') (e : Engine) (o : Order) (now : Int) :
    swap e o r now = swap e o r' now := by
  unfold swap
  simp only [price_congr h]

end Engine

/-! ### Sessions -/

/-- An engine, the holdings that its ledger answers from, and the orders constructed so far. -/
structure Desk where
  engine : Engine
  minted : Intake.Minted
  orders : List Order

namespace Desk

open Intake (Minted)

/-- What a caller can do; orders are told by their number. -/
inductive Action where
  | order (maker token0 token1 program flags : Datum)
  | register (order : Nat)
  | quote (order : Nat) (request : Request) (now : Int)
  | swap (order : Nat) (request : Request) (now : Int)
  | mint (token owner amount : Datum)
  | balanceOf (token owner : Datum)
  | totalSupply (token : Datum)

/-- What comes back. -/
inductive Reply where
  | order (outcome : Outcome Order)
  | registered (report : Report String)
  | filled (report : Report Fill)
  | minted (outcome : Outcome Unit)
  | held (outcome : Outcome Number.Quantity)
  | noOrder

/-- A desk with an engine that has served no order yet. The ledger is made of the holdings, if there
is one. -/
def start (settings : Settings) (set : InstructionSet) (ledger : Minted → Option Ledger)
    (sources : List (Datum × FeeSource)) : Outcome Desk := do
  let feeSources ← FeeSources.ofList .empty sources
  return ⟨.start settings set (ledger .empty) feeSources, .empty, []⟩

/-- What comes of an action. -/
def act (ledger : Minted → Option Ledger) (d : Desk) : Action → Reply × Desk
  | .order maker token0 token1 program flags =>
    match Order.make maker token0 token1 program flags with
    | .error f => (.order (.error f), d)
    | .ok o => (.order (.ok o), { d with orders := d.orders ++ [o] })
  | .register i =>
    match d.orders[i]? with
    | none => (.noOrder, d)
    | some o =>
      let (report, engine) := d.engine.register o
      (.registered report, { d with engine })
  | .quote i request now =>
    match d.orders[i]? with
    | none => (.noOrder, d)
    | some o => (.filled (d.engine.quote o request now), d)
  | .swap i request now =>
    match d.orders[i]? with
    | none => (.noOrder, d)
    | some o =>
      let (report, engine) := d.engine.swap o request now
      (.filled report, { d with engine })
  | .mint token owner amount =>
    match d.minted.mint token owner amount with
    | .error f => (.minted (.error f), d)
    | .ok minted =>
      (.minted (.ok ()), { d with minted, engine := d.engine.withLedger (ledger minted) })
  | .balanceOf token owner => (.held (d.minted.balanceOf token owner), d)
  | .totalSupply token => (.held (d.minted.totalSupply token), d)

/-- What comes of actions in turn. -/
def run (ledger : Minted → Option Ledger) (d : Desk) : List Action → List Reply × Desk
  | [] => ([], d)
  | a :: as =>
    let (reply, d) := d.act ledger a
    let (replies, d) := d.run ledger as
    (reply :: replies, d)

/-- A session on a fresh engine: all replies and how things stand in the end. -/
def session (settings : Settings) (set : InstructionSet) (ledger : Minted → Option Ledger)
    (sources : List (Datum × FeeSource)) (actions : List Action) : Outcome (List Reply × Desk) :=
  return (← start settings set ledger sources).run ledger actions

/-- Actions that differ in the spelling of addresses. -/
inductive Action.Respelled : Action → Action → Prop
  | order {maker maker' token0 token0' token1 token1' : Datum} (program flags : Datum) :
      Address.Respelled maker maker' → Address.Respelled token0 token0' →
        Address.Respelled token1 token1' →
          Respelled (.order maker token0 token1 program flags)
            (.order maker' token0' token1' program flags)
  | register (i : Nat) : Respelled (.register i) (.register i)
  | quote {r r' : Request} (i : Nat) (now : Int) : r.Respelled r' →
      Respelled (.quote i r now) (.quote i r' now)
  | swap {r r' : Request} (i : Nat) (now : Int) : r.Respelled r' →
      Respelled (.swap i r now) (.swap i r' now)
  | mint {token token' owner owner' : Datum} (amount : Datum) : Address.Respelled token token' →
      Address.Respelled owner owner' →
        Respelled (.mint token owner amount) (.mint token' owner' amount)
  | balanceOf {token token' owner owner' : Datum} : Address.Respelled token token' →
      Address.Respelled owner owner' → Respelled (.balanceOf token owner) (.balanceOf token' owner')
  | totalSupply {token token' : Datum} : Address.Respelled token token' →
      Respelled (.totalSupply token) (.totalSupply token')

/-- One action does what the other does. -/
theorem act_congr {a a' : Action} (h : a.Respelled a') (ledger : Minted → Option Ledger)
    (d : Desk) : d.act ledger a = d.act ledger a' := by
  cases h with
  | order program flags hmaker h0 h1 => rw [act, act, Order.make_congr hmaker h0 h1]
  | register i => rfl
  | quote i now hr => simp only [act, Engine.quote_congr hr]
  | swap i now hr => simp only [act, Engine.swap_congr hr]
  | mint amount htoken howner => rw [act, act, Minted.mint_congr _ htoken howner]
  | balanceOf htoken howner => rw [act, act, Minted.balanceOf_congr _ htoken howner]
  | totalSupply htoken => rw [act, act, Minted.totalSupply_congr _ htoken]

/-- So do actions in turn, one after another. -/
theorem run_congr {actions actions' : List Action}
    (h : List.Forall₂ Action.Respelled actions actions') (ledger : Minted → Option Ledger)
    (d : Desk) : d.run ledger actions = d.run ledger actions' := by
  induction h generalizing d with
  | nil => rfl
  | cons ha _ ih => simp only [run, act_congr ha, ih]

/-- **Sessions that differ in the spelling of addresses** give the same replies and end with the
same store: every order constructed, registration, quote, swap and mint, and every fault. -/
theorem session_congr (settings : Settings) (set : InstructionSet)
    (ledger : Minted → Option Ledger) {sources sources' : List (Datum × FeeSource)}
    (hsources : List.Forall₂ FeeSources.EntryRespelled sources sources')
    {actions actions' : List Action} (hactions : List.Forall₂ Action.Respelled actions actions') :
    session settings set ledger sources actions =
      session settings set ledger sources' actions' := by
  unfold session start
  rw [FeeSources.ofList_congr hsources]
  simp only [run_congr hactions]

/-- The address of one digit in capital letters, between blanks. -/
def shouted (digit : Char) : String :=
  String.ofList (' ' :: '0' :: 'X' :: List.replicate 40 digit.toUpper ++ ['\n'])

theorem respelled_shouted : ∀ digit ∈ ['a', 'b', 'c', 'd', 'f'],
    Respelled (.text (Engine.addressOf digit)) (.text (shouted digit)) := by
  intro digit hdigit
  refine .texts rfl rfl ?_
  simp only [List.mem_cons, List.not_mem_nil, or_false] at hdigit
  rcases hdigit with rfl | rfl | rfl | rfl | rfl <;> decide +kernel

/-- A source of a fee, its address being written in one way. -/
def writtenSources (write : Char → String) : List (Datum × FeeSource) :=
  [(.text (write 'f'), fun _ => .ok (.int 30))]

/-- A request, its tokens being written in one way. -/
def writtenRequest (write : Char → String) : Request where
  tokenIn := .text (write 'a')
  tokenOut := .text (write 'b')
  amount := .int 100

/-- What is done with an order of the program `feePool`, all addresses being written in one way. -/
def writtenActions (write : Char → String) : List Action :=
  [.order (.text (write 'c')) (.text (write 'a')) (.text (write 'b')) (.bytes Engine.feePool)
      (.int 0), .mint (.text (write 'a')) (.text (write 'd')) (.int 5), .register 0,
    .quote 0 (writtenRequest write) 0, .swap 0 (writtenRequest write) 0,
    .balanceOf (.text (write 'a')) (.text (write 'd')), .totalSupply (.text (write 'a'))]

/-- What is paid and what is given, if the reply is a fill. -/
def Reply.amounts? : Reply → Option (Int × Int)
  | .filled report => report.outcome.toOption.map fun f => (f.amountIn, f.amountOut)
  | _ => none

/-- The quote and the swap are answered, in either way of writing. -/
theorem session_congr_shouted :
    session .default .standard (fun m => some m.ledger) (writtenSources Engine.addressOf)
        (writtenActions Engine.addressOf) =
      session .default .standard (fun m => some m.ledger) (writtenSources shouted)
        (writtenActions shouted) ∧
    ∃ replies d, session .default .standard (fun m => some m.ledger) (writtenSources shouted)
        (writtenActions shouted) = .ok (replies, d) ∧
      replies.filterMap Reply.amounts? = [(100, 180), (100, 180)] := by
  have ha := respelled_shouted 'a' (by decide)
  have hb := respelled_shouted 'b' (by decide)
  have hc := respelled_shouted 'c' (by decide)
  have hd := respelled_shouted 'd' (by decide)
  have hf := respelled_shouted 'f' (by decide)
  have hsources : List.Forall₂ FeeSources.EntryRespelled (writtenSources Engine.addressOf)
      (writtenSources shouted) := .cons ⟨hf, rfl⟩ .nil
  have hrequest : (writtenRequest Engine.addressOf).Respelled (writtenRequest shouted) :=
    ⟨ha, hb, .same _, rfl, rfl, rfl⟩
  have hactions : List.Forall₂ Action.Respelled (writtenActions Engine.addressOf)
      (writtenActions shouted) := by
    refine .cons (.order _ _ hc ha hb) (.cons (.mint _ ha hd) (.cons (.register 0) ?_))
    refine .cons (.quote 0 0 hrequest) (.cons (.swap 0 0 hrequest) ?_)
    exact .cons (.balanceOf ha hd) (.cons (.totalSupply ha) .nil)
  have hfilled : (session .default .standard (fun m => some m.ledger) (writtenSources shouted)
      (writtenActions shouted)).toOption.map (fun s => s.1.filterMap Reply.amounts?) =
        some [(100, 180), (100, 180)] := by
    decide +kernel
  obtain ⟨⟨replies, d⟩, hsession, hamounts⟩ := Option.map_eq_some_iff.1 hfilled
  exact ⟨session_congr .default .standard (fun m => some m.ledger) hsources hactions, replies, d,
    Outcome.eq_ok_of_toOption hsession, hamounts⟩

end Desk

end SwapMachine
