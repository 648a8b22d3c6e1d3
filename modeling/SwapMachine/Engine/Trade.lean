import SwapMachine.Engine.Basic

/-!
# SwapMachine.Engine.Trade — quotes and swaps

Both walk the order's program on the state that is current. A quote stops at the first swap and
writes nothing. A swap holds the order's lock, walks to the end, and commits what the walk wrote
only if all went well; a failed one leaves the store as it was.
-/

namespace SwapMachine.Engine

/-! ### Preparing a walk -/

/-- An address in a request. -/
def requestAddress (field : String) (d : Datum) : Outcome String :=
  match Address.ofDatum field d with
  | .ok a => .ok a
  | .error f => .error (.request (.badAddress f))

/-- A positive amount in a request. -/
def requestAmount (d : Datum) : Outcome Int :=
  match d with
  | .int z => if 0 < z then .ok z else .error (.request (.amountNotPositive d))
  | _ => .error (.request (.amountNotPositive d))

/-- The query of a request and the amount that it fixes. -/
def query (o : Order) (hash : String) (r : Request) : Outcome (Query × Int) := do
  let tokenIn ← requestAddress "token_in" r.tokenIn
  let tokenOut ← requestAddress "token_out" r.tokenOut
  if ¬ o.trades tokenIn tokenOut then .error (.request (.notTraded hash tokenIn tokenOut))
  else
    let amount ← requestAmount r.amount
    let taker ← requestAddress "taker" r.taker
    return (⟨hash, o.maker, taker, tokenIn, tokenOut, r.isExactIn⟩, amount)

/-- The figures before the walk: all zero except for the amount that is fixed. -/
def figures (isExactIn : Bool) (amount : Int) : Walk.Figures :=
  if isExactIn then ⟨0, 0, amount, 0⟩ else ⟨0, 0, 0, amount⟩

/-- The terms of a walk of the order. -/
def terms (e : Engine) (o : Order) (q : Query) (now : Int) (stopAtSwap : Bool) : Walk.Terms :=
  ⟨o.program, e.instructions, q, now, e.ledger, e.feeSources, e.settings.limits, stopAtSwap⟩

/-! ### Pricing -/

/-- Refuses a walk without a swap, and amounts beyond the threshold. -/
def fill (r : Request) (hash : String) (s : Walk.Sheet) : Outcome Fill :=
  let result : Fill := ⟨s.figures.amountIn, s.figures.amountOut, hash⟩
  if ¬ s.isComputed then .error (.request (.notComputed hash))
  else
    match r.threshold with
    | none => .ok result
    | some limit =>
      if r.isExactIn then
        if (Datum.int result.amountOut).isBelow limit then
          .error (.request (.outputBelow result.amountOut limit))
        else .ok result
      else if limit.isBelow (.int result.amountIn) then
        .error (.request (.inputAbove result.amountIn limit))
      else .ok result

/-- The line about a walk that gave a fill. -/
def walkLine (f : Fill) (s : Walk.Sheet) : LogLine :=
  let swapPc := (s.swapPc.map toString).getD "None"
  ⟨.debug, source,
    s!"walk done order={f.order} swap_pc={swapPc} in={f.amountIn} out={f.amountOut}"⟩

/-- A fill, and the query and the writes that led to it. -/
structure Priced where
  query : Query
  fill : Fill
  overlay : Overlay

/-- The fill of a walk. -/
def priceWalk (r : Request) (q : Query) (w : Outcome Walk) : Report Priced :=
  match w with
  | .error f => ⟨.error f, []⟩
  | .ok w =>
    match fill r q.order w.sheet with
    | .error f => ⟨.error f, []⟩
    | .ok result => ⟨.ok ⟨q, result, w.sheet.overlay⟩, [walkLine result w.sheet]⟩

/-- Walks the order's program for a request. -/
def price (e : Engine) (o : Order) (hash : String) (r : Request) (now : Int) (stopAtSwap : Bool) :
    Report Priced :=
  match query o hash r with
  | .error f => ⟨.error f, []⟩
  | .ok (q, amount) =>
    let sheet := Walk.Sheet.start (figures r.isExactIn amount) (e.store.overlay hash)
    let report := priceWalk r q (Walk.through (terms e o q now stopAtSwap) 0 sheet)
    { report with log := Walk.startLine q 0 :: report.log }

/-- The line about a request that was turned down; faults in the form of the data leave none. -/
def rejectionLine (what hash : String) (f : Fault) : List LogLine :=
  if f.kind.isEngine then
    [⟨.warning, source, s!"{what} rejected for order {hash}: {f.kind.name}: {f.message}"⟩]
  else []

/-- A report with the line about the rejection, if it was one. -/
def withRejection {α : Type} (what hash : String) (r : Report α) : Report α :=
  match r.outcome with
  | .error f => { r with log := r.log ++ rejectionLine what hash f }
  | .ok _ => r

/-! ### Quotes and swaps -/

/-- The amounts that a swap would have now, up to the program's first swap. -/
def quote (e : Engine) (o : Order) (r : Request) (now : Int) : Report Fill :=
  match e.accept o with
  | .error f => ⟨.error f, []⟩
  | .ok hash =>
    let report := withRejection "quote" hash (price e o hash r now true)
    ⟨Priced.fill <$> report.outcome, report.log⟩

/-- The line about a swap. -/
def swapLine (p : Priced) : LogLine :=
  let q := p.query
  ⟨.info, source, s!"swap order={q.order} taker={q.taker} {q.tokenIn}->{q.tokenOut} "
    ++ s!"in={p.fill.amountIn} out={p.fill.amountOut}"⟩

/-- Commits what a walk wrote, if it went well. -/
def commit (store : Store) (report : Report Priced) : Report Fill × Store :=
  match report.outcome with
  | .error f => (⟨.error f, report.log⟩, store)
  | .ok p =>
    match store.commit p.overlay with
    | .error f => (⟨.error f, report.log⟩, store)
    | .ok c => (⟨.ok p.fill, report.log ++ c.log ++ [swapLine p]⟩, c.store)

/-- Exchanges amounts and keeps the order's new state. -/
def swap (e : Engine) (o : Order) (r : Request) (now : Int) : Report Fill × Engine :=
  match e.accept o with
  | .error f => (⟨.error f, []⟩, e)
  | .ok hash =>
    let held := { e with store := e.store.lock hash }
    let (report, store) :=
      commit held.store (withRejection "swap" hash (price held o hash r now false))
    (report, { held with store := store.unlock hash })

end SwapMachine.Engine
