import SwapMachine.Curve.Density
import SwapMachine.Curve.Peg
import SwapMachine.Curve.Power
import SwapMachine.Program.Instruction
import SwapMachine.Walk.Pending

/-!
# SwapMachine.Walk.Effect — what each instruction does to the sheet

* `Effect.of` is the effect of an instruction: the new sheet, and the work left for when the rest of
  the program has run. Jumps have none; where they lead is `Instruction.destination?`.
-/

namespace SwapMachine

/-- Where the instruction moves a walk for the query, if it does. -/
def Instruction.destination? (q : Query) : Instruction → Option Nat
  | jump target => some target
  | jumpIfTokenIn token target => if q.tokenIn = token then some target else none
  | jumpIfTokenOut token target => if q.tokenOut = token then some target else none
  | _ => none

namespace Walk

open Curve FixedPoint

/-- A new sheet and the work left for later. -/
structure Effect where
  sheet : Sheet
  pending : Option Pending

namespace Effect

/-- Nothing is left for later. -/
def now (sheet : Sheet) : Effect := ⟨sheet, none⟩

/-- Some work is left for later. -/
def wrapping (sheet : Sheet) (p : Pending) : Effect := ⟨sheet, some p⟩

/-! ### Asking outside parties -/

/-- The answer of an outside party. -/
def ask (what : String) (a : Answer) : Outcome Datum :=
  match a with
  | .ok d => .ok d
  | .error reason => .error (.walk (.callFailed what reason))

/-- A whole number that is not negative. -/
def holding? : Datum → Option Int
  | .int z => if 0 ≤ z then some z else none
  | _ => none

/-- The ledger, which has to be there. -/
def ledger (t : Terms) : Outcome Ledger :=
  match t.ledger with
  | some l => .ok l
  | none => .error (.walk .noLedger)

/-- What the taker holds of a token. -/
def takerBalance (t : Terms) (token : String) : Outcome Int := do
  let l ← ledger t
  let answer ← ask "balance_of" (l.balanceOf token t.query.taker)
  match holding? answer with
  | some balance => return balance
  | none => .error (.walk (.badBalance answer))

/-- How much there is of a token. -/
def supply (t : Terms) (token : String) : Outcome Int := do
  let l ← ledger t
  let answer ← ask "total_supply" (l.totalSupply token)
  match holding? answer with
  | some supply => return supply
  | none => .error (.walk (.badSupply answer))

/-- The fee that the source at an address asks for. -/
def dynamicFee (t : Terms) (source : String) : Outcome Int :=
  match t.feeSources.get? source with
  | none => .error (.walk (.noFeeSource source))
  | some feeSource => do
    match fee? (← ask "fee provider" (feeSource t.query)) with
    | .ok fee => return fee
    | .error f => .error (.walk (.badFee source f))

/-! ### Conditions -/

/-- Refuses a time after the deadline. -/
def requireInTime (t : Terms) (deadline : Nat) : Outcome Unit :=
  if deadline < t.now then .error (.walk (.deadlinePassed deadline t.now)) else .ok ()

/-- Refuses a taker without any of a token. -/
def requireHolds (t : Terms) (token : String) : Outcome Unit := do
  if (← takerBalance t token) = 0 then .error (.walk (.holdsNone t.query.taker token))

/-- Refuses a taker with less than a minimum of a token. -/
def requireHoldsAtLeast (t : Terms) (token : String) (minimum : Nat) : Outcome Unit := do
  let balance ← takerBalance t token
  if balance < minimum then .error (.walk (.holdsTooLittle balance token minimum))

/-- Refuses a taker with less than a minimum share, at 18 places, of all there is of a token. -/
def requireShareAtLeast (t : Terms) (token : String) (minimum : Nat) : Outcome Unit := do
  let balance ← takerBalance t token
  let supply ← supply t token
  if supply = 0 then .error (.walk (.noSupply token))
  else
    let share ← mulDivDown balance one supply
    if share < minimum then .error (.walk (.shareTooLow share token minimum))

/-! ### Balances -/

/-- The amount listed for a token. -/
def listed (entries : Entries) (token : String) : Outcome Int :=
  match entries.lookup token with
  | some amount => .ok amount
  | none => .error (.walk (.notListed token))

/-- Loads the listed balances. -/
def staticBalances (q : Query) (entries : Entries) (s : Sheet) : Outcome Sheet :=
  return s.withBalances (← listed entries q.tokenIn) (← listed entries q.tokenOut)

/-- Gives each listed token that has no stored balance the listed one. -/
def initialise : Entries → Overlay → Outcome Overlay
  | [], o => .ok o
  | (token, amount) :: es, o => do
    initialise es (← if o.hasBalance token then .ok o else o.setBalance token amount)

/-- Loads the stored balances, initialised from the listed ones. -/
def dynamicBalances (q : Query) (entries : Entries) (s : Sheet) : Outcome Effect := do
  let o ← initialise entries s.overlay
  let s := { s with overlay := o }
  return wrapping (s.withBalances (← o.balance q.tokenIn) (← o.balance q.tokenOut)) .book

/-- Widens the balances by what is left of the fading amounts. -/
def decay (t : Terms) (period : Nat) (s : Sheet) : Outcome Effect := do
  let incoming ← fadeLeft t s.overlay t.query.tokenIn .incoming period
  let outgoing ← fadeLeft t s.overlay t.query.tokenOut .outgoing period
  return wrapping
    (s.withBalances (s.figures.balanceIn + incoming) (withoutOffset s.figures.balanceOut outgoing))
    (.fade period)

/-- The virtual balance of a token. -/
def virtualBalance (c : Concentration) (token : String) : Outcome Int :=
  if token = c.tokenA then .ok c.deltaA
  else if token = c.tokenB then .ok c.deltaB
  else .error (.walk (.noDelta token))

/-- Puts the virtual balances on top of the real ones. -/
def concentrate (q : Query) (c : Concentration) (s : Sheet) : Outcome Effect := do
  let f := s.figures
  let virtual (balance delta : Int) : Outcome Int :=
    effectiveBalance balance delta s.overlay.scale? c.liquidity
  let virtualIn ← virtual f.balanceIn (← virtualBalance c q.tokenIn)
  let virtualOut ← virtual f.balanceOut (← virtualBalance c q.tokenOut)
  return wrapping (s.withBalances virtualIn virtualOut)
    (.scale f.balanceIn f.balanceOut virtualIn virtualOut)

/-! ### Fees -/

/-- A fee on the amount in. -/
def feeIn (q : Query) (fee : Int) (s : Sheet) : Outcome Effect :=
  let gross := s.figures.amountIn
  if q.isExactIn then return wrapping (s.withAmountIn (← afterFee gross fee)) (.restoreIn gross)
  else return wrapping s (.raiseIn fee)

/-- A fee on the amount out. -/
def feeOut (q : Query) (fee : Int) (s : Sheet) : Outcome Effect :=
  let net := s.figures.amountOut
  if q.isExactIn then return wrapping s (.lowerOut fee)
  else return wrapping (s.withAmountOut (← beforeFee net fee)) (.restoreOut net)

/-! ### Swaps -/

/-- Computes the amount that the query leaves open along the power curve. -/
def constantProduct (t : Terms) (pc : Nat) (alpha : Int) (s : Sheet) : Outcome Sheet := do
  let f := s.figures
  if t.query.isExactIn then
    return s.withAmountOut (← Power.exactIn f.balanceIn f.balanceOut f.amountIn alpha)
  else
    let q ← Power.exactOut f.balanceIn f.balanceOut f.amountOut alpha t.limits
    return (s.withAmountIn q.amountIn).note pc (.corrections q.corrections)

/-- Computes the amount that the query leaves open at a constant rate. -/
def pegged (q : Query) (rate : Int) (s : Sheet) : Outcome Sheet := do
  let f := s.figures
  if q.isExactIn then return s.withAmountOut (← Peg.exactIn f.balanceOut f.amountIn rate)
  else return s.withAmountIn (← Peg.exactOut f.balanceOut f.amountOut rate)

/-- Computes the amount that the query leaves open along a density curve. -/
def density (q : Query) (curve : Density) (s : Sheet) : Outcome Sheet := do
  let f := s.figures
  if q.isExactIn then return s.withAmountOut (← curve.exactIn f.balanceOut f.amountIn)
  else return s.withAmountIn (← curve.exactOut f.balanceOut f.amountOut)

/-- A swap has computed its amounts. -/
def swapped (t : Terms) (pc : Nat) (s : Outcome Sheet) : Outcome Effect :=
  return now ((← s).swapped pc t.stopAtSwap)

/-! ### All instructions -/

/-- A condition that leaves the sheet as it is. -/
def require (s : Sheet) (condition : Outcome Unit) : Outcome Effect := do
  condition
  return now s

/-- The effect of the instruction at a place. -/
def of (t : Terms) (pc : Nat) (i : Instruction) (s : Sheet) : Outcome Effect :=
  match i with
  | .jump _ => return now s
  | .jumpIfTokenIn .. => return now s
  | .jumpIfTokenOut .. => return now s
  | .deadline time => require s (requireInTime t time)
  | .takerHolds token => require s (requireHolds t token)
  | .takerHoldsAtLeast token minimum => require s (requireHoldsAtLeast t token minimum)
  | .takerShareAtLeast token minimum => require s (requireShareAtLeast t token minimum)
  | .salt _ => return now s
  | .staticBalances entries => return now (← staticBalances t.query entries s)
  | .dynamicBalances entries => dynamicBalances t.query entries s
  | .decay period => decay t period s
  | .concentrate c => concentrate t.query c s
  | .flatFeeIn fee => feeIn t.query fee s
  | .flatFeeOut fee => feeOut t.query fee s
  | .dynamicFeeIn source => do
    let fee ← dynamicFee t source
    feeIn t.query fee (s.note pc (.dynamicFee fee))
  | .constantProduct alpha => swapped t pc (constantProduct t pc alpha s)
  | .pegged rate => swapped t pc (pegged t.query rate s)
  | .density curve => swapped t pc (density t.query curve s)
  | .inert .. => return now s

end Effect

end Walk

end SwapMachine
