import SwapMachine.Identity.Order
import SwapMachine.Program.Check
import SwapMachine.Settings.Basic
import SwapMachine.State.Store
import SwapMachine.Walk.Run

/-!
# SwapMachine.Engine.Basic — engines and what is asked of them

An engine serves orders: it keeps their state and which of them are registered, and knows the
parties that walks consult.

* `FeeSources.ofList` finds sources by canonical address.
* `Engine.register` checks a program once and remembers its order.
* `Engine.accept` is the first check of every request.
-/

namespace SwapMachine

/-- The sources of fees by address. -/
abbrev FeeSources := Index String FeeSource

/-- Puts sources at their canonical addresses; of two at one address the later one counts. -/
def FeeSources.ofList (known : FeeSources) : List (Datum × FeeSource) → Outcome FeeSources
  | [] => .ok known
  | (address, source) :: rest => do
    let a ← Outcome.ofHex (Address.ofDatum "address" address)
    FeeSources.ofList (known.insert a source) rest

/-- The address that stands for no taker in particular. -/
def zeroAddress : String := Address.ofBytes (List.replicate Address.size 0)

/-- A request as it comes from outside, before it has been looked at: the tokens, the amount that is
fixed and which one that is, what the other amount has to keep to, and the taker. -/
structure Request where
  tokenIn : Datum
  tokenOut : Datum
  amount : Datum
  isExactIn : Bool := true
  threshold : Option Datum := none
  taker : Datum := .text zeroAddress

/-- The amounts of a trade. -/
structure Fill where
  amountIn : Int
  amountOut : Int
  order : String
  deriving DecidableEq

/-- What came of an operation, and the lines that it wrote to the log. -/
structure Report (α : Type) where
  outcome : Outcome α
  log : List LogLine

/-- An engine. -/
structure Engine where
  settings : Settings
  instructions : InstructionSet
  ledger : Option Ledger
  feeSources : FeeSources
  store : Store
  registered : List String

namespace Engine

/-- The name of the engine in the log. -/
def source : String := "swapvm.integration.engine"

/-- An engine that has served no order yet. -/
def start (settings : Settings) (instructions : InstructionSet) (ledger : Option Ledger)
    (feeSources : FeeSources) : Engine :=
  ⟨settings, instructions, ledger, feeSources, .empty, []⟩

/-- The engine with other parties to consult. -/
def withLedger (e : Engine) (ledger : Option Ledger) : Engine := { e with ledger }

/-- Refuses a program that is too long, before anything of it is decoded. -/
def requireSize (e : Engine) (o : Order) : Outcome Unit :=
  if e.settings.programLimit < o.program.length then
    .error (.program (.tooLarge o.program.length e.settings.programLimit))
  else .ok ()

/-! ### Registration -/

/-- The order is registered. -/
def isRegistered (e : Engine) (o : Order) : Bool := e.registered.contains o.hash

/-- The place of the first swap of an order whose program is valid. -/
def examine (e : Engine) (o : Order) : Outcome Nat := do
  requireSize e o
  let _ ← Program.validate e.instructions o.program
  Program.swapPoint e.instructions o.program

/-- The line that a registration leaves in the log. -/
def registrationLine (o : Order) (swapPc : Nat) : LogLine :=
  ⟨.info, source, s!"registered order {o.hash} maker={o.maker} swap_pc={swapPc} "
    ++ s!"size={o.program.length}"⟩

/-- Registers an order with a valid program that has a swap; its hash is the result. -/
def register (e : Engine) (o : Order) : Report String × Engine :=
  match examine e o with
  | .error f => (⟨.error f, []⟩, e)
  | .ok swapPc =>
    (⟨.ok o.hash, [registrationLine o swapPc]⟩, { e with registered := o.hash :: e.registered })

/-- The hash of an order that the engine serves. -/
def accept (e : Engine) (o : Order) : Outcome String := do
  requireSize e o
  let h := o.hash
  if e.settings.requiresRegistration ∧ ¬ e.registered.contains h then
    .error (.request (.notRegistered h))
  else return h

end Engine

end SwapMachine
