import SwapMachine.Holdings
import SwapMachine.Number.Rounded

/-!
# SwapMachine.Intake.Minting — holdings that are minted with data not yet looked at

An account that a fraction has been minted to holds a fraction from then on, and a ledger answers
with it as with any other value; it is for the walk to refuse that. All other accounts are kept as
`Holdings`.

* `Minted.mint` refuses a negative amount as it was given.
* `Minted.totalSupply` adds up in the order in which accounts were first minted to: with fractions
  among the summands their order counts.
-/

namespace SwapMachine.Intake

open Number (Binary64 Quantity)

/-- Holdings in whole numbers, the accounts that hold fractions, and all accounts in the order in
which they were first minted to. -/
structure Minted where
  holdings : Holdings
  fractions : List (Account × Binary64)
  accounts : List Account

namespace Minted

/-- Nobody holds anything. -/
def empty : Minted := ⟨.empty, [], []⟩

/-- What an account holds. -/
def held (m : Minted) (a : Account) : Quantity :=
  match m.fractions.lookup a with
  | some x => .fraction x
  | none => .whole (m.holdings.held a)

/-- The account of two addresses. -/
def account (token owner : Datum) : Outcome Account := do
  let token ← Outcome.ofHex (Address.ofDatum "address" token)
  let owner ← Outcome.ofHex (Address.ofDatum "address" owner)
  return ⟨token, owner⟩

/-- A sum, if there is one. -/
def summed (sum : Option Quantity) : Outcome Quantity :=
  match sum with
  | some q => .ok q
  | none => .error (.math .beyondFractions)

/-- The holdings with an amount more in an account that there is; a fraction takes the place of what
the account held. -/
def add (m : Minted) (a : Account) (amount : Quantity) : Outcome Minted := do
  let sum ← summed ((m.held a).add? amount)
  let accounts := if m.accounts.contains a then m.accounts else m.accounts ++ [a]
  match amount, sum with
  | .whole z, .whole _ => return ⟨← m.holdings.mint a.token a.owner z, m.fractions, accounts⟩
  | _, sum =>
    let others := m.fractions.filter fun e => e.1 ≠ a
    return ⟨m.holdings, (sum.fraction?.map fun x => (a, x)).toList ++ others, accounts⟩

/-- The holdings with an amount more in an account; the amount is looked at first. -/
def mint (m : Minted) (token owner amount : Datum) : Outcome Minted :=
  if amount.isBelow (.int 0) then .error (.request (.negativeMint amount))
  else do
    let a ← account token owner
    match amount.quantity? with
    | some q => m.add a q
    | none => .error (.notInt "amount")

/-- What an owner holds of a token. -/
def balanceOf (m : Minted) (token owner : Datum) : Outcome Quantity :=
  return m.held (← account token owner)

/-- All that is held of a token; while nothing of it is a fraction, the holdings tell. -/
def totalSupply (m : Minted) (token : Datum) : Outcome Quantity := do
  let address ← Outcome.ofHex (Address.ofDatum "address" token)
  if m.fractions.any fun e => e.1.token == address then
    summed (Quantity.sum? (.whole 0) ((m.accounts.filter fun a => a.token == address).map m.held))
  else return .whole (← m.holdings.totalSupply address)

/-- A value, or the text of the fault, as an answer. -/
def answer (r : Outcome Quantity) : Answer :=
  match r with
  | .ok q => .ok (.ofQuantity q)
  | .error f => .error (some f.message)

/-- The ledger of the holdings. -/
def ledger (m : Minted) : Ledger :=
  ⟨fun token owner => answer (m.balanceOf (.text token) (.text owner)),
    fun token => answer (m.totalSupply (.text token))⟩

end Minted

end SwapMachine.Intake
