import SwapMachine.Walk.Query

/-!
# SwapMachine.Holdings — who holds how much of which token

Holdings are kept by canonical addresses, so that all spellings of an address mean the same account.

* `mint` adds to what an owner holds.
* `ledger` answers a walk's questions from the holdings.
-/

namespace SwapMachine

/-- A token and its owner. -/
structure Account where
  token : String
  owner : String
  deriving DecidableEq

/-- Accounts rise with the token, then with the owner. -/
instance : Ord Account where
  compare a b := (compare a.token b.token).then (compare a.owner b.owner)

/-- The amounts that accounts hold. -/
structure Holdings where
  amounts : Index Account Int

namespace Holdings

/-- Nobody holds anything. -/
def empty : Holdings := ⟨.empty⟩

/-- The account of two addresses. -/
def account (token owner : String) : Outcome Account := do
  let token ← Outcome.ofHex (Address.canonical "address" token)
  let owner ← Outcome.ofHex (Address.canonical "address" owner)
  return ⟨token, owner⟩

/-- What an account holds. -/
def held (h : Holdings) (a : Account) : Int := (h.amounts.get? a).getD 0

/-- The holdings with an amount more in an account. -/
def mint (h : Holdings) (token owner : String) (amount : Int) : Outcome Holdings :=
  if amount < 0 then .error (.request (.negativeMint (.int amount)))
  else do
    let a ← account token owner
    return ⟨h.amounts.insert a (h.held a + amount)⟩

/-- What an owner holds of a token. -/
def balanceOf (h : Holdings) (token owner : String) : Outcome Int :=
  return h.held (← account token owner)

/-- All that is held of a token. -/
def totalSupply (h : Holdings) (token : String) : Outcome Int := do
  let token ← Outcome.ofHex (Address.canonical "address" token)
  return (h.amounts.entries.filter fun e => e.1.token = token).foldr (fun e sum => e.2 + sum) 0

/-- A number, or the text of the fault, as an answer. -/
def answer (r : Outcome Int) : Answer :=
  match r with
  | .ok z => .ok (.int z)
  | .error f => .error (some f.message)

/-- The ledger of the holdings. -/
def ledger (h : Holdings) : Ledger :=
  ⟨fun token owner => answer (h.balanceOf token owner), fun token => answer (h.totalSupply token)⟩

end Holdings

end SwapMachine
