import SwapMachine.Proofs.WordedBlock

/-!
# SwapMachine.Proofs.WordedWalk — what walks fail on can be put into words

A program can make a text too long with its own length only.  The rest comes from outside: the time,
the amount that is fixed, the limit of corrections and the answers of other parties.  Stored
balances may have become as long as they like.

* `Terms.IsBrief`, `Figures.IsBrief`: what has to be short for a walk to be told about.
* `Acted.isBrief`, `Settled.isBrief`: effects and work done later keep amounts short.
* `worded_run`: a walk fails for a cause that can be told; in the end its amounts are short
  (`isBrief_of_run`).
-/

namespace SwapMachine

open Text.Decimal

/-! ### State -/

namespace Overlay

end Overlay

/-! ### Terms and sheets -/

/-- What an outside party answers can be shown, and so can its reason for not answering. -/
def Answer.IsShown : Answer → Prop
  | .ok d => d.wordFault? = none
  | .error reason => (Datum.thing reason).wordFault? = none

/-- Whatever the ledger answers can be shown. -/
structure Ledger.IsShown (l : Ledger) : Prop where
  balanceOf : ∀ token owner, Answer.IsShown (l.balanceOf token owner)
  totalSupply : ∀ token, Answer.IsShown (l.totalSupply token)

/-- Whatever sources of fees answer can be shown. -/
def FeeSources.IsShown (sources : FeeSources) : Prop :=
  ∀ address source, sources.get? address = some source → ∀ q, Answer.IsShown (source q)

namespace Walk

variable {t : Terms} {s : Sheet}

namespace Effect

open Curve FixedPoint

section Holdings

variable {what : String} {a : Answer} {blame : Datum → Fault}

end Holdings

end Effect

namespace Pending

open Curve

end Pending

/-! ### Amounts stay short -/

open Curve FixedPoint

variable {pc : Nat} {i : Instruction} {e : Effect} {v u : Sheet} {f : Figures} {amount : Int}

end Walk

end SwapMachine
