import SwapMachine.Intake.Pricing
import SwapMachine.State.Overlay

/-!
# SwapMachine.Intake.State — state asked and written with data not yet looked at

What is only compared may be a fraction or a truth value and is compared by value. An amount to be
written is refused as it was given if it is negative.
-/

namespace SwapMachine.Intake

/-! ### Offsets -/

/-- What an offset leaves of a balance; nothing is left by whatever exceeds a whole balance. -/
def offsetDown (balance offset : Datum) : Outcome Int := do
  match balance with
  | .float _ => return withoutOffset (← number "balance" balance) (← number "offset" offset)
  | _ =>
    if balance.isBelow offset then .ok 0
    else return withoutOffset (← number "balance" balance) (← number "offset" offset)

/-- A balance with a virtual one on top; without a scale the liquidity is not looked at. -/
def effective (balance delta scale liquidity : Datum) : Outcome Int := do
  let b ← number "balance" balance
  let d ← number "delta" delta
  match scale with
  | .nothing => effectiveBalance b d none 0
  | scale =>
    let s ← number "scale" scale
    effectiveBalance b d (some s) (← number "initial" liquidity)

/-- The time since the start of a fade, none before the start; the difference to a fraction is
rounded. -/
def elapsed (start : Int) (now : Datum) : Outcome Datum :=
  match now with
  | .float x =>
    let since := x.add (.ofInt (-start))
    .ok (if (Datum.int 0).isBelow (.float since) then .float since else .int 0)
  | d => do return .int (max 0 ((← number "now" d) - start))

/-- What is left of a fading amount: nothing once the time since its start reaches the period. -/
def fadeValue (base start now period : Datum) : Outcome Int := do
  let f ← Fade.ofData base start
  if period.isAtMost (.int 0) then .error (.state .periodNotPositive)
  else
    let t ← elapsed f.start now
    if period.isAtMost t then .ok 0
    else f.valueAt (← number "now" now) (← number "period" period)

/-! ### Writing -/

/-- The number that is kept of an amount: its whole part. -/
def kept (field : String) (d : Datum) : Outcome Int :=
  match d with
  | .float x =>
    match x.truncate? with
    | some z => .ok z
    | none => .ok 0
  | d => number field d

/-- Writes a balance that is not negative. -/
def setBalance (o : Overlay) (token : String) (amount : Datum) : Outcome Overlay :=
  if amount.isBelow (.int 0) then .error (.state (.negativeBalance token amount))
  else do o.setBalance token (← kept "amount" amount)

/-- Writes a scale that is not negative. -/
def setScale (o : Overlay) (scale : Datum) : Outcome Overlay :=
  if scale.isBelow (.int 0) then .error (.state (.negativeScale scale))
  else do o.setScale (← kept "scale" scale)

end SwapMachine.Intake
