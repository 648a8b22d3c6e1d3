import SwapMachine.FixedPoint.Scale
import SwapMachine.State.Index

/-!
# SwapMachine.State.Snapshot — what is kept for an order between walks

A snapshot holds the balances of tokens, amounts that fade with time (one for each token and side),
the liquidity that concentration is scaled by, and a version. What has never been written is absent,
which is not the same as zero.

* `Fade.value` falls from `base` to zero in a straight line over a period.
-/

namespace SwapMachine

open Number

/-- The side of a trade that a token is on. -/
inductive Side where
  | incoming
  | outgoing
  deriving DecidableEq

namespace Side

/-- The number of a side. -/
def number : Side → Nat
  | incoming => 0
  | outgoing => 1

/-- The name of a side. -/
def name : Side → String
  | incoming => "IN"
  | outgoing => "OUT"

/-- The side of a number. -/
def ofNumber? : Int → Option Side
  | 0 => some incoming
  | 1 => some outgoing
  | _ => none

/-- The side that a datum stands for. -/
def ofDatum (d : Datum) : Outcome Side :=
  match d.whole?.bind ofNumber? with
  | some s => .ok s
  | none => .error (.state (.notASide d))

end Side

/-- An amount that fades from a point in time on. -/
structure Fade where
  base : Int
  start : Int
  base_nonneg : 0 ≤ base

namespace Fade

/-- The fade of an amount that is not negative. -/
def make (base start : Int) : Outcome Fade :=
  if h : 0 ≤ base then .ok ⟨base, start, h⟩ else .error (.state (.negativeFade base))

/-- The fade of an amount and a time that fields hold. -/
def ofData (base start : Datum) : Outcome Fade := do
  let b ← base.toInt "base"
  let s ← start.toInt "start"
  make b s

/-- What is left at a time, the whole fading over a period; before the start all is left. -/
def value (f : Fade) (now period : Int) : Int :=
  let elapsed := max 0 (now - f.start)
  if period ≤ elapsed then 0 else floorDiv (f.base * (period - elapsed)) period

/-- What is left at a time, for a period that may be bad. -/
def valueAt (f : Fade) (now period : Int) : Outcome Int :=
  if period ≤ 0 then .error (.state .periodNotPositive) else .ok (f.value now period)

end Fade

/-- The token and the side of a fading amount. -/
structure FadeKey where
  token : String
  side : Side
  deriving DecidableEq

/-- Keys rise with the token, and the incoming side comes first. -/
instance : Ord FadeKey where
  compare a b := (compare a.token b.token).then (compare a.side.number b.side.number)

/-- What is kept for an order. -/
structure Snapshot where
  balances : Index String Int
  fades : Index FadeKey Fade
  scale : Option Int
  version : Nat

namespace Snapshot

/-- Nothing has been written yet. -/
def empty : Snapshot := ⟨.empty, .empty, none, 0⟩

/-- Nothing is kept. -/
def isEmpty (s : Snapshot) : Bool := s.balances.isEmpty && s.fades.isEmpty && s.scale.isNone

end Snapshot

/-- What an offset leaves of a balance, not less than zero. -/
def withoutOffset (balance offset : Int) : Int := balance - min offset balance

/-- A balance with a virtual one on top, scaled by how far liquidity has moved. -/
def effectiveBalance (balance delta : Int) (scale : Option Int) (liquidity : Int) : Outcome Int :=
  match scale with
  | none => .ok (balance + delta)
  | some s => return balance + (← FixedPoint.divideDown (delta * s) liquidity)

end SwapMachine
