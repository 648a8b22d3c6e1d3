import SwapMachine.State.Snapshot

/-!
# SwapMachine.State.Overlay — pending writes over a snapshot

A walk reads through an overlay and writes into it; the snapshot below never changes. A read gives
the last value written, or else what the snapshot has.

* `result` is the snapshot with the writes applied, one version on.
-/

namespace SwapMachine

/-- Writes that are pending for an order, and the snapshot they started from. -/
structure Overlay where
  order : String
  base : Snapshot
  balances : Index String Int
  fades : Index FadeKey Fade
  scale : Option Int

namespace Overlay

/-- No writes yet. -/
def start (order : String) (base : Snapshot) : Overlay := ⟨order, base, .empty, .empty, none⟩

/-! ### Balances -/

/-- The balance of a token, if it has one. -/
def balance? (o : Overlay) (token : String) : Option Int :=
  (o.balances.get? token).or (o.base.balances.get? token)

/-- The token has a balance. -/
def hasBalance (o : Overlay) (token : String) : Bool := (o.balance? token).isSome

/-- The balance of a token that has one. -/
def balance (o : Overlay) (token : String) : Outcome Int :=
  match o.balance? token with
  | some amount => .ok amount
  | none => .error (.state (.noBalance token o.order))

/-- Writes a balance that is not negative. -/
def setBalance (o : Overlay) (token : String) (amount : Int) : Outcome Overlay :=
  if amount < 0 then .error (.state (.negativeBalance token (.int amount)))
  else .ok { o with balances := o.balances.insert token amount }

/-! ### Fading amounts -/

/-- The fading amount of a token on a side, if there is one. -/
def fade? (o : Overlay) (token : String) (side : Side) : Option Fade :=
  (o.fades.get? ⟨token, side⟩).or (o.base.fades.get? ⟨token, side⟩)

/-- Writes a fading amount. -/
def setFade (o : Overlay) (token : String) (side : Side) (fade : Fade) : Overlay :=
  { o with fades := o.fades.insert ⟨token, side⟩ fade }

/-! ### Liquidity scale -/

/-- The liquidity scale, if there is one. -/
def scale? (o : Overlay) : Option Int := o.scale.or o.base.scale

/-- The liquidity scale of an order that has one. -/
def requireScale (o : Overlay) : Outcome Int :=
  match o.scale? with
  | some s => .ok s
  | none => .error (.state (.noScale o.order))

/-- Writes a scale that is not negative. -/
def setScale (o : Overlay) (scale : Int) : Outcome Overlay :=
  if scale < 0 then .error (.state (.negativeScale (.int scale)))
  else .ok { o with scale := some scale }

/-! ### Result -/

/-- Something has been written. -/
def isDirty (o : Overlay) : Bool := !o.balances.isEmpty || !o.fades.isEmpty || o.scale.isSome

/-- The snapshot with all writes applied. -/
def result (o : Overlay) : Snapshot :=
  ⟨o.base.balances.overlay o.balances, o.base.fades.overlay o.fades, o.scale?, o.base.version + 1⟩

end Overlay

end SwapMachine
