import SwapMachine.Curve.Amount
import SwapMachine.Walk.Sheet

/-!
# SwapMachine.Walk.Pending — work that waits for the rest of the program

Some instructions act around all that comes behind them: they change figures first, and once the
rest of the program has run they put figures back or book what has happened. `Pending` is the second
half.

* `Pending.settle` does the work. Except for putting figures back, it does nothing when no swap was
  computed.
-/

namespace SwapMachine.Walk

open Number Curve

/-- What is left of a fading amount of a token and side. -/
def fadeLeft (t : Terms) (o : Overlay) (token : String) (side : Side) (period : Nat) :
    Outcome Int :=
  match o.fade? token side with
  | some fade => fade.valueAt t.now period
  | none => .ok 0

/-- Work that waits until the rest of the program has run. -/
inductive Pending where
  /-- Moves the amounts between the stored balances of the order. -/
  | book
  /-- Lets the amounts fade on the sides of the reverse trade. -/
  | fade (period : Nat)
  /-- Puts the real balances back and stores the scale of the liquidity after the trade. -/
  | scale (realIn realOut virtualIn virtualOut : Int)
  /-- Puts the amount in back to what it was before its fee. -/
  | restoreIn (gross : Int)
  /-- Raises the amount in so that it covers its fee. -/
  | raiseIn (fee : Int)
  /-- Takes the fee from the amount out. -/
  | lowerOut (fee : Int)
  /-- Puts the amount out back to what it was before its fee. -/
  | restoreOut (net : Int)
  deriving DecidableEq

namespace Pending

/-- Takes the amount out from the balance of the token paid out and adds the amount in to the other.
-/
def settleBook (q : Query) (f : Figures) (o : Overlay) : Outcome Overlay := do
  let left := (← o.balance q.tokenOut) - f.amountOut
  if left < 0 then .error (.walk (.cannotDeliver f.amountOut q.tokenOut))
  else
    let o ← o.setBalance q.tokenIn ((← o.balance q.tokenIn) + f.amountIn)
    o.setBalance q.tokenOut left

/-- Adds the amounts to what is left of the fading amounts of the reverse trade, which fade anew. -/
def settleFade (t : Terms) (f : Figures) (period : Nat) (o : Overlay) : Outcome Overlay := do
  let q := t.query
  let leftIncoming ← fadeLeft t o q.tokenOut .incoming period
  let leftOutgoing ← fadeLeft t o q.tokenIn .outgoing period
  let incoming ← Fade.make (leftIncoming + f.amountOut) t.now
  let outgoing ← Fade.make (leftOutgoing + f.amountIn) t.now
  return (o.setFade q.tokenOut .incoming incoming).setFade q.tokenIn .outgoing outgoing

/-- The square root of the product of the virtual balances after the trade. -/
def scaleAfter (f : Figures) (virtualIn virtualOut : Int) : Outcome Int :=
  let left := virtualOut - f.amountOut
  if left < 0 then .error (.walk (.cannotDeliverVirtual f.amountOut))
  else
    let product := (virtualIn + f.amountIn) * left
    if product < 0 then .error (.math .negativeRoot) else .ok (isqrt product.toNat)

/-- Does the work. -/
def settle (t : Terms) (p : Pending) (s : Sheet) : Outcome Sheet :=
  match p with
  | book =>
    if s.isComputed then return { s with overlay := ← settleBook t.query s.figures s.overlay }
    else return s
  | fade period =>
    if s.isComputed then return { s with overlay := ← settleFade t s.figures period s.overlay }
    else return s
  | scale realIn realOut virtualIn virtualOut => do
    let s := s.withBalances realIn realOut
    if s.isComputed then
      let scale ← scaleAfter s.figures virtualIn virtualOut
      return { s with overlay := ← s.overlay.setScale scale }
    else return s
  | restoreIn gross => return s.withAmountIn gross
  | raiseIn fee =>
    if s.isComputed then return s.withAmountIn (← beforeFee s.figures.amountIn fee) else return s
  | lowerOut fee =>
    if s.isComputed then return s.withAmountOut (← lessFee s.figures.amountOut fee) else return s
  | restoreOut net => return s.withAmountOut net

theorem isHalted_of_settle {t : Terms} {p : Pending} {s s' : Sheet} (h : p.settle t s = .ok s') :
    s'.isHalted = s.isHalted := by
  unfold settle at h
  cases p with
  | book | fade | raiseIn | lowerOut =>
    simp only at h
    split at h
    · obtain ⟨_, _, h⟩ := Outcome.bind_eq_ok.1 h
      cases h; rfl
    · cases h; rfl
  | scale =>
    simp only at h
    split at h
    · obtain ⟨_, _, h⟩ := Outcome.bind_eq_ok.1 h
      obtain ⟨_, _, h⟩ := Outcome.bind_eq_ok.1 h
      cases h; rfl
    · cases h; rfl
  | restoreIn | restoreOut => cases h; rfl

end Pending

end SwapMachine.Walk
