import SwapMachine.Fault

/-!
# SwapMachine.Proofs.Failure — what causes a computation can fail with

* `FailsWithin P x`: the cause of `x`, if it fails, satisfies `P`.  One rule for each way in which
  outcomes are put together.
* `Blameless f`: the cause does not blame the text of a program, that is how it is cut into records,
  where it jumps and what the argument blocks hold.
* `Foreseen f`: the cause is one that the machine foresees, neither data in the wrong form nor a
  division by zero.
* `Ordinary f`: both.
-/

namespace SwapMachine

theorem Outcome.map_eq_ok {α β : Type} {f : α → β} {x : Outcome α} {b : β} :
    f <$> x = .ok b ↔ ∃ a, x = .ok a ∧ f a = b := by
  cases x with
  | error e =>
    constructor
    · intro h
      cases h
    · rintro ⟨_, h, -⟩
      cases h
  | ok a =>
    constructor
    · intro h
      exact ⟨a, rfl, Except.ok.inj h⟩
    · rintro ⟨_, h, rfl⟩
      cases h
      rfl

/-- Steps in a row come to the same if they do with each result of the first. -/
theorem Outcome.bind_congr {α β : Type} {x : Outcome α} {f g : α → Outcome β}
    (h : ∀ a, x = .ok a → f a = g a) : x >>= f = x >>= g := by
  cases x with
  | error e => rfl
  | ok a => exact h a rfl

/-- A result that has been computed. -/
theorem Outcome.eq_ok_of_toOption {α : Type} {x : Outcome α} {a : α} (h : x.toOption = some a) :
    x = .ok a := by
  cases x with
  | error f => cases h
  | ok b => exact congrArg _ (Option.some.inj h)

/-- A result that has not been refused. -/
theorem Outcome.of_refuse {α : Type} {c : Bool} {f : Fault} {a b : α}
    (h : (if c = true then .error f else .ok a : Outcome α) = .ok b) : c = false ∧ a = b := by
  cases c with
  | true => cases h
  | false => exact ⟨rfl, Except.ok.inj h⟩

/-- If the outcome is a failure, its cause satisfies `P`. -/
def FailsWithin {α : Type} (P : Fault → Prop) (x : Outcome α) : Prop := ∀ f, x = .error f → P f

section Rules

variable {α β : Type} {P : Fault → Prop}

theorem failsWithin_ok {a : α} : FailsWithin P (.ok a : Outcome α) := fun _ h => nomatch h

theorem failsWithin_pure {a : α} : FailsWithin P (pure a : Outcome α) := failsWithin_ok

/-- An outcome that fails within no cause is a result. -/
theorem failsWithin_false_iff {x : Outcome α} : FailsWithin (fun _ => False) x ↔ ∃ a, x = .ok a := by
  cases x with
  | error f =>
    refine iff_of_false (fun h => h f rfl) ?_
    rintro ⟨a, h⟩
    cases h
  | ok a => exact ⟨fun _ => ⟨a, rfl⟩, fun _ => failsWithin_ok⟩

theorem failsWithin_error {f : Fault} (h : P f) : FailsWithin P (.error f : Outcome α) := by
  intro g hg
  cases hg
  exact h

theorem FailsWithin.bind {x : Outcome α} {f : α → Outcome β} (hx : FailsWithin P x)
    (hf : ∀ a, x = .ok a → FailsWithin P (f a)) : FailsWithin P (x >>= f) := by
  intro g hg
  cases h : x with
  | error e => rw [h] at hg; cases hg; exact hx _ h
  | ok a => rw [h] at hg; exact hf a h g hg

theorem FailsWithin.mono {Q : Fault → Prop} {x : Outcome α} (h : FailsWithin P x)
    (hpq : ∀ f, P f → Q f) : FailsWithin Q x :=
  fun f hf => hpq f (h f hf)

theorem FailsWithin.map {x : Outcome α} (h : FailsWithin P x) (f : α → β) :
    FailsWithin P (f <$> x) := by
  cases x with
  | error e => exact failsWithin_error (h e rfl)
  | ok a => exact failsWithin_ok

theorem FailsWithin.ite {c : Prop} [Decidable c] {x y : Outcome α} (hx : c → FailsWithin P x)
    (hy : ¬ c → FailsWithin P y) : FailsWithin P (if c then x else y) := by
  split
  · exact hx ‹_›
  · exact hy ‹_›

end Rules

/-- Kinds of failure that blame the text of a program. -/
def Kind.blamesProgram : Kind → Bool
  | .malformedInstruction | .argsExceedProgram | .invalidOpcode | .invalidJumpTarget => true
  | k => k.isArguments

/-- The cause does not blame the text of a program. -/
def Blameless (f : Fault) : Prop := f.kind.blamesProgram = false

instance (f : Fault) : Decidable (Blameless f) := inferInstanceAs (Decidable (_ = _))

/-- The machine foresees the cause. -/
def Foreseen (f : Fault) : Prop := f.kind.isEngine = true

instance (f : Fault) : Decidable (Foreseen f) := inferInstanceAs (Decidable (_ = _))

/-- The machine foresees the cause, which does not blame the text of a program. -/
structure Ordinary (f : Fault) : Prop where
  blameless : Blameless f
  foreseen : Foreseen f

end SwapMachine
