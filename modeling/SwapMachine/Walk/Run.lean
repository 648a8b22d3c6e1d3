import SwapMachine.Log
import SwapMachine.Program.Record
import SwapMachine.Walk.Effect

/-!
# SwapMachine.Walk.Run — walking through a program

A walk decodes the record at its place, parses it, moves on (behind the record, or to where it
jumps) and lets it act; it ends at the end of the program or when it is halted. Work that an
instruction left for later is done when the rest of the walk has come to its end, the latest first.

* Every step moves ahead (`pc_lt_of_step`), so a walk comes to no place twice and always ends.
* A walk without a fault ends where nothing more can run (`isOver_of_run`); work done later does not
  change this (`isOver_of_settle`).
-/

namespace SwapMachine

/-- A walk: its place, the place of the instruction it met last, and its sheet. -/
structure Walk where
  pc : Nat
  current : Nat
  sheet : Walk.Sheet

namespace Walk

/-- The walk has come to its end. -/
def isOver (t : Terms) (w : Walk) : Bool := t.program.length ≤ w.pc || w.sheet.isHalted

/-- The place behind a record or, if its instruction jumps, where that leads: ahead, and no farther
than the end of the program. -/
def nextPlace (t : Terms) (r : Record) (i : Instruction) : Outcome Nat :=
  match i.destination? t.query with
  | none => .ok r.next
  | some target =>
    if target ≤ r.pc ∨ t.program.length < target then .error (.program (.badJump r.pc target))
    else .ok target

/-- One instruction: the walk behind it and the work that it leaves for later. -/
def step (t : Terms) (w : Walk) : Outcome (Walk × Option Pending) := do
  let r ← Record.decodeAt t.instructions t.program w.pc
  let i ← r.parse
  let next ← nextPlace t r i
  let effect ← Effect.of t r.pc i w.sheet
  return (⟨next, r.pc, effect.sheet⟩, effect.pending)

theorem lt_of_nextPlace {t : Terms} {r : Record} {i : Instruction} {next : Nat}
    (h : nextPlace t r i = .ok next) : r.pc < next := by
  unfold nextPlace at h
  split at h
  · injection h with h
    simp only [Record.next, Record.headerSize] at h
    omega
  · split at h
    · cases h
    · injection h with h
      omega

theorem pc_lt_of_step {t : Terms} {w w' : Walk} {p : Option Pending}
    (h : step t w = .ok (w', p)) : w.pc < w'.pc := by
  obtain ⟨r, hr, h⟩ := Outcome.bind_eq_ok.1 h
  obtain ⟨i, -, h⟩ := Outcome.bind_eq_ok.1 h
  obtain ⟨next, hnext, h⟩ := Outcome.bind_eq_ok.1 h
  obtain ⟨e, -, h⟩ := Outcome.bind_eq_ok.1 h
  have hpc := (Record.decodeAt_eq_ok hr).1
  cases h
  exact hpc ▸ lt_of_nextPlace hnext

/-- The walk when it has done some work. -/
def settle (t : Terms) (p : Pending) (w : Walk) : Outcome Walk :=
  return { w with sheet := ← p.settle t w.sheet }

theorem isOver_of_settle {t : Terms} {p : Pending} {w w' : Walk} (h : settle t p w = .ok w') :
    w'.isOver t = w.isOver t := by
  obtain ⟨s, hs, h⟩ := Outcome.bind_eq_ok.1 h
  cases h
  simp only [isOver, Pending.isHalted_of_settle hs]

/-- The walk at its end. -/
def run (t : Terms) (w : Walk) : Outcome Walk :=
  if w.isOver t then .ok w
  else
    match _h : step t w with
    | .error f => .error f
    | .ok (w', none) => run t w'
    | .ok (w', some p) => do settle t p (← run t w')
termination_by t.program.length - w.pc
decreasing_by
  all_goals
    have := pc_lt_of_step _h
    have hover : ¬ w.isOver t = true := by assumption
    simp only [isOver, Bool.or_eq_true, decide_eq_true_eq] at hover
    omega

theorem isOver_of_run {t : Terms} {w w' : Walk} (h : run t w = .ok w') : w'.isOver t = true := by
  fun_induction run t w generalizing w' with
  | case1 w hover => cases h; exact hover
  | case2 w hover f hstep => cases h
  | case3 w hover next hstep ih => exact ih h
  | case4 w hover next p hstep ih =>
    obtain ⟨v, hv, h⟩ := Outcome.bind_eq_ok.1 h
    exact (isOver_of_settle h).trans (ih hv)

/-- The walk of a program from a place on. -/
def through (t : Terms) (start : Int) (s : Sheet) : Outcome Walk :=
  if 0 ≤ start ∧ start ≤ t.program.length then run t ⟨start.toNat, 0, s⟩
  else .error (.program (.startOutOfRange (.int start)))

/-- The name of the walk in the log. -/
def source : String := "swapvm.core.interpreter"

/-- The line that the start of a walk leaves in the log. -/
def startLine (q : Query) (start : Nat) : LogLine :=
  let exactIn := (Datum.bool q.isExactIn).display
  ⟨.debug, source, s!"walk order={q.order} start_pc={start} exact_in={exactIn}"⟩

end Walk

end SwapMachine
