import SwapMachine.Proofs.Preview

/-!
# SwapMachine.Proofs.Course — walks that come to the swap at the end of their program

In a program the last record of which is its only swap, a walk that computes a trade goes through
records that are no swaps, turns back at the swap, and on its way back does the work that the
records have left for later.

* `Meets t w r i next`: a walk stands at a record, its instruction is known, and where it leads.
* `Course t last w u`: all the way of such a walk from `w` to `u`; `course_of_run`.
-/

namespace SwapMachine

namespace Walk

open Program

variable {t : Terms} {w u v : Walk} {r : Record} {i last : Instruction} {next : Nat}

/-- A walk that is not over stands at a record with an instruction that leads on to a place. -/
structure Meets (t : Terms) (w : Walk) (r : Record) (i : Instruction) (next : Nat) : Prop where
  live : ¬ w.isOver t = true
  record : r ∈ (Scan.of t.instructions t.program).records
  place : r.pc = w.pc
  parses : r.parse = .ok i
  moves : nextPlace t r i = .ok next

namespace Meets

theorem opcode (h : Meets t w r i next) : i.opcode = r.opcode :=
  (Instruction.parse_eq_ok h.parses).1

theorem isValid (h : Meets t w r i next) : i.IsValid := (Instruction.parse_eq_ok h.parses).2

theorem pc_lt (h : Meets t w r i next) : r.pc < next := lt_of_nextPlace h.moves

/-- What a walk comes to that meets a record. -/
theorem run_eq_ok_iff (h : Meets t w r i next) : run t w = .ok u ↔
    ∃ e v s, Effect.of t r.pc i w.sheet = .ok e ∧ run t ⟨next, r.pc, e.sheet⟩ = .ok v ∧
      conclude t e.pending v.sheet = .ok s ∧ u = { v with sheet := s } := by
  have hdecode := Scan.decodeAt_of_mem_scan h.record
  rw [h.place] at hdecode
  rw [run_of_record h.live hdecode h.parses h.moves, Outcome.bind_eq_ok]
  refine exists_congr fun e => ?_
  constructor
  · rintro ⟨he, hrun⟩
    obtain ⟨v, hv, hclose⟩ := Outcome.bind_eq_ok.1 hrun
    obtain ⟨s, hs, hclose⟩ := Outcome.bind_eq_ok.1 hclose
    cases hclose
    exact ⟨v, s, he, hv, hs, rfl⟩
  · rintro ⟨v, s, he, hv, hs, rfl⟩
    exact ⟨he, Outcome.bind_eq_ok.2 ⟨v, hv, Outcome.bind_eq_ok.2 ⟨s, hs, rfl⟩⟩⟩

end Meets

theorem exists_meets (hw : WellFormed t.instructions t.program)
    (hpc : w.pc ∈ places t.instructions t.program) (hover : ¬ w.isOver t = true) :
    ∃ r i next, Meets t w r i next ∧ next ∈ places t.instructions t.program := by
  obtain ⟨r, hr, i, next, hrpc, hi, -, -, hnext, hm, -⟩ := step_of_wellFormed hw hpc hover
  exact ⟨r, i, next, ⟨hover, hr, hrpc, hi, hnext⟩, hm⟩

/-- The course of a walk to the swap and back. -/
inductive Course (t : Terms) (last : Instruction) : Walk → Walk → Prop where
  | swap {w : Walk} {r : Record} {e : Effect} (meets : Meets t w r last r.next)
      (ends : r.next = t.program.length) (acts : Effect.of t r.pc last w.sheet = .ok e) :
      Course t last w ⟨r.next, r.pc, e.sheet⟩
  | behind {w v : Walk} {r : Record} {i : Instruction} {next : Nat} {e : Effect} {s : Sheet}
      (meets : Meets t w r i next) (other : i.opcode.isSwap = false)
      (acts : Effect.of t r.pc i w.sheet = .ok e)
      (inner : Course t last ⟨next, r.pc, e.sheet⟩ v)
      (closes : conclude t e.pending v.sheet = .ok s) : Course t last w { v with sheet := s }

theorem isComputed_of_conclude {p : Option Pending} {s s' : Sheet}
    (h : conclude t p s = .ok s') : s'.isComputed = s.isComputed := by
  cases p with
  | none => cases h; rfl
  | some p => exact (settled_of_conclude h).isComputed

/-- Instructions that are no swaps compute no trade. -/
theorem Acted.isComputed {pc : Nat} {s : Sheet} {e : Effect} (h : Acted t pc i s e)
    (hi : i.opcode.isSwap = false) : e.sheet.isComputed = s.isComputed := by
  cases h with
  | output _ given => rw [outputOf_of_not_swap hi] at given; cases given
  | input _ asked => rw [inputOf_of_not_swap hi] at asked; cases asked
  | _ => rfl

theorem isComputed_of_swap {pc : Nat} {s : Sheet} {e : Effect} (hi : i.opcode.isSwap = true)
    (h : Effect.of t pc i s = .ok e) : e.sheet.isComputed = true := by
  cases i with
  | constantProduct | pegged | density =>
    obtain ⟨_, -, h⟩ := Outcome.bind_eq_ok.1 h
    cases h
    rfl
  | _ => cases hi

/-- **Walks that compute a trade** have a course. -/
theorem course_of_run (hends : EndsIn t.instructions t.program last)
    (hpc : w.pc ∈ places t.instructions t.program) (hopen : w.sheet.isComputed = false)
    (h : run t w = .ok u) (hc : u.sheet.isComputed = true) : Course t last w u := by
  obtain ⟨records, final, hv, hfinal, hothers⟩ := hends.shape
  obtain ⟨hrecords, hw⟩ := validate_eq_ok_iff.1 hv
  induction hn : t.program.length - w.pc using Nat.strongRecOn generalizing w u with
  | ind n ih =>
    by_cases hover : w.isOver t = true
    · obtain rfl : w = u := Except.ok.inj ((run_of_isOver hover).symm.trans h)
      rw [hopen] at hc
      cases hc
    · obtain ⟨r, i, next, hmeets, hm⟩ := exists_meets hw hpc hover
      obtain ⟨e, v, s, he, hrun, hs, rfl⟩ := hmeets.run_eq_ok_iff.1 h
      have hr := hmeets.record
      rw [← hrecords] at hr
      rcases List.mem_append.1 hr with hr | hr
      · have hother : i.opcode.isSwap = false := hmeets.opcode ▸ hothers r hr
        have hlt := hmeets.place ▸ hmeets.pc_lt
        have hlive := pc_lt_of_not_isOver hover
        refine .behind hmeets hother he (ih _ ?_ hm ?_ hrun ?_ rfl) hs
        · show t.program.length - next < n
          omega
        · exact ((Acted.of_effect he).isComputed hother).trans hopen
        · exact (isComputed_of_conclude hs).symm.trans hc
      · -- the swap, behind which nothing is left to walk
        obtain rfl := List.mem_singleton.1 hr
        obtain rfl : i = last := Except.ok.inj (hmeets.parses.symm.trans hfinal)
        have hend := Scan.next_last hw.whole hrecords.symm
        have hnext : nextPlace t r i = .ok r.next := by
          rw [nextPlace, destination?_of_swap hends.swap]
        obtain rfl : r.next = next := Except.ok.inj (hnext.symm.trans hmeets.moves)
        obtain rfl : (⟨r.next, r.pc, e.sheet⟩ : Walk) = v :=
          Except.ok.inj ((run_of_end hend).symm.trans hrun)
        rw [pending_of_swap hends.swap he] at hs
        cases hs
        exact .swap hmeets hend he

theorem Course.isComputed (h : Course t last w u) (hlast : last.opcode.isSwap = true) :
    u.sheet.isComputed = true := by
  induction h with
  | swap _ _ acts => exact isComputed_of_swap hlast acts
  | behind _ _ _ _ closes ih => exact (isComputed_of_conclude closes).trans ih

end Walk

end SwapMachine
