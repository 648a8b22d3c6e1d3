import SwapMachine.Engine.Trade
import SwapMachine.Proofs.Blame
import SwapMachine.Proofs.Boundary

/-!
# SwapMachine.Proofs.ValidWalk — walks of valid programs

A scan goes through a program from the front, a walk follows jumps and runs the rest of the program
inside wrappers.  In a well-formed program both see the same records: a walk that stands at a
boundary meets the record there, and goes on to a boundary (`step_of_wellFormed`).

* `visited t w`: the places at which a walk meets an instruction, in turn.
* `run_induction`: a relation between the begin and the end of a walk, from one step.
* `keepsTo_of_valid`: a walk of a valid program does not blame the program, and meets instructions
  only where the scan finds records.
-/

namespace SwapMachine

namespace Program

variable {set : InstructionSet} {program : Bytes}

theorem le_length_of_mem_places {pc : Nat} (h : pc ∈ places set program) :
    pc ≤ program.length := by
  rcases List.mem_cons.1 h with rfl | h
  · exact Nat.le_refl _
  · obtain ⟨r, hr, rfl⟩ := List.mem_map.1 h
    have := (Record.decodeAt_eq_ok (Scan.decodeAt_of_mem_scan hr)).2
    simp only [Record.next] at this
    omega

theorem exists_record_of_mem_places {pc : Nat} (h : pc ∈ places set program)
    (hlt : pc < program.length) : ∃ r ∈ (Scan.of set program).records, r.pc = pc := by
  rcases List.mem_cons.1 h with rfl | h
  · omega
  · exact List.mem_map.1 h

end Program

theorem Instruction.target?_of_destination? {q : Query} {i : Instruction} {target : Nat}
    (h : i.destination? q = some target) : i.target? = some target := by
  cases i with
  | jump => exact h
  | jumpIfTokenIn | jumpIfTokenOut =>
    simp only [destination?] at h
    split at h
    · exact h
    · cases h
  | _ => cases h

namespace Walk

open Program

/-! ### The course of a walk -/

/-- The places at which a walk meets an instruction, in turn. -/
def visited (t : Terms) (w : Walk) : List Nat :=
  if w.isOver t then []
  else
    match _h : step t w with
    | .error _ => [w.pc]
    | .ok (w', _) => w.pc :: visited t w'
termination_by t.program.length - w.pc
decreasing_by
  have := pc_lt_of_step _h
  have hover : ¬ w.isOver t = true := by assumption
  simp only [isOver, Bool.or_eq_true, decide_eq_true_eq] at hover
  omega

theorem pc_lt_of_not_isOver {t : Terms} {w : Walk} (h : ¬ w.isOver t = true) :
    w.pc < t.program.length := by
  simp only [isOver, Bool.or_eq_true, decide_eq_true_eq, not_or] at h
  omega

/-- The work that a step left for later, if it did. -/
def conclude (t : Terms) : Option Pending → Sheet → Outcome Sheet
  | none, s => .ok s
  | some p, s => p.settle t s

/-- A relation between the begin and the end of walks holds if it holds of walks that are over and
is handed back from the walk behind a step, through the work that the step left for later. -/
theorem run_induction {t : Terms} {R : Walk → Walk → Prop}
    (ended : ∀ w, w.isOver t = true → R w w)
    (step : ∀ w w' p v s, ¬ w.isOver t = true → step t w = .ok (w', p) → run t w' = .ok v →
      R w' v → conclude t p v.sheet = .ok s → R w { v with sheet := s })
    {w u : Walk} (h : run t w = .ok u) : R w u := by
  fun_induction run t w generalizing u with
  | case1 w hover => cases h; exact ended w hover
  | case2 w hover f hstep => cases h
  | case3 w hover w' hstep ih => exact step w w' none u u.sheet hover hstep h (ih h) rfl
  | case4 w hover w' p hstep ih =>
    obtain ⟨v, hv, h⟩ := Outcome.bind_eq_ok.1 h
    obtain ⟨s, hs, h⟩ := Outcome.bind_eq_ok.1 h
    cases h
    exact step w w' (some p) v s hover hstep hv (ih hv) hs

/-- The walk when it has done the work that a step left for later, if it did. -/
def close (t : Terms) (p : Option Pending) (w : Walk) : Outcome Walk := do
  return { w with sheet := ← conclude t p w.sheet }

/-- A walk that is not over takes a step, walks on, and then does the work that the step left. -/
theorem run_of_not_isOver {t : Terms} {w : Walk} (hover : ¬ w.isOver t = true) :
    run t w = step t w >>= fun s => run t s.1 >>= close t s.2 := by
  rw [run, if_neg hover]
  split
  · rename_i f hstep
    rw [hstep]
    rfl
  · rename_i w' hstep
    rw [hstep]
    show run t w' = run t w' >>= close t none
    cases run t w' <;> rfl
  · rename_i w' p hstep
    rw [hstep]
    rfl

theorem run_eq_ok {t : Terms} {w u : Walk} (hover : ¬ w.isOver t = true) (h : run t w = .ok u) :
    ∃ w' p v s, step t w = .ok (w', p) ∧ run t w' = .ok v ∧ conclude t p v.sheet = .ok s ∧
      u = { v with sheet := s } := by
  rw [run_of_not_isOver hover] at h
  obtain ⟨⟨w', p⟩, hstep, h⟩ := Outcome.bind_eq_ok.1 h
  obtain ⟨v, hv, h⟩ := Outcome.bind_eq_ok.1 h
  obtain ⟨s, hs, h⟩ := Outcome.bind_eq_ok.1 h
  cases h
  exact ⟨w', p, v, s, hstep, hv, hs, rfl⟩

/-! ### Steps of well-formed programs -/

variable {t : Terms}

theorem nextPlace_of_wellFormed (hw : WellFormed t.instructions t.program) {r : Record}
    (hr : r ∈ (Scan.of t.instructions t.program).records) {i : Instruction}
    (hi : r.parse = .ok i) :
    ∃ next, nextPlace t r i = .ok next ∧ next ∈ places t.instructions t.program := by
  unfold nextPlace
  cases hd : i.destination? t.query with
  | none => exact ⟨r.next, rfl, Scan.next_mem_boundaries hw.whole hr⟩
  | some target =>
    obtain ⟨hlt, hm⟩ := hw.jumps r hr i hi target (Instruction.target?_of_destination? hd)
    have hle := le_length_of_mem_places hm
    refine ⟨target, ?_, hm⟩
    dsimp only
    rw [if_neg (by omega)]

/-- A step at a record whose instruction and next place are known. -/
theorem step_of_record {w : Walk} {r : Record} {i : Instruction} {next : Nat}
    (hr : Record.decodeAt t.instructions t.program w.pc = .ok r) (hi : r.parse = .ok i)
    (hnext : nextPlace t r i = .ok next) :
    step t w = (do
      let e ← Effect.of t r.pc i w.sheet
      return (⟨next, r.pc, e.sheet⟩, e.pending)) := by
  unfold step
  rw [hr]
  show (r.parse >>= _) = _
  rw [hi]
  show (nextPlace t r i >>= _) = _
  rw [hnext]
  rfl

/-- **One step** of a walk that stands at a boundary: it meets the record there, whose instruction
has valid parameters, and all that can go wrong is the instruction's effect. -/
theorem step_of_wellFormed (hw : WellFormed t.instructions t.program) {w : Walk}
    (hpc : w.pc ∈ places t.instructions t.program) (hover : ¬ w.isOver t = true) :
    ∃ r ∈ (Scan.of t.instructions t.program).records, ∃ i next,
      r.pc = w.pc ∧ r.parse = .ok i ∧ i.opcode = r.opcode ∧ i.IsValid ∧
      nextPlace t r i = .ok next ∧ next ∈ places t.instructions t.program ∧
      step t w = (do
        let e ← Effect.of t r.pc i w.sheet
        return (⟨next, r.pc, e.sheet⟩, e.pending)) := by
  obtain ⟨r, hr, hrpc⟩ := exists_record_of_mem_places hpc (pc_lt_of_not_isOver hover)
  obtain ⟨i, hi⟩ := hw.parses r hr
  obtain ⟨next, hnext, hm⟩ := nextPlace_of_wellFormed hw hr hi
  obtain ⟨hop, hvalid⟩ := Instruction.parse_eq_ok hi
  have hdecode := Scan.decodeAt_of_mem_scan hr
  rw [hrpc] at hdecode
  exact ⟨r, hr, i, next, hrpc, hi, hop, hvalid, hnext, hm, step_of_record hdecode hi hnext⟩

theorem pc_mem_places_of_step (hw : WellFormed t.instructions t.program) {w w' : Walk}
    {p : Option Pending} (hpc : w.pc ∈ places t.instructions t.program)
    (hover : ¬ w.isOver t = true) (hstep : step t w = .ok (w', p)) :
    w'.pc ∈ places t.instructions t.program := by
  obtain ⟨r, -, i, next, -, -, -, -, -, hm, hs⟩ := step_of_wellFormed hw hpc hover
  rw [hs] at hstep
  obtain ⟨e, -, h⟩ := Outcome.bind_eq_ok.1 hstep
  cases h
  exact hm

theorem blameless_run (hw : WellFormed t.instructions t.program) {w : Walk}
    (hpc : w.pc ∈ places t.instructions t.program) : FailsWithin Blameless (run t w) := by
  fun_induction run t w with
  | case1 w hover => exact failsWithin_ok
  | case2 w hover f hstep =>
    obtain ⟨r, -, i, next, -, -, -, hvalid, -, -, hs⟩ := step_of_wellFormed hw hpc hover
    have hblame : FailsWithin Blameless (step t w) := by
      rw [hs]
      exact .bind ((Effect.ordinary_of t r.pc hvalid w.sheet).mono fun _ h => h.blameless)
        fun _ _ => failsWithin_pure
    exact failsWithin_error (hblame f hstep)
  | case3 w hover w' hstep ih => exact ih (pc_mem_places_of_step hw hpc hover hstep)
  | case4 w hover w' p hstep ih =>
    refine .bind (ih (pc_mem_places_of_step hw hpc hover hstep)) fun v _ => ?_
    exact .bind (Pending.blameless_settle t p v.sheet) fun _ _ => failsWithin_pure

theorem visited_subset (hw : WellFormed t.instructions t.program) {w : Walk}
    (hpc : w.pc ∈ places t.instructions t.program) :
    ∀ pc ∈ visited t w, ∃ r ∈ (Scan.of t.instructions t.program).records, r.pc = pc := by
  fun_induction visited t w with
  | case1 w hover => exact fun pc h => (List.not_mem_nil h).elim
  | case2 w hover f hstep =>
    intro pc h
    rw [List.mem_singleton.1 h]
    exact exists_record_of_mem_places hpc (pc_lt_of_not_isOver hover)
  | case3 w hover w' p hstep ih =>
    intro pc h
    rcases List.mem_cons.1 h with rfl | h
    · exact exists_record_of_mem_places hpc (pc_lt_of_not_isOver hover)
    · exact ih (pc_mem_places_of_step hw hpc hover hstep) pc h

/-! ### Walks from the start -/

/-- A walk from the start neither blames the program nor meets an instruction elsewhere than where
the scan of the program finds a record. -/
structure KeepsTo (t : Terms) (s : Sheet) : Prop where
  blameless : FailsWithin Blameless (through t 0 s)
  visited : ∀ pc ∈ visited t ⟨0, 0, s⟩, ∃ r ∈ (Scan.of t.instructions t.program).records, r.pc = pc

theorem through_zero (t : Terms) (s : Sheet) : through t 0 s = run t ⟨0, 0, s⟩ :=
  if_pos ⟨Int.le_refl 0, Int.natCast_nonneg _⟩

/-- The program has been found valid, by itself or when an order with it was registered at an engine
with the same instructions. -/
def IsAccepted (set : InstructionSet) (program : Bytes) : Prop :=
  (∃ records, validate set program = .ok records) ∨
    ∃ (e : Engine) (o : Order) (hash : String), (e.register o).1.outcome = .ok hash ∧
      e.instructions = set ∧ o.program = program

theorem wellFormed_of_register {e : Engine} {o : Order} {hash : String}
    (h : (e.register o).1.outcome = .ok hash) : WellFormed e.instructions o.program := by
  unfold Engine.register at h
  cases hx : e.examine o with
  | error f => rw [hx] at h; cases h
  | ok swapPc =>
    obtain ⟨_, -, hx⟩ := Outcome.bind_eq_ok.1 hx
    obtain ⟨records, hv, -⟩ := Outcome.bind_eq_ok.1 hx
    exact (validate_eq_ok_iff.1 hv).2

theorem wellFormed_of_isAccepted {set : InstructionSet} {program : Bytes}
    (h : IsAccepted set program) : WellFormed set program := by
  rcases h with ⟨records, hv⟩ | ⟨e, o, hash, hreg, rfl, rfl⟩
  · exact (validate_eq_ok_iff.1 hv).2
  · exact wellFormed_of_register hreg

/-- **Valid programs are walked safely**: whatever the query, the sheet, the time, the outside
parties and the mode are, no record is found malformed, unknown, badly aimed or badly filled in
during the walk, and the walk meets instructions at boundaries only. -/
theorem keepsTo_of_valid (t : Terms) (s : Sheet) (h : IsAccepted t.instructions t.program) :
    KeepsTo t s := by
  have hw := wellFormed_of_isAccepted h
  have h0 : 0 ∈ places t.instructions t.program := Scan.zero_mem_boundaries hw.whole
  refine ⟨?_, visited_subset hw h0⟩
  rw [through_zero]
  exact blameless_run hw h0

/-- A jump over a blank record to a fee of 30 basis points, and a swap. -/
def jumpFeeSwap : Bytes :=
  [0x01, 2, 0, 6, 0x08, 0, 0x20, 2, 0, 30, 0x30, 8, 0x0d, 0xe0, 0xb6, 0xb3, 0xa7, 0x64, 0, 0]

theorem validate_jumpFeeSwap :
    validate .standard jumpFeeSwap = .ok (Scan.of .standard jumpFeeSwap).records := by
  have h : (validate .standard jumpFeeSwap).toOption =
      some (Scan.of .standard jumpFeeSwap).records := by
    decide +kernel
  exact Outcome.eq_ok_of_toOption h

/-- The terms of a walk of `jumpFeeSwap` without outside parties. -/
def jumpFeeSwapTerms : Terms :=
  ⟨jumpFeeSwap, .standard, ⟨"", "", "", "a", "b", true⟩, 0, none, .empty, {}, false⟩

/-- A walk for an input of 7 on balances of 1000 each. -/
theorem keepsTo_jumpFeeSwap :
    IsAccepted .standard jumpFeeSwap ∧
      KeepsTo jumpFeeSwapTerms (.start ⟨1000, 1000, 7, 0⟩ (Store.empty.overlay "")) :=
  ⟨Or.inl ⟨_, validate_jumpFeeSwap⟩,
    keepsTo_of_valid jumpFeeSwapTerms _ (Or.inl ⟨_, validate_jumpFeeSwap⟩)⟩

end Walk

end SwapMachine
