import Mathlib.Data.List.Perm.Subperm
import SwapMachine.Proofs.Frame

/-!
# SwapMachine.Proofs.Reentry — the loop that wrapping instructions enter again

A walk can be read in a second way, with one place and one sheet that all loops share: a wrapping
instruction enters the loop again to run the rest of the program, does its later work on what that
loop has left behind, and the loop that met the instruction goes on from there.

* `Loops t w es x`: the loop that is entered at a walk comes out with `x`, and `es` are the events on
  the way, those of inner loops among them.
* `Loops.unique`, `loops_run`: every loop comes out, in one way only, and it does so as `run` says.
* `orderly_through`: places are met in rising order and each at most once, no loop has anything left
  to meet once an inner one has come back, and later work is done once for each wrapping
  instruction, the latest first.
-/

namespace SwapMachine

/-- The operation acts around all that comes behind it. -/
def Opcode.wraps : Opcode → Bool
  | dynamicBalances | decay | concentrate | flatFeeIn | flatFeeOut | dynamicFeeIn => true
  | _ => false

namespace Walk

variable {t : Terms} {w w' u v : Walk}

/-! ### Loops inside loops -/

/-- What happens on a walk: an instruction is met at a place, or the loop that the instruction at a
place has entered comes back, which is when the later work of the instruction begins. -/
inductive Event where
  | met (pc : Nat)
  | returned (pc : Nat) (back : Walk)

/-- The event is that an instruction is met. -/
def Event.isMeeting : Event → Bool
  | met _ => true
  | returned .. => false

/-- The places at which instructions are met, in turn. -/
def meetings (es : List Event) : List Nat :=
  es.filterMap fun
    | .met pc => some pc
    | .returned .. => none

/-- The places of the instructions whose later work begins, in turn. -/
def returns (es : List Event) : List Nat :=
  es.filterMap fun
    | .met _ => none
    | .returned pc _ => some pc

/-- The loop that is entered at a walk comes out with a walk or a fault, after some events. -/
inductive Loops (t : Terms) : Walk → List Event → Outcome Walk → Prop where
  /-- There is nothing to meet. -/
  | ended {w : Walk} (ended : w.isOver t = true) : Loops t w [] (.ok w)
  /-- An instruction fails before it enters a loop. -/
  | failed {w : Walk} {f : Fault} (going : ¬ w.isOver t = true) (step : step t w = .error f) :
      Loops t w [.met w.pc] (.error f)
  /-- An instruction that does not wrap acts, and the loop goes on. -/
  | plain {w w' : Walk} {es : List Event} {x : Outcome Walk} (going : ¬ w.isOver t = true)
      (step : step t w = .ok (w', none)) (rest : Loops t w' es x) :
      Loops t w (.met w.pc :: es) x
  /-- The loop that an instruction enters fails. -/
  | cut {w w' : Walk} {p : Pending} {es : List Event} {f : Fault} (going : ¬ w.isOver t = true)
      (step : step t w = .ok (w', some p)) (inner : Loops t w' es (.error f)) :
      Loops t w (.met w.pc :: es) (.error f)
  /-- The loop that an instruction enters comes back, and the later work fails. -/
  | spoilt {w w' v : Walk} {p : Pending} {es : List Event} {f : Fault}
      (going : ¬ w.isOver t = true) (step : step t w = .ok (w', some p))
      (inner : Loops t w' es (.ok v)) (work : settle t p v = .error f) :
      Loops t w (.met w.pc :: es ++ [.returned w.pc v]) (.error f)
  /-- The loop that an instruction enters comes back, the later work is done, and the loop goes on
  from where that leaves the walk. -/
  | resumed {w w' v v' : Walk} {p : Pending} {es rest : List Event} {x : Outcome Walk}
      (going : ¬ w.isOver t = true) (step : step t w = .ok (w', some p))
      (inner : Loops t w' es (.ok v)) (work : settle t p v = .ok v')
      (outer : Loops t v' rest x) :
      Loops t w (.met w.pc :: es ++ .returned w.pc v :: rest) x

/-! ### Every loop comes out, in one way -/

/-- A loop that has nothing to meet comes out at once. -/
theorem Loops.of_isOver {es : List Event} {x : Outcome Walk} (hover : w.isOver t = true)
    (h : Loops t w es x) : es = [] ∧ x = .ok w := by
  cases h with
  | ended => exact ⟨rfl, rfl⟩
  | failed going | plain going | cut going | spoilt going | resumed going =>
    exact absurd hover going

/-- Every loop comes out, with what `run` says. -/
theorem loops_run (t : Terms) (w : Walk) : ∃ es, Loops t w es (run t w) := by
  fun_induction run t w with
  | case1 w hover => exact ⟨[], .ended hover⟩
  | case2 w hover f hstep => exact ⟨_, .failed hover hstep⟩
  | case3 w hover w' hstep ih =>
    obtain ⟨es, hes⟩ := ih
    exact ⟨_, .plain hover hstep hes⟩
  | case4 w hover w' p hstep ih =>
    obtain ⟨es, hes⟩ := ih
    cases hv : run t w' with
    | error f =>
      rw [hv] at hes
      exact ⟨_, .cut hover hstep hes⟩
    | ok v =>
      rw [hv] at hes
      show ∃ es, Loops t w es (settle t p v)
      cases hwork : settle t p v with
      | error f => exact ⟨_, .spoilt hover hstep hes hwork⟩
      | ok v' =>
        have hover' : v'.isOver t = true := (isOver_of_settle hwork).trans (isOver_of_run hv)
        exact ⟨_, .resumed hover hstep hes hwork (.ended hover')⟩

/-- A loop comes out in one way only. -/
theorem Loops.unique {es es' : List Event} {x x' : Outcome Walk} (h : Loops t w es x)
    (h' : Loops t w es' x') : es' = es ∧ x' = x := by
  induction h generalizing es' x' with
  | ended hover => exact h'.of_isOver hover
  | failed hover hstep =>
    cases h' with
    | ended hover' => exact absurd hover' hover
    | failed _ hstep' =>
      cases hstep.symm.trans hstep'
      exact ⟨rfl, rfl⟩
    | plain _ hstep' | cut _ hstep' | spoilt _ hstep' | resumed _ hstep' =>
      cases hstep.symm.trans hstep'
  | plain hover hstep _ ih =>
    cases h' with
    | ended hover' => exact absurd hover' hover
    | plain _ hstep' rest =>
      cases hstep.symm.trans hstep'
      obtain ⟨rfl, rfl⟩ := ih rest
      exact ⟨rfl, rfl⟩
    | failed _ hstep' | cut _ hstep' | spoilt _ hstep' | resumed _ hstep' =>
      cases hstep.symm.trans hstep'
  | cut hover hstep _ ih =>
    cases h' with
    | ended hover' => exact absurd hover' hover
    | failed _ hstep' | plain _ hstep' => cases hstep.symm.trans hstep'
    | cut _ hstep' inner =>
      cases hstep.symm.trans hstep'
      obtain ⟨rfl, hx⟩ := ih inner
      exact ⟨rfl, hx⟩
    | spoilt _ hstep' inner | resumed _ hstep' inner =>
      cases hstep.symm.trans hstep'
      cases (ih inner).2
  | spoilt hover hstep _ hwork ih =>
    cases h' with
    | ended hover' => exact absurd hover' hover
    | failed _ hstep' | plain _ hstep' => cases hstep.symm.trans hstep'
    | cut _ hstep' inner =>
      cases hstep.symm.trans hstep'
      cases (ih inner).2
    | spoilt _ hstep' inner hwork' =>
      cases hstep.symm.trans hstep'
      obtain ⟨rfl, hv⟩ := ih inner
      cases hv
      cases hwork.symm.trans hwork'
      exact ⟨rfl, rfl⟩
    | resumed _ hstep' inner hwork' =>
      cases hstep.symm.trans hstep'
      cases (ih inner).2
      cases hwork.symm.trans hwork'
  | resumed hover hstep _ hwork _ ih ihouter =>
    cases h' with
    | ended hover' => exact absurd hover' hover
    | failed _ hstep' | plain _ hstep' => cases hstep.symm.trans hstep'
    | cut _ hstep' inner =>
      cases hstep.symm.trans hstep'
      cases (ih inner).2
    | spoilt _ hstep' inner hwork' =>
      cases hstep.symm.trans hstep'
      cases (ih inner).2
      cases hwork.symm.trans hwork'
    | resumed _ hstep' inner hwork' outer =>
      cases hstep.symm.trans hstep'
      obtain ⟨rfl, hv⟩ := ih inner
      cases hv
      cases hwork.symm.trans hwork'
      obtain ⟨rfl, rfl⟩ := ihouter outer
      exact ⟨rfl, rfl⟩

theorem Loops.eq_run {es : List Event} {x : Outcome Walk} (h : Loops t w es x) : x = run t w := by
  obtain ⟨es', h'⟩ := loops_run t w
  exact (h'.unique h).2

/-! ### What instructions wrap, and what swaps -/

/-- The record at a place, if one is there, has an operation of the given kind. -/
def isAt (t : Terms) (kind : Opcode → Bool) (pc : Nat) : Bool :=
  match Record.decodeAt t.instructions t.program pc with
  | .ok r => kind r.opcode
  | .error _ => false

/-- Work is left for later by the operations that wrap, and by no others. -/
theorem Acted.isSome_pending {pc : Nat} {i : Instruction} {s : Sheet} {e : Effect}
    (h : Acted t pc i s e) : e.pending.isSome = i.opcode.wraps := by
  cases h with
  | quiet quiet => cases i <;> first | rfl | cases quiet
  | netIn _ asked | grossIn _ asked => cases i <;> first | rfl | cases asked
  | output _ given => cases i <;> first | rfl | cases given
  | input _ asked => cases i <;> first | rfl | cases asked
  | _ => rfl

theorem isAt_wraps_of_step {p : Option Pending} (h : step t w = .ok (w', p)) :
    isAt t Opcode.wraps w.pc = p.isSome := by
  obtain ⟨r, i, e, hr, hi, -, hacted, -, rfl⟩ := acted_of_step h
  rw [hacted.isSome_pending, (Instruction.parse_eq_ok hi).1, isAt, hr]

/-- A walk that is to stop at a swap is over behind it. -/
theorem isOver_of_step_of_swap {p : Option Pending} (h : step t w = .ok (w', p))
    (hstop : t.stopAtSwap = true) (hswap : isAt t Opcode.isSwap w.pc = true) :
    w'.isOver t = true := by
  obtain ⟨r, i, e, hr, hi, -, hacted, hsheet, -⟩ := acted_of_step h
  rw [isAt, hr] at hswap
  have hhalted : e.sheet.isHalted = true := by
    obtain ⟨hout, hin⟩ := hacted.swap ((Instruction.parse_eq_ok hi).1 ▸ hswap)
    cases hx : t.query.isExactIn with
    | true =>
      obtain ⟨_, -, rfl⟩ := hout hx
      simp only [Effect.now, Sheet.swapped, hstop, Bool.or_true]
    | false =>
      obtain ⟨_, _, -, rfl⟩ := hin hx
      simp only [Effect.now, Sheet.swapped, hstop, Bool.or_true]
  rw [isOver, hsheet, hhalted, Bool.or_true]

/-! ### The places that a walk comes to -/

theorem visited_of_isOver (hover : w.isOver t = true) : visited t w = [] := by
  rw [visited, if_pos hover]

theorem visited_of_error {f : Fault} (hover : ¬ w.isOver t = true) (hstep : step t w = .error f) :
    visited t w = [w.pc] := by
  rw [visited, if_neg hover]
  split
  · rfl
  · rename_i hstep'
    cases hstep.symm.trans hstep'

theorem visited_of_step {p : Option Pending} (hover : ¬ w.isOver t = true)
    (hstep : step t w = .ok (w', p)) : visited t w = w.pc :: visited t w' := by
  rw [visited, if_neg hover]
  split
  · rename_i hstep'
    cases hstep.symm.trans hstep'
  · rename_i hstep'
    cases hstep.symm.trans hstep'
    rfl

theorem mem_visited_range {t : Terms} {w : Walk} {pc : Nat} (h : pc ∈ visited t w) :
    w.pc ≤ pc ∧ pc < t.program.length := by
  fun_induction visited t w with
  | case1 w hover => exact absurd h List.not_mem_nil
  | case2 w hover f hstep =>
    cases List.mem_singleton.1 h
    exact ⟨Nat.le_refl _, pc_lt_of_not_isOver hover⟩
  | case3 w hover w' p hstep ih =>
    rcases List.mem_cons.1 h with rfl | h
    · exact ⟨Nat.le_refl _, pc_lt_of_not_isOver hover⟩
    · exact ⟨Nat.le_trans (Nat.le_of_lt (pc_lt_of_step hstep)) (ih h).1, (ih h).2⟩

theorem visited_ascending (t : Terms) (w : Walk) : (visited t w).Pairwise (· < ·) := by
  fun_induction visited t w with
  | case1 w hover => exact .nil
  | case2 w hover f hstep => exact List.pairwise_singleton _ _
  | case3 w hover w' p hstep ih =>
    exact .cons (fun pc h => Nat.lt_of_lt_of_le (pc_lt_of_step hstep) (mem_visited_range h).1) ih

/-- A walk that is to stop at a swap comes to nothing behind the first. -/
theorem visited_of_swap {t : Terms} {w : Walk} {pc : Nat} (hstop : t.stopAtSwap = true)
    (h : pc ∈ visited t w) (hswap : isAt t Opcode.isSwap pc = true) :
    ∃ before, visited t w = before ++ [pc] := by
  fun_induction visited t w with
  | case1 w hover => exact absurd h List.not_mem_nil
  | case2 w hover f hstep =>
    cases List.mem_singleton.1 h
    exact ⟨[], rfl⟩
  | case3 w hover w' p hstep ih =>
    rcases List.mem_cons.1 h with rfl | h
    · exact ⟨[], by rw [visited_of_isOver (isOver_of_step_of_swap hstep hstop hswap)]; rfl⟩
    · obtain ⟨before, hbefore⟩ := ih h
      exact ⟨w.pc :: before, by rw [hbefore]; rfl⟩

/-! ### Where a walk stands at its end -/

/-- No more instructions can be met: the walk is at the end of the program or has been halted. -/
def IsDone (t : Terms) (w : Walk) : Prop := w.pc = t.program.length ∨ w.sheet.isHalted = true

theorem pc_le_of_step {p : Option Pending} (h : step t w = .ok (w', p)) :
    w'.pc ≤ t.program.length := by
  obtain ⟨r, i, e, hr, -, hnext, -⟩ := acted_of_step h
  have hle := (Record.decodeAt_eq_ok hr).2
  unfold nextPlace at hnext
  split at hnext
  · exact Except.ok.inj hnext ▸ hle
  · split at hnext
    · cases hnext
    · have := Except.ok.inj hnext
      omega

theorem pc_le_of_run (hpc : w.pc ≤ t.program.length) (h : run t w = .ok u) :
    u.pc ≤ t.program.length :=
  run_induction (R := fun w u => w.pc ≤ t.program.length → u.pc ≤ t.program.length)
    (fun _ _ h => h) (fun _ _ _ _ _ _ hstep _ ih _ _ => ih (pc_le_of_step hstep)) h hpc

theorem isDone_of_run (hpc : w.pc ≤ t.program.length) (h : run t w = .ok u) : IsDone t u := by
  have hover := isOver_of_run h
  have hle := pc_le_of_run hpc h
  simp only [isOver, Bool.or_eq_true, decide_eq_true_eq] at hover
  exact hover.imp (fun hge => Nat.le_antisymm hle hge) id

/-! ### Two phases -/

/-- The instructions that wrap, of those that a walk comes to. -/
def wrappers (t : Terms) (w : Walk) : List Nat := (visited t w).filter (isAt t Opcode.wraps)

theorem wrappers_of_step {p : Option Pending} (hover : ¬ w.isOver t = true)
    (hstep : step t w = .ok (w', p)) :
    wrappers t w = if p.isSome then w.pc :: wrappers t w' else wrappers t w' := by
  rw [wrappers, visited_of_step hover hstep, List.filter_cons, isAt_wraps_of_step hstep]
  rfl

/-- A return from the loop that the instruction at a place has entered. -/
def Event.back (b : Nat × Walk) : Event := .returned b.1 b.2

/-- The events of a loop are those of a flat walk, and then returns: all loops that come back do so
when nothing is left to be met, the innermost first. -/
structure Phases (t : Terms) (w : Walk) (es : List Event) (x : Outcome Walk)
    (backs : List (Nat × Walk)) : Prop where
  events : es = (visited t w).map .met ++ backs.map Event.back
  done : ∀ b ∈ backs, IsDone t b.2
  unwound : backs.map Prod.fst <+: (wrappers t w).reverse
  whole : ∀ u, x = .ok u → backs.map Prod.fst = (wrappers t w).reverse

/-- One return more, when the loop that an instruction has entered comes back. -/
theorem Phases.back {es : List Event} {backs : List (Nat × Walk)} {p : Pending}
    (h : Phases t w' es (.ok v) backs) (hover : ¬ w.isOver t = true)
    (hstep : step t w = .ok (w', some p)) (hv : IsDone t v) (x : Outcome Walk) :
    Phases t w (.met w.pc :: es ++ [.returned w.pc v]) x (backs ++ [(w.pc, v)]) := by
  have hall : (backs ++ [(w.pc, v)]).map Prod.fst = (wrappers t w).reverse := by
    rw [List.map_append, h.whole v rfl, wrappers_of_step hover hstep]
    exact List.reverse_cons.symm
  refine ⟨?_, fun b hb => ?_, hall ▸ List.prefix_rfl, fun _ _ => hall⟩
  · rw [visited_of_step hover hstep, h.events, List.map_append, List.map_cons, List.cons_append,
      List.cons_append, List.append_assoc]
    rfl
  · rcases List.mem_append.1 hb with hb | hb
    · exact h.done b hb
    · rw [List.mem_singleton.1 hb]
      exact hv

theorem Loops.phases {es : List Event} {x : Outcome Walk} (h : Loops t w es x)
    (hpc : w.pc ≤ t.program.length) : ∃ backs, Phases t w es x backs := by
  induction h with
  | @ended w hover =>
    have hnil := visited_of_isOver hover
    refine ⟨[], ⟨?_, by simp, List.nil_prefix, fun _ _ => ?_⟩⟩
    · rw [hnil]; rfl
    · rw [wrappers, hnil]; rfl
  | @failed w f hover hstep =>
    refine ⟨[], ⟨?_, by simp, List.nil_prefix, fun _ h => nomatch h⟩⟩
    rw [visited_of_error hover hstep]; rfl
  | @plain w w' es x hover hstep _ ih =>
    obtain ⟨backs, hb⟩ := ih (pc_le_of_step hstep)
    have hwraps : wrappers t w = wrappers t w' := wrappers_of_step hover hstep
    refine ⟨backs, ⟨?_, hb.done, hwraps ▸ hb.unwound, hwraps ▸ hb.whole⟩⟩
    rw [visited_of_step hover hstep, hb.events]; rfl
  | @cut w w' p es f hover hstep _ ih =>
    obtain ⟨backs, hb⟩ := ih (pc_le_of_step hstep)
    have hwraps : wrappers t w = w.pc :: wrappers t w' := wrappers_of_step hover hstep
    refine ⟨backs, ⟨?_, hb.done, ?_, fun _ h => nomatch h⟩⟩
    · rw [visited_of_step hover hstep, hb.events]; rfl
    · rw [hwraps, List.reverse_cons]
      exact hb.unwound.trans (List.prefix_append _ _)
  | @spoilt w w' v p es f hover hstep inner _ ih =>
    obtain ⟨backs, hb⟩ := ih (pc_le_of_step hstep)
    have hv := isDone_of_run (pc_le_of_step hstep) inner.eq_run.symm
    exact ⟨_, hb.back hover hstep hv _⟩
  | @resumed w w' v v' p es rest x hover hstep inner hwork outer ih =>
    obtain ⟨backs, hb⟩ := ih (pc_le_of_step hstep)
    have hrun := inner.eq_run.symm
    -- the loop that met the instruction finds nothing more to meet
    obtain ⟨rfl, rfl⟩ := outer.of_isOver ((isOver_of_settle hwork).trans (isOver_of_run hrun))
    exact ⟨_, hb.back hover hstep (isDone_of_run (pc_le_of_step hstep) hrun) _⟩

/-! ### How loops go -/

theorem meetings_events (pcs : List Nat) (backs : List (Nat × Walk)) :
    meetings (pcs.map .met ++ backs.map Event.back) = pcs := by
  simp [meetings, List.filterMap_map, Function.comp_def, Event.back]

theorem returns_events (pcs : List Nat) (backs : List (Nat × Walk)) :
    returns (pcs.map .met ++ backs.map Event.back) = backs.map Prod.fst := by
  simp [returns, List.filterMap_map, Function.comp_def, Event.back, List.filterMap_eq_map']

/-- A list of records that a scan finds takes up two bytes for each. -/
theorem two_mul_length_le (set : InstructionSet) (program : Bytes) (pc : Nat) :
    2 * (Scan.suffix set pc (program.drop pc)).records.length ≤ program.length - pc := by
  induction hn : program.length - pc using Nat.strongRecOn generalizing pc with
  | ind n ih =>
    obtain ⟨-, hs⟩ | ⟨f, hs⟩ | ⟨r, hr, hle, -, hs⟩ := Scan.suffix_drop_cases set program pc
    · rw [hs]; exact Nat.zero_le _
    · rw [hs]; exact Nat.zero_le _
    · simp only [Record.next, Record.headerSize] at hle
      have hrest := ih (program.length - r.next)
        (by simp only [Record.next, Record.headerSize]; omega) r.next rfl
      rw [hs, List.length_cons]
      simp only [Record.next, Record.headerSize] at hrest ⊢
      omega

/-- A walk of a valid program from the start meets an instruction for two bytes at most. -/
theorem two_mul_visited_le {s : Sheet} (h : Program.WellFormed t.instructions t.program) :
    2 * (visited t ⟨0, 0, s⟩).length ≤ t.program.length := by
  have hsub := visited_subset h (w := ⟨0, 0, s⟩) (Scan.zero_mem_boundaries h.whole)
  have hnodup : (visited t ⟨0, 0, s⟩).Nodup := (visited_ascending t _).imp Nat.ne_of_lt
  have hle := (hnodup.subperm fun pc hpc => List.mem_map.2 (hsub pc hpc)).length_le
  have htwo := two_mul_length_le t.instructions t.program 0
  rw [List.length_map] at hle
  rw [List.drop_zero] at htwo
  unfold Scan.of at hle
  omega

/-- How a walk goes from a place on, of which the events and the outcome are given. -/
structure Orderly (t : Terms) (start : Nat) (es : List Event) (x : Outcome Walk) : Prop where
  /-- Places are met in rising order, so that none is met twice. -/
  ascending : (meetings es).Pairwise (· < ·)
  /-- They lie in the program, at the start or ahead of it. -/
  inRange : ∀ pc ∈ meetings es, start ≤ pc ∧ pc < t.program.length
  /-- Nothing is met once a loop has come back. -/
  phases : es.Pairwise fun e e' => e'.isMeeting = true → e.isMeeting = true
  /-- A loop that comes back has come to the end of the program or has been halted. -/
  done : ∀ pc back, .returned pc back ∈ es → IsDone t back
  /-- Later work begins for the wrapping instructions that were met, the latest first. -/
  unwound : returns es <+: ((meetings es).filter (isAt t Opcode.wraps)).reverse
  /-- A walk that does not fail comes to all of it, once for each of them. -/
  whole : ∀ u, x = .ok u → returns es = ((meetings es).filter (isAt t Opcode.wraps)).reverse
  /-- If the walk is to stop at the first swap, nothing is met behind one. -/
  stopped : t.stopAtSwap = true → ∀ pc ∈ meetings es, isAt t Opcode.isSwap pc = true →
    ∃ before, meetings es = before ++ [pc]
  /-- A valid program has two bytes for each instruction that is met from its start on. -/
  bounded : start = 0 → (∃ records, Program.validate t.instructions t.program = .ok records) →
    2 * (meetings es).length ≤ t.program.length

theorem orderly_of_phases {start : Nat} {s : Sheet} {es : List Event} {x : Outcome Walk}
    {backs : List (Nat × Walk)} (h : Phases t ⟨start, 0, s⟩ es x backs) :
    Orderly t start es x := by
  have hmet : meetings es = visited t ⟨start, 0, s⟩ := h.events ▸ meetings_events _ _
  have hback : returns es = backs.map Prod.fst := h.events ▸ returns_events _ _
  refine
    { ascending := hmet ▸ visited_ascending t _
      inRange := fun pc hpc => mem_visited_range (hmet ▸ hpc)
      phases := ?_
      done := fun pc back hpc => ?_
      unwound := hback ▸ hmet ▸ h.unwound
      whole := fun u hu => hback ▸ hmet ▸ h.whole u hu
      stopped := fun hstop pc hpc hswap => hmet ▸ visited_of_swap hstop (hmet ▸ hpc) hswap
      bounded := fun hstart ⟨records, hv⟩ => ?_ }
  · rw [h.events, List.pairwise_append]
    refine ⟨List.pairwise_map.2 (List.pairwise_of_forall fun _ _ _ => rfl),
      List.pairwise_map.2 (List.pairwise_of_forall fun _ _ hmet => hmet), ?_⟩
    intro e he e' _ _
    obtain ⟨_, -, rfl⟩ := List.mem_map.1 he
    rfl
  · rw [h.events] at hpc
    rcases List.mem_append.1 hpc with hpc | hpc
    · obtain ⟨_, -, hb⟩ := List.mem_map.1 hpc
      cases hb
    · obtain ⟨b, hb, heq⟩ := List.mem_map.1 hpc
      cases heq
      exact h.done b hb
  · subst hstart
    rw [hmet]
    exact two_mul_visited_le (Program.validate_eq_ok_iff.1 hv).2

/-- **Every walk ends, and in order**: whatever the program, the terms and the sheet are, the loop
that is entered at a place of the program comes out, in one way only, and it goes as `Orderly` says
through all the loops that instructions enter on the way. -/
theorem orderly_through (t : Terms) (start : Int) (s : Sheet)
    (h : 0 ≤ start ∧ start ≤ t.program.length) :
    ∃ es, Orderly t start.toNat es (through t start s) ∧
      ∀ es' x, Loops t ⟨start.toNat, 0, s⟩ es' x ↔ es' = es ∧ x = through t start s := by
  have hrun : through t start s = run t ⟨start.toNat, 0, s⟩ := if_pos h
  obtain ⟨es, hes⟩ := loops_run t ⟨start.toNat, 0, s⟩
  obtain ⟨backs, hb⟩ := hes.phases (by show start.toNat ≤ _; omega)
  rw [hrun]
  refine ⟨es, orderly_of_phases hb, fun es' x => ⟨hes.unique, ?_⟩⟩
  rintro ⟨rfl, rfl⟩
  exact hes

/-- The sheet for an input of 7 on balances of 1000 each. -/
def jumpFeeSwapSheet : Sheet := .start ⟨1000, 1000, 7, 0⟩ (Store.empty.overlay "")

/-- The walk of `jumpFeeSwap` from its start. -/
theorem orderly_jumpFeeSwap :
    ((0 : Int) ≤ 0 ∧ (0 : Int) ≤ jumpFeeSwap.length) ∧
      ∃ es, Orderly jumpFeeSwapTerms 0 es
          (through jumpFeeSwapTerms 0 jumpFeeSwapSheet) ∧
        ∀ es' x, Loops jumpFeeSwapTerms ⟨0, 0, jumpFeeSwapSheet⟩ es' x ↔
          es' = es ∧ x = through jumpFeeSwapTerms 0 jumpFeeSwapSheet :=
  have h : (0 : Int) ≤ 0 ∧ (0 : Int) ≤ jumpFeeSwapTerms.program.length :=
    ⟨Int.le_refl 0, Int.natCast_nonneg _⟩
  ⟨h, orderly_through jumpFeeSwapTerms 0 _ h⟩

/-- The blank record at place 4 is jumped over. -/
example : visited jumpFeeSwapTerms ⟨0, 0, jumpFeeSwapSheet⟩ = [0, 6, 10] := by
  decide +kernel

end Walk

end SwapMachine
