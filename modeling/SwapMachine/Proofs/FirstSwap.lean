import SwapMachine.Proofs.Course

/-!
# SwapMachine.Proofs.FirstSwap — the first swap of a program and the first swap of a walk

A scan finds the first swap of a program without running anything; a walk remembers the first swap
that it comes to.  A walk can jump over swaps but meets no others than the scan finds, so it never
remembers one in front of the first of the program.

* `Scan.ascending`: records stand one behind another, so the first swap found stands foremost.
* `Reaches t w v`: all that a walk comes to on its way, however it ends.
* `Walk.Marked`: a swap that is remembered is a swap of the program, and a trade that has been
  computed comes with one.
* `Foretells`, `foretells_of_valid`: what the scan tells about the walks of a valid program.
-/

namespace SwapMachine

namespace Scan

variable {set : InstructionSet} {program : Bytes} {r r' : Record}

theorem suffix_ascending (set : InstructionSet) (program : Bytes) (pc : Nat) :
    (suffix set pc (program.drop pc)).records.Pairwise fun r r' => r.next ≤ r'.pc := by
  induction hn : program.length - pc using Nat.strongRecOn generalizing pc with
  | ind n ih =>
    obtain ⟨-, hs⟩ | ⟨f, hs⟩ | ⟨q, hq, hle, -, hs⟩ := suffix_drop_cases set program pc
    · rw [hs]; exact .nil
    · rw [hs]; exact .nil
    · have hlt : program.length - q.next < n := by
        simp only [Record.next, Record.headerSize] at hle ⊢
        omega
      rw [hs]
      exact .cons (fun r' hr' => (decodeAt_of_mem_suffix hr').1) (ih _ hlt q.next rfl)

/-- The records of a scan stand one behind another. -/
theorem ascending (set : InstructionSet) (program : Bytes) :
    (Scan.of set program).records.Pairwise fun r r' => r.next ≤ r'.pc := by
  have h := suffix_ascending set program 0
  rwa [List.drop_zero] at h

/-- A record that stands in front of another one ends in front of it. -/
theorem next_le_pc (hr : r ∈ (Scan.of set program).records)
    (hr' : r' ∈ (Scan.of set program).records) (h : r.pc < r'.pc) : r.next ≤ r'.pc := by
  let Clear (q q' : Record) : Prop := q.pc < q'.pc → q.next ≤ q'.pc
  have hahead : (Scan.of set program).records.Pairwise Clear :=
    (ascending set program).imp (S := Clear) fun hle _ => hle
  have hbehind : (Scan.of set program).records.Pairwise (flip Clear) := by
    refine (ascending set program).imp fun {q q'} hle hlt => ?_
    simp only [Record.next, Record.headerSize] at hle
    omega
  have hself : ∀ q ∈ (Scan.of set program).records, Clear q q :=
    fun q _ hlt => absurd hlt (Nat.lt_irrefl _)
  exact hahead.forall_of_forall_of_flip hself hbehind hr hr' h

end Scan

namespace Program

variable {set : InstructionSet} {program : Bytes}

/-- The place that is found is that of the foremost swap. -/
theorem swapPoint_eq_ok {q : Nat} (h : swapPoint set program = .ok q) :
    ∃ r ∈ (Scan.of set program).records, r.pc = q ∧ r.opcode.isSwap = true ∧
      ∀ r' ∈ (Scan.of set program).records, r'.opcode.isSwap = true → q ≤ r'.pc := by
  unfold swapPoint at h
  dsimp only at h
  split at h
  · next r hfind =>
    cases h
    obtain ⟨hswap, before, behind, hsplit, hbefore⟩ := List.find?_eq_some_iff_append.1 hfind
    have hpairs := Scan.ascending set program
    rw [hsplit] at hpairs ⊢
    refine ⟨r, by simp, rfl, hswap, fun r' hr' hswap' => ?_⟩
    rcases List.mem_append.1 hr' with hr' | hr'
    · have := hbefore r' hr'
      rw [hswap'] at this
      cases this
    · rcases List.mem_cons.1 hr' with rfl | hr'
      · exact Nat.le_refl _
      · have hle := (List.pairwise_cons.1 (List.pairwise_append.1 hpairs).2.1).1 r' hr'
        simp only [Record.next] at hle
        omega
  · split at h <;> cases h

/-- Where no place is found, none of the records is a swap. -/
theorem isSwap_of_swapPoint_eq_error {f : Fault} (h : swapPoint set program = .error f) :
    ∀ r ∈ (Scan.of set program).records, r.opcode.isSwap = false := by
  intro r hr
  unfold swapPoint at h
  dsimp only at h
  split at h
  · cases h
  · next hnone => exact Bool.not_eq_true _ ▸ List.find?_eq_none.1 hnone r hr

/-- In a program without malformation the only cause for finding no place is that there is none. -/
theorem fault_of_swapPoint (hw : WellFormed set program) {f : Fault}
    (h : swapPoint set program = .error f) : f = .program .noSwap := by
  unfold swapPoint at h
  dsimp only at h
  rw [hw.whole] at h
  split at h
  · cases h
  · exact (Except.error.inj h).symm

/-- No record in front of a place may move a walk. -/
def IsStraightTo (set : InstructionSet) (program : Bytes) (q : Nat) : Prop :=
  ∀ r ∈ (Scan.of set program).records, r.pc < q → ∀ i, r.parse = .ok i → i.target? = none

end Program

namespace Walk

open Program

variable {t : Terms} {w w' u v : Walk} {p : Option Pending}

/-! ### What a walk comes to -/

/-- On its way a walk comes to another one: behind a step, or when work has been done that a step
has left for later.  It does so also if it fails farther on. -/
inductive Reaches (t : Terms) : Walk → Walk → Prop where
  | refl {w : Walk} : Reaches t w w
  | step {w w' v : Walk} {p : Option Pending} (going : ¬ w.isOver t = true)
      (step : step t w = .ok (w', p)) (rest : Reaches t w' v) : Reaches t w v
  | work {w w' u v : Walk} {p : Pending} (going : ¬ w.isOver t = true)
      (step : step t w = .ok (w', some p)) (inner : run t w' = .ok u)
      (work : settle t p u = .ok v) : Reaches t w v

/-- A walk that does not fail comes to its end. -/
theorem reaches_of_run (h : run t w = .ok u) : Reaches t w u := by
  fun_induction run t w generalizing u with
  | case1 w hover => cases h; exact .refl
  | case2 w hover f hstep => cases h
  | case3 w hover w' hstep ih => exact .step hover hstep (ih h)
  | case4 w hover w' p hstep ih =>
    obtain ⟨v, hv, hwork⟩ := Outcome.bind_eq_ok.1 h
    exact .work hover hstep hv hwork

/-- What is kept by steps and by later work holds of all that a walk comes to. -/
theorem Reaches.keeps {P : Walk → Prop}
    (hstep : ∀ w w' p, ¬ w.isOver t = true → P w → Walk.step t w = .ok (w', p) → P w')
    (hwork : ∀ u v p, P u → settle t p u = .ok v → P v) (h : Reaches t w v) (hw : P w) : P v := by
  have hrun : ∀ {w u}, run t w = .ok u → P w → P u := by
    intro w u h
    refine run_induction (R := fun w u => P w → P u) (fun _ _ h => h)
      (fun w w' p v s hover hs _ ih hclose hw => ?_) h
    have hv := ih (hstep w w' p hover hw hs)
    cases p with
    | none => cases hclose; exact hv
    | some p => exact hwork v _ p hv (Outcome.bind_eq_ok.2 ⟨s, hclose, rfl⟩)
  induction h with
  | refl => exact hw
  | step going hs _ ih => exact ih (hstep _ _ _ going hw hs)
  | work going hs inner work => exact hwork _ _ _ (hrun inner (hstep _ _ _ going hw hs)) work

/-! ### The swap that a walk remembers -/

/-- Instructions that are no swaps leave alone what is remembered. -/
theorem Acted.swapPc {pc : Nat} {i : Instruction} {s : Sheet} {e : Effect} (h : Acted t pc i s e)
    (hi : i.opcode.isSwap = false) : e.sheet.swapPc = s.swapPc := by
  cases h with
  | output _ given => rw [outputOf_of_not_swap hi] at given; cases given
  | input _ asked => rw [inputOf_of_not_swap hi] at asked; cases asked
  | _ => rfl

/-- A swap is remembered if it is the first one. -/
theorem Acted.swapPc_of_swap {pc : Nat} {i : Instruction} {s : Sheet} {e : Effect}
    (h : Acted t pc i s e) (hi : i.opcode.isSwap = true) :
    e.sheet.swapPc = some (s.swapPc.getD pc) := by
  obtain ⟨hout, hin⟩ := h.swap hi
  cases hx : t.query.isExactIn with
  | true =>
    obtain ⟨_, -, rfl⟩ := hout hx
    rfl
  | false =>
    obtain ⟨_, _, -, rfl⟩ := hin hx
    rfl

/-- Later work moves neither the walk nor what it remembers. -/
theorem marks_of_settle {p : Pending} (h : settle t p u = .ok v) :
    v.pc = u.pc ∧ v.sheet.swapPc = u.sheet.swapPc ∧ v.sheet.isComputed = u.sheet.isComputed := by
  obtain ⟨s, hs, h⟩ := Outcome.bind_eq_ok.1 h
  cases h
  have hsettled := settled_of_settle hs
  refine ⟨rfl, ?_, hsettled.isComputed⟩
  cases hsettled <;> rfl

/-- What a step from a boundary of a valid program is made of. -/
theorem meets_of_step (hw : WellFormed t.instructions t.program)
    (hpc : w.pc ∈ places t.instructions t.program) (hover : ¬ w.isOver t = true)
    (h : step t w = .ok (w', p)) :
    ∃ r i e, Meets t w r i w'.pc ∧ Acted t r.pc i w.sheet e ∧ w'.sheet = e.sheet ∧
      w'.pc ∈ places t.instructions t.program := by
  obtain ⟨r, i, next, hmeets, hm⟩ := exists_meets hw hpc hover
  have hdecode := Scan.decodeAt_of_mem_scan hmeets.record
  rw [hmeets.place] at hdecode
  rw [step_of_record hdecode hmeets.parses hmeets.moves] at h
  obtain ⟨e, he, h⟩ := Outcome.bind_eq_ok.1 h
  cases h
  exact ⟨r, i, e, hmeets, .of_effect he, rfl, hm⟩

/-- The walk stands at a boundary; the swap that it remembers is one of the program, and it
remembers one if it has computed a trade. -/
structure Marked (t : Terms) (w : Walk) : Prop where
  place : w.pc ∈ places t.instructions t.program
  swap : ∀ pc, w.sheet.swapPc = some pc →
    ∃ r ∈ (Scan.of t.instructions t.program).records, r.pc = pc ∧ r.opcode.isSwap = true
  computed : w.sheet.isComputed = true → ∃ pc, w.sheet.swapPc = some pc

theorem Marked.step (hw : WellFormed t.instructions t.program) (hmarked : Marked t w)
    (hover : ¬ w.isOver t = true) (h : step t w = .ok (w', p)) : Marked t w' := by
  obtain ⟨r, i, e, hmeets, hacted, hsheet, hm⟩ := meets_of_step hw hmarked.place hover h
  cases hi : i.opcode.isSwap with
  | false =>
    have hswap := hacted.swapPc hi
    have hcomputed := hacted.isComputed hi
    rw [← hsheet] at hswap hcomputed
    exact ⟨hm, fun pc hpc => hmarked.swap pc (hswap ▸ hpc),
      fun hc => hswap ▸ hmarked.computed (hcomputed ▸ hc)⟩
  | true =>
    have hswap := hacted.swapPc_of_swap hi
    rw [← hsheet] at hswap
    refine ⟨hm, fun pc hpc => ?_, fun _ => ⟨_, hswap⟩⟩
    obtain rfl := Option.some.inj (hswap.symm.trans hpc)
    cases hold : w.sheet.swapPc with
    | none => exact ⟨r, hmeets.record, rfl, hmeets.opcode ▸ hi⟩
    | some pc => exact hmarked.swap pc hold

theorem Marked.work {p : Pending} (hmarked : Marked t u) (h : settle t p u = .ok v) :
    Marked t v := by
  obtain ⟨hpc, hswap, hcomputed⟩ := marks_of_settle h
  exact ⟨hpc ▸ hmarked.place, fun pc hsome => hmarked.swap pc (hswap ▸ hsome),
    fun hc => hswap ▸ hmarked.computed (hcomputed ▸ hc)⟩

theorem Reaches.marked (hw : WellFormed t.instructions t.program) (h : Reaches t w v)
    (hmarked : Marked t w) : Marked t v :=
  h.keeps (fun _ _ _ hover hm hstep => hm.step hw hover hstep) (fun _ _ _ hm hwork => hm.work hwork)
    hmarked

/-! ### Walks that do not jump before the first swap -/

/-- The walk is on its way to a swap or remembers it. -/
def IsBound (t : Terms) (q : Nat) (w : Walk) : Prop :=
  w.pc ∈ places t.instructions t.program ∧
    ((w.sheet.swapPc = none ∧ w.pc ≤ q) ∨ w.sheet.swapPc = some q)

theorem IsBound.step (hw : WellFormed t.instructions t.program) {q : Nat}
    (hq : swapPoint t.instructions t.program = .ok q)
    (hstraight : IsStraightTo t.instructions t.program q) (hbound : IsBound t q w)
    (hover : ¬ w.isOver t = true) (h : step t w = .ok (w', p)) : IsBound t q w' := by
  obtain ⟨r, i, e, hmeets, hacted, hsheet, hm⟩ := meets_of_step hw hbound.1 hover h
  obtain ⟨first, hfirst, rfl, hswap, hleast⟩ := swapPoint_eq_ok hq
  have hplace := hmeets.place
  have hparsed := hmeets.opcode
  refine ⟨hm, ?_⟩
  rw [hsheet]
  cases hi : i.opcode.isSwap with
  | true =>
    rw [hacted.swapPc_of_swap hi]
    rcases hbound.2 with ⟨hnone, hle⟩ | hsome
    · have hge := hleast r hmeets.record (hparsed ▸ hi)
      rw [hnone]
      exact Or.inr (congrArg some (show r.pc = first.pc by omega))
    · rw [hsome]
      exact Or.inr rfl
  | false =>
    rw [hacted.swapPc hi]
    rcases hbound.2 with ⟨hnone, hle⟩ | hsome
    · refine Or.inl ⟨hnone, ?_⟩
      -- the record is not the swap, so that it stands, and ends, in front of it
      have hlt : r.pc < first.pc := by
        refine Nat.lt_of_le_of_ne (hplace ▸ hle) fun heq => ?_
        have hdecode := Scan.decodeAt_of_mem_scan hmeets.record
        rw [heq, Scan.decodeAt_of_mem_scan hfirst] at hdecode
        obtain rfl := Except.ok.inj hdecode
        rw [hparsed, hswap] at hi
        cases hi
      have hmoves := hmeets.moves
      have hnowhere : i.destination? t.query = none := by
        cases hd : i.destination? t.query with
        | none => rfl
        | some target =>
          have hnone := hstraight r hmeets.record hlt i hmeets.parses
          rw [Instruction.target?_of_destination? hd] at hnone
          cases hnone
      rw [nextPlace, hnowhere] at hmoves
      rw [← Except.ok.inj hmoves]
      exact Scan.next_le_pc hmeets.record hfirst hlt
    · exact Or.inr hsome

theorem IsBound.work {q : Nat} {p : Pending} (hbound : IsBound t q u)
    (h : settle t p u = .ok v) : IsBound t q v := by
  obtain ⟨hpc, hswap, -⟩ := marks_of_settle h
  unfold IsBound
  rwa [hpc, hswap]

theorem Reaches.isBound (hw : WellFormed t.instructions t.program) {q : Nat}
    (hq : swapPoint t.instructions t.program = .ok q)
    (hstraight : IsStraightTo t.instructions t.program q) (h : Reaches t w v)
    (hbound : IsBound t q w) : IsBound t q v :=
  h.keeps (fun _ _ _ hover hb hstep => hb.step hw hq hstraight hover hstep)
    (fun _ _ _ hb hwork => hb.work hwork) hbound

/-! ### What the scan foretells -/

/-- The walk at the start of the program. -/
def first (f : Figures) (o : Overlay) : Walk := ⟨0, 0, .start f o⟩

theorem marked_first (hw : WellFormed t.instructions t.program) (f : Figures) (o : Overlay) :
    Marked t (first f o) :=
  ⟨Scan.zero_mem_boundaries hw.whole, fun _ h => (nomatch h), fun h => (nomatch h)⟩

theorem isBound_first (hw : WellFormed t.instructions t.program) (q : Nat) (f : Figures)
    (o : Overlay) : IsBound t q (first f o) :=
  ⟨Scan.zero_mem_boundaries hw.whole, Or.inl ⟨rfl, Nat.zero_le q⟩⟩

/-- Programs without a swap compute no trade. -/
theorem isComputed_of_noSwap (hw : WellFormed t.instructions t.program) {fault : Fault}
    (hnone : swapPoint t.instructions t.program = .error fault) {f : Figures} {o : Overlay}
    (h : Reaches t (first f o) v) : v.sheet.isComputed = false := by
  cases hc : v.sheet.isComputed with
  | false => rfl
  | true =>
    have hmarked := h.marked hw (marked_first hw f o)
    obtain ⟨pc, hpc⟩ := hmarked.computed hc
    obtain ⟨r, hr, -, hswap⟩ := hmarked.swap pc hpc
    rw [isSwap_of_swapPoint_eq_error hnone r hr] at hswap
    cases hswap

end Walk

namespace Engine

open Program

variable {e : Engine} {o : Order} {r : Request} {now : Int}

/-- Orders whose programs have no swap have no price. -/
theorem exists_priced_eq_error (hw : WellFormed e.instructions o.program) {fault : Fault}
    (hnone : swapPoint e.instructions o.program = .error fault) (stopAtSwap : Bool) :
    ∃ f, e.priced o r now stopAtSwap = .error f := by
  cases hp : e.priced o r now stopAtSwap with
  | error f => exact ⟨f, rfl⟩
  | ok p =>
    obtain ⟨amount, w, -, hwalk, -, hfill⟩ := price_eq_ok (priced_eq_ok hp)
    rw [Walk.through_zero] at hwalk
    have hopen := Walk.isComputed_of_noSwap (t := e.terms o p.query now stopAtSwap) hw hnone
      (Walk.reaches_of_run hwalk)
    cases hopen.symm.trans (fill_eq_ok hfill).1

end Engine

namespace Walk

open Program

variable {t : Terms}

/-- What the scan of a program tells about its walks: wherever a walk has come to, the swap that it
remembers is one of the program and not in front of the one that the scan finds first, and it is
that one unless a record in front of it can jump; where the scan finds none, no walk computes a
trade, and no order with the program is ever quoted or swapped. -/
structure Foretells (t : Terms) (f : Figures) (o : Overlay) : Prop where
  ends : ∀ u, through t 0 (.start f o) = .ok u → Reaches t (first f o) u
  bound : ∀ v pc, Reaches t (first f o) v → v.sheet.swapPc = some pc →
    (∃ q, swapPoint t.instructions t.program = .ok q ∧ q ≤ pc) ∧
      ∃ r ∈ (Scan.of t.instructions t.program).records, r.pc = pc ∧ r.opcode.isSwap = true
  straight : ∀ v pc q, Reaches t (first f o) v → v.sheet.swapPc = some pc →
    swapPoint t.instructions t.program = .ok q →
      IsStraightTo t.instructions t.program q → pc = q
  missing : ∀ fault, swapPoint t.instructions t.program = .error fault →
    fault.kind = .missingSwapInstruction ∧
    (∀ v, Reaches t (first f o) v → v.sheet.isComputed = false) ∧
    ∀ (e : Engine) (o : Order) (r : Request) (now : Int), e.instructions = t.instructions →
      o.program = t.program → (∃ f, (e.quote o r now).outcome = .error f) ∧
        ∃ f, (e.swap o r now).1.outcome = .error f

/-- **The first swap is foretold** by the scan of a valid program, whatever the query, the figures,
the stored state, the time, the outside parties and the mode of the walk are. -/
theorem foretells_of_valid (t : Terms) (f : Figures) (o : Overlay) (records : List Record)
    (h : validate t.instructions t.program = .ok records) : Foretells t f o := by
  have hw := (validate_eq_ok_iff.1 h).2
  refine
    { ends := fun u hu => ?_
      bound := fun v pc hv hpc => ?_
      straight := fun v pc q hv hpc hq hstraight => ?_
      missing := fun fault hnone => ⟨?_, fun v => isComputed_of_noSwap hw hnone, ?_⟩ }
  · rw [through_zero] at hu
    exact reaches_of_run hu
  · obtain ⟨r, hr, hrpc, hswap⟩ := (hv.marked hw (marked_first hw f o)).swap pc hpc
    refine ⟨?_, r, hr, hrpc, hswap⟩
    cases hq : swapPoint t.instructions t.program with
    | error fault =>
      rw [isSwap_of_swapPoint_eq_error hq r hr] at hswap
      cases hswap
    | ok q =>
      obtain ⟨-, -, -, -, hleast⟩ := swapPoint_eq_ok hq
      exact ⟨q, rfl, hrpc ▸ hleast r hr hswap⟩
  · obtain ⟨-, ⟨hnone, -⟩ | hsome⟩ := hv.isBound hw hq hstraight (isBound_first hw q f o)
    · rw [hnone] at hpc
      cases hpc
    · exact Option.some.inj (hpc.symm.trans hsome)
  · rw [fault_of_swapPoint hw hnone]
    rfl
  · intro e o r now hset hprogram
    have hpriced : ∀ stopAtSwap, ∃ f, e.priced o r now stopAtSwap = .error f :=
      Engine.exists_priced_eq_error (by rwa [hset, hprogram]) (by rwa [hset, hprogram])
    obtain ⟨f, hf⟩ := hpriced true
    obtain ⟨g, hg⟩ := hpriced false
    refine ⟨⟨f, ?_⟩, g, (Engine.swap_of_unpriced hg).1⟩
    rw [Engine.quote_outcome, hf]
    rfl

/-- A jump over a swap to another one. -/
def jumpOverSwap : Bytes :=
  [0x01, 2, 0, 14, 0x30, 8, 0x0d, 0xe0, 0xb6, 0xb3, 0xa7, 0x64, 0, 0,
    0x30, 8, 0x0d, 0xe0, 0xb6, 0xb3, 0xa7, 0x64, 0, 0]

/-- The terms of a walk of `jumpOverSwap` without outside parties. -/
def jumpOverSwapTerms : Terms := { jumpFeeSwapTerms with program := jumpOverSwap }

/-- The scan finds the swap at place 4; the walk jumps over it and remembers the one at place 14. -/
theorem foretells_jumpOverSwap :
    validate .standard jumpOverSwap = .ok (Scan.of .standard jumpOverSwap).records ∧
      Foretells jumpOverSwapTerms ⟨1000, 1000, 7, 0⟩ (Store.empty.overlay "") ∧
      swapPoint .standard jumpOverSwap = .ok 4 ∧
      ∃ v, Reaches jumpOverSwapTerms (first ⟨1000, 1000, 7, 0⟩ (Store.empty.overlay "")) v ∧
        v.sheet.swapPc = some 14 := by
  have hvalid : (validate .standard jumpOverSwap).toOption =
      some (Scan.of .standard jumpOverSwap).records := by
    decide +kernel
  have hpoint : (swapPoint .standard jumpOverSwap).toOption = some 4 := by decide +kernel
  have hwalk : (sheet <$> through jumpOverSwapTerms 0
      (.start ⟨1000, 1000, 7, 0⟩ (Store.empty.overlay ""))).toOption.map Sheet.swapPc =
        some (some 14) := by
    decide +kernel
  replace hvalid := Outcome.eq_ok_of_toOption hvalid
  have hforetells := foretells_of_valid jumpOverSwapTerms ⟨1000, 1000, 7, 0⟩
    (Store.empty.overlay "") _ hvalid
  refine ⟨hvalid, hforetells, Outcome.eq_ok_of_toOption hpoint, ?_⟩
  obtain ⟨s, hs, hpc⟩ := Option.map_eq_some_iff.1 hwalk
  obtain ⟨v, hv, rfl⟩ := Outcome.map_eq_ok.1 (Outcome.eq_ok_of_toOption hs)
  exact ⟨v, hforetells.ends v hv, hpc⟩

end Walk

end SwapMachine
