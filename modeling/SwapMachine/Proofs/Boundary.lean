import SwapMachine.Program.Check

/-!
# SwapMachine.Proofs.Boundary — where the records of a valid program stand

A scan splits a program into records from the front.  Every record that it finds is the one that
stands at its place (`decodeAt_of_mem_scan`), and in a scan without fault the next place of a record
is again a boundary (`next_mem_boundaries`).

* `WellFormed set program`: what `Program.validate` checks (`validate_eq_ok_iff`).
-/

namespace SwapMachine

namespace Record

/-- What is left behind the first record. -/
theorem rest_of_first {set : InstructionSet} {pc : Nat} {bs rest : Bytes} {r : Record}
    (h : first set pc bs = .ok (r, rest)) : rest = bs.drop (headerSize + r.args.length) := by
  match bs with
  | [] => simp [first] at h
  | [_] => simp [first] at h
  | code :: length :: body =>
    simp only [first] at h
    split at h
    · cases h
    · obtain ⟨op, -, h⟩ := Outcome.bind_eq_ok.1 h
      cases h
      simp only [List.length_take, headerSize]
      rw [Nat.min_eq_left (by omega), Nat.add_comm, List.drop_succ_cons, List.drop_succ_cons]

theorem decodeAt_of_first {set : InstructionSet} {program rest : Bytes} {pc : Nat} {r : Record}
    (h : first set pc (program.drop pc) = .ok (r, rest)) : decodeAt set program pc = .ok r := by
  unfold decodeAt
  rw [h]
  rfl

end Record

namespace Scan

variable {set : InstructionSet} {program : Bytes}

theorem suffix_nil (pc : Nat) : suffix set pc [] = ⟨[], none⟩ := by
  rw [suffix]
  rfl

theorem suffix_of_first {pc : Nat} {bs rest : Bytes} {r : Record}
    (h : Record.first set pc bs = .ok (r, rest)) :
    suffix set pc bs = ⟨r :: (suffix set r.next rest).records, (suffix set r.next rest).fault⟩ := by
  have hne : bs.isEmpty = false := by
    cases bs with
    | nil => simp [Record.first] at h
    | cons b bs => rfl
  rw [suffix, hne]
  simp only [Bool.false_eq_true, if_false]
  split
  · next f hf => rw [h] at hf; cases hf
  · next r' rest' hf => rw [h] at hf; cases hf; rfl

theorem suffix_of_fault {pc : Nat} {bs : Bytes} {f : Fault} (hne : bs ≠ [])
    (h : Record.first set pc bs = .error f) : suffix set pc bs = ⟨[], some f⟩ := by
  rw [suffix]
  have : bs.isEmpty = false := by simpa using hne
  rw [this]
  simp only [Bool.false_eq_true, if_false]
  split
  · next g hg => rw [h] at hg; cases hg; rfl
  · next r rest hg => rw [h] at hg; cases hg

variable (set program)

/-- The three ways in which a scan of the bytes from a place on goes. -/
theorem suffix_drop_cases (pc : Nat) :
    (program.length ≤ pc ∧ suffix set pc (program.drop pc) = ⟨[], none⟩) ∨
    (∃ f, suffix set pc (program.drop pc) = ⟨[], some f⟩) ∨
    ∃ r, r.pc = pc ∧ r.next ≤ program.length ∧ Record.decodeAt set program pc = .ok r ∧
      suffix set pc (program.drop pc) =
        ⟨r :: (suffix set r.next (program.drop r.next)).records,
          (suffix set r.next (program.drop r.next)).fault⟩ := by
  by_cases hpc : program.length ≤ pc
  · rw [List.drop_eq_nil_of_le hpc, suffix_nil]
    exact Or.inl ⟨hpc, rfl⟩
  · refine Or.inr ?_
    cases h : Record.first set pc (program.drop pc) with
    | error f =>
      have hne : program.drop pc ≠ [] := by
        rw [ne_eq, List.drop_eq_nil_iff]
        exact hpc
      exact Or.inl ⟨f, suffix_of_fault hne h⟩
    | ok p =>
      obtain ⟨r, rest⟩ := p
      have hd := Record.decodeAt_of_first h
      obtain ⟨hr, hn⟩ := Record.decodeAt_eq_ok hd
      have hrest : rest = program.drop r.next := by
        rw [Record.rest_of_first h, List.drop_drop, ← hr]
        congr 1
        simp only [Record.next]
        omega
      refine Or.inr ⟨r, hr, hn, hd, ?_⟩
      rw [suffix_of_first h, hrest]

variable {set program}

/-- Every record of a scan is the one that stands at its place. -/
theorem decodeAt_of_mem_suffix {pc : Nat} {r : Record}
    (h : r ∈ (suffix set pc (program.drop pc)).records) :
    pc ≤ r.pc ∧ Record.decodeAt set program r.pc = .ok r := by
  induction hn : program.length - pc using Nat.strongRecOn generalizing pc with
  | ind n ih =>
    obtain ⟨-, hs⟩ | ⟨f, hs⟩ | ⟨q, hq, hle, hd, hs⟩ := suffix_drop_cases set program pc
    · simp [hs] at h
    · simp [hs] at h
    · rw [hs] at h
      simp only [Record.next, Record.headerSize] at hle
      rcases List.mem_cons.1 h with rfl | h
      · exact ⟨Nat.le_of_eq hq.symm, hq ▸ hd⟩
      · have hlt : program.length - q.next < n := by
          simp only [Record.next, Record.headerSize]
          omega
        obtain ⟨h1, h2⟩ := ih _ hlt h rfl
        simp only [Record.next, Record.headerSize] at h1
        exact ⟨by omega, h2⟩

/-- In a scan without fault the first place and the next place of each record are boundaries. -/
theorem boundaries_of_suffix {pc : Nat} (hpc : pc ≤ program.length)
    (hf : (suffix set pc (program.drop pc)).fault = none) :
    let places := Program.boundaries (suffix set pc (program.drop pc)).records program
    pc ∈ places ∧ ∀ r ∈ (suffix set pc (program.drop pc)).records, r.next ∈ places := by
  induction hn : program.length - pc using Nat.strongRecOn generalizing pc with
  | ind n ih =>
    obtain ⟨hge, hs⟩ | ⟨f, hs⟩ | ⟨q, hq, hle, hd, hs⟩ := suffix_drop_cases set program pc
    · simp only [hs, Program.boundaries, List.map_nil, List.mem_singleton, List.not_mem_nil]
      exact ⟨Nat.le_antisymm hpc hge, fun r hr => hr.elim⟩
    · rw [hs] at hf; cases hf
    · have hlt : program.length - q.next < n := by
        simp only [Record.next, Record.headerSize] at hle ⊢
        omega
      rw [hs] at hf
      obtain ⟨h1, h2⟩ := ih _ hlt hle hf rfl
      simp only [Program.boundaries, List.mem_cons] at h1 h2
      simp only [hs, Program.boundaries, List.map_cons, List.mem_cons, forall_eq_or_imp]
      refine ⟨Or.inr (Or.inl hq.symm), ?_, fun r hr => ?_⟩
      · exact h1.imp id Or.inr
      · exact (h2 r hr).imp id Or.inr

theorem decodeAt_of_mem_scan {r : Record} (h : r ∈ (Scan.of set program).records) :
    Record.decodeAt set program r.pc = .ok r := by
  have h' : r ∈ (suffix set 0 (program.drop 0)).records := by rwa [List.drop_zero]
  exact (decodeAt_of_mem_suffix h').2

theorem zero_mem_boundaries (hf : (Scan.of set program).fault = none) :
    0 ∈ Program.boundaries (Scan.of set program).records program := by
  have hf' : (suffix set 0 (program.drop 0)).fault = none := by rwa [List.drop_zero]
  have h := (boundaries_of_suffix (Nat.zero_le _) hf').1
  rwa [List.drop_zero] at h

theorem next_mem_boundaries (hf : (Scan.of set program).fault = none) {r : Record}
    (h : r ∈ (Scan.of set program).records) :
    r.next ∈ Program.boundaries (Scan.of set program).records program := by
  have hf' : (suffix set 0 (program.drop 0)).fault = none := by rwa [List.drop_zero]
  have hb := (boundaries_of_suffix (Nat.zero_le _) hf').2 r
  rw [List.drop_zero] at hb
  exact hb h

/-- The last record of a scan without fault reaches to the end. -/
theorem next_last_of_suffix {pc : Nat} (hpc : pc ≤ program.length) {rs : List Record} {r : Record}
    (hf : (suffix set pc (program.drop pc)).fault = none)
    (h : (suffix set pc (program.drop pc)).records = rs ++ [r]) : r.next = program.length := by
  induction hn : program.length - pc using Nat.strongRecOn generalizing pc rs with
  | ind n ih =>
    obtain ⟨-, hs⟩ | ⟨f, hs⟩ | ⟨q, hq, hle, -, hs⟩ := suffix_drop_cases set program pc
    · rw [hs] at h
      exact absurd h.symm (by simp)
    · rw [hs] at hf; cases hf
    · have hlt : program.length - q.next < n := by
        simp only [Record.next, Record.headerSize] at hle ⊢
        omega
      rw [hs] at h hf
      dsimp only at h hf
      cases rs with
      | nil =>
        obtain ⟨rfl, hnil⟩ := List.cons.inj h
        obtain ⟨hge, -⟩ | ⟨f, hs'⟩ | ⟨q', -, -, -, hs'⟩ := suffix_drop_cases set program q.next
        · exact Nat.le_antisymm hle hge
        · rw [hs'] at hf; cases hf
        · rw [hs'] at hnil; cases hnil
      | cons q' rs => exact ih _ hlt hle hf (List.cons.inj h).2 rfl

theorem next_last (hf : (Scan.of set program).fault = none) {rs : List Record} {r : Record}
    (h : (Scan.of set program).records = rs ++ [r]) : r.next = program.length := by
  have hf' : (suffix set 0 (program.drop 0)).fault = none := by rwa [List.drop_zero]
  exact next_last_of_suffix (Nat.zero_le _) hf' (by rwa [List.drop_zero])

theorem pc_first {r : Record} {rs : List Record} (h : (Scan.of set program).records = r :: rs) :
    r.pc = 0 := by
  have h' : (suffix set 0 (program.drop 0)).records = r :: rs := by rwa [List.drop_zero]
  obtain ⟨-, hs⟩ | ⟨f, hs⟩ | ⟨q, hq, -, -, hs⟩ := suffix_drop_cases set program 0
  · rw [hs] at h'; cases h'
  · rw [hs] at h'; cases h'
  · rw [hs] at h'
    rw [← (List.cons.inj h').1, hq]

end Scan

namespace Program

variable {set : InstructionSet} {program : Bytes}

/-- The places of a program where a record starts, and its end. -/
def places (set : InstructionSet) (program : Bytes) : List Nat :=
  boundaries (Scan.of set program).records program

/-- A program that splits into records, all of which parse and jump only ahead to places. -/
structure WellFormed (set : InstructionSet) (program : Bytes) : Prop where
  whole : (Scan.of set program).fault = none
  parses : ∀ r ∈ (Scan.of set program).records, ∃ i, r.parse = .ok i
  jumps : ∀ r ∈ (Scan.of set program).records, ∀ i, r.parse = .ok i →
    ∀ target, i.target? = some target → r.pc < target ∧ target ∈ places set program

theorem checkRecord_eq_ok_iff {places : List Nat} {r : Record} :
    checkRecord places r = .ok () ↔ ∃ i, r.parse = .ok i ∧
      ∀ target, i.target? = some target → r.pc < target ∧ target ∈ places := by
  unfold checkRecord
  rw [Outcome.bind_eq_ok]
  refine exists_congr fun i => and_congr_right fun _ => ?_
  cases i.target? with
  | none => simp [pure, Except.pure]
  | some target =>
    dsimp only
    by_cases h : target ≤ r.pc ∨ ¬ places.contains target = true
    · rw [if_pos h]
      simp only [reduceCtorEq, Option.some.injEq, forall_eq', false_iff]
      rintro ⟨hlt, hm⟩
      rcases h with h | h
      · omega
      · exact h (List.contains_iff_mem.2 hm)
    · rw [if_neg h]
      rw [not_or, Decidable.not_not] at h
      simp only [pure, Except.pure, Option.some.injEq, forall_eq', true_iff]
      exact ⟨Nat.lt_of_not_le h.1, List.contains_iff_mem.1 h.2⟩

theorem checkRecords_eq_ok_iff {places : List Nat} {rs : List Record} :
    checkRecords places rs = .ok () ↔ ∀ r ∈ rs, checkRecord places r = .ok () := by
  induction rs with
  | nil => simp [checkRecords]
  | cons r rs ih =>
    rw [checkRecords, Outcome.bind_eq_ok, List.forall_mem_cons, ← ih]
    exact ⟨fun ⟨_, h1, h2⟩ => ⟨h1, h2⟩, fun ⟨h1, h2⟩ => ⟨(), h1, h2⟩⟩

/-- **Validation** accepts the well-formed programs and gives the records of their scan. -/
theorem validate_eq_ok_iff {records : List Record} :
    validate set program = .ok records ↔
      records = (Scan.of set program).records ∧ WellFormed set program := by
  unfold validate Scan.all Scan.result
  cases hf : (Scan.of set program).fault with
  | some f =>
    refine ⟨fun h => (nomatch h), fun ⟨_, h⟩ => ?_⟩
    rw [h.whole] at hf; cases hf
  | none =>
    have hbind : ((Except.ok (Scan.of set program).records : Outcome (List Record)) >>=
        fun records => checkRecords (boundaries records program) records >>= fun _ =>
          pure records) =
        (checkRecords (places set program) (Scan.of set program).records >>= fun _ =>
          pure (Scan.of set program).records) := rfl
    rw [hbind, Outcome.bind_eq_ok]
    simp only [Outcome.pure_eq_ok]
    constructor
    · rintro ⟨_, h, rfl⟩
      refine ⟨rfl, hf, fun r hr => ?_, fun r hr i hi => ?_⟩
      · obtain ⟨i, hi, -⟩ := checkRecord_eq_ok_iff.1 (checkRecords_eq_ok_iff.1 h r hr)
        exact ⟨i, hi⟩
      · obtain ⟨j, hj, ht⟩ := checkRecord_eq_ok_iff.1 (checkRecords_eq_ok_iff.1 h r hr)
        rw [hi] at hj; cases hj
        exact ht
    · rintro ⟨rfl, h⟩
      refine ⟨(), checkRecords_eq_ok_iff.2 fun r hr => checkRecord_eq_ok_iff.2 ?_, rfl⟩
      obtain ⟨i, hi⟩ := h.parses r hr
      exact ⟨i, hi, h.jumps r hr i hi⟩

end Program

end SwapMachine
