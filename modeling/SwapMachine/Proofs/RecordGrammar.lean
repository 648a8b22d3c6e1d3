import SwapMachine.Intake.Record
import SwapMachine.Proofs.Boundary

/-!
# SwapMachine.Proofs.RecordGrammar — programs as they are spelled record by record

A program without malformation is one spelling of its records; in any other one the scan stops behind
the longest piece that is.

* `Record.spell`: the bytes of opcodes with their arguments, `Record.rows`: their records.
* `Record.Stuck`: bytes that no record stands in front of, and what is reported of them.
* `Scan.exists_split`: whatever the bytes are, they are a spelling and a rest that is empty or stuck.
* `Scan.scan_inverts_encoding`: scanning and writing are inverse, and where scanning stops.
-/

namespace SwapMachine

/-- An opcode byte and the arguments behind it. -/
abbrev Part := UInt8 × Bytes

theorem Opcode.number_ofNumber (n : Nat) : (Opcode.ofNumber n).number = n := by
  unfold Opcode.ofNumber
  cases h : Opcode.standard.find? fun op => op.number == n with
  | none => rfl
  | some op =>
    have hop := List.find?_some h
    exact beq_iff_eq.1 hop

namespace Record

/-! ### Spelling -/

/-- The record of a part at a place. -/
def row (pc : Nat) (p : Part) : Record := ⟨pc, Opcode.ofNumber p.1.toNat, p.2⟩

/-- The records of parts one after another, from a place on. -/
def rows : Nat → List Part → List Record
  | _, [] => []
  | pc, p :: ps => row pc p :: rows (row pc p).next ps

/-- The bytes of a part. -/
def bytesOf (p : Part) : Bytes := p.1 :: UInt8.ofNat p.2.length :: p.2

/-- The bytes of parts one after another. -/
def spell : List Part → Bytes
  | [] => []
  | p :: ps => bytesOf p ++ spell ps

/-- What a record is spelled from. -/
def part (r : Record) : Part := (UInt8.ofNat r.opcode.number, r.args)

/-- The set has the opcode, and the length of the arguments is a byte. -/
structure Fits (set : InstructionSet) (p : Part) : Prop where
  registered : p.1.toNat ∈ set.numbers
  short : p.2.length ≤ 255

@[simp] theorem part_row (pc : Nat) (p : Part) : (row pc p).part = p := by
  simp only [part, row, Opcode.number_ofNumber, UInt8.ofNat_toNat]

@[simp] theorem length_bytesOf (p : Part) : (bytesOf p).length = headerSize + p.2.length := by
  simp only [bytesOf, List.length_cons, headerSize]
  omega

theorem next_row (pc : Nat) (p : Part) : (row pc p).next = pc + (bytesOf p).length := by
  rw [length_bytesOf, ← Nat.add_assoc]
  rfl

@[simp] theorem map_part_rows (pc : Nat) (ps : List Part) : (rows pc ps).map part = ps := by
  induction ps generalizing pc with
  | nil => rfl
  | cons p ps ih => rw [rows, List.map_cons, ih, part_row]

/-- The byte with the length of the arguments says it. -/
theorem toNat_length {args : Bytes} (h : args.length ≤ 255) :
    (UInt8.ofNat args.length).toNat = args.length :=
  UInt8.toNat_ofNat_of_lt' (Nat.lt_succ_of_le h)

theorem spell_append (ps qs : List Part) : spell (ps ++ qs) = spell ps ++ spell qs := by
  induction ps with
  | nil => rfl
  | cons p ps ih => rw [List.cons_append, spell, ih, spell, List.append_assoc]

/-- A part takes some bytes. -/
theorem length_spell_lt (front back : List Part) (p : Part) :
    (spell front).length < (spell (front ++ p :: back)).length := by
  rw [spell_append, spell, List.length_append, List.length_append, length_bytesOf, headerSize]
  omega

theorem rows_append (pc : Nat) (ps qs : List Part) :
    rows pc (ps ++ qs) = rows pc ps ++ rows (pc + (spell ps).length) qs := by
  induction ps generalizing pc with
  | nil => rfl
  | cons p ps ih =>
    rw [List.cons_append, rows, ih, rows, List.cons_append, next_row, spell, List.length_append,
      Nat.add_assoc]

/-- A record in a row stands behind the spelling of what comes before it. -/
theorem mem_rows_iff {pc : Nat} {ps : List Part} {r : Record} :
    r ∈ rows pc ps ↔
      ∃ front p back, ps = front ++ p :: back ∧ r = row (pc + (spell front).length) p := by
  constructor
  · intro h
    induction ps generalizing pc with
    | nil => cases h
    | cons p ps ih =>
      rcases List.mem_cons.1 h with rfl | h
      · exact ⟨[], p, ps, rfl, rfl⟩
      · obtain ⟨front, q, back, rfl, rfl⟩ := ih h
        refine ⟨p :: front, q, back, rfl, ?_⟩
        rw [next_row, spell, List.length_append, Nat.add_assoc]
  · rintro ⟨front, p, back, rfl, rfl⟩
    rw [rows_append]
    exact List.mem_append_right _ (List.mem_cons_self ..)

/-! ### Writing -/

theorem header_eq_ok_iff {code : UInt8} {size : Nat} {bs : Bytes} :
    header code.toNat size = .ok bs ↔ size ≤ 255 ∧ bs = [code, UInt8.ofNat size] := by
  have hlt := code.toNat_lt
  have hrange : (0 : Int) ≤ code.toNat ∧ (code.toNat : Int) ≤ 255 := by omega
  unfold header
  rw [requireNumber, if_pos hrange]
  show (if 255 < size then _ else _) = _ ↔ _
  rw [Int.toNat_natCast, UInt8.ofNat_toNat]
  split
  · exact iff_of_false (fun h => by cases h) fun h => by omega
  · rw [Outcome.pure_eq_ok, and_iff_right (by omega)]
    exact eq_comm

theorem encode_eq_ok_iff {p : Part} {bs : Bytes} :
    encode p.1.toNat p.2 = .ok bs ↔ p.2.length ≤ 255 ∧ bs = bytesOf p := by
  unfold encode
  simp only [Outcome.bind_eq_ok, Outcome.pure_eq_ok, header_eq_ok_iff]
  constructor
  · rintro ⟨_, ⟨hle, rfl⟩, rfl⟩
    exact ⟨hle, rfl⟩
  · rintro ⟨hle, rfl⟩
    exact ⟨_, ⟨hle, rfl⟩, rfl⟩

/-- Parts whose arguments are not too long are written as they are spelled. -/
theorem encodeAll_eq_ok_iff {ps : List Part} {bs : Bytes} :
    encodeAll (ps.map fun p => ((p.1.toNat : Int), p.2)) = .ok bs ↔
      (∀ p ∈ ps, p.2.length ≤ 255) ∧ bs = spell ps := by
  induction ps generalizing bs with
  | nil =>
    refine ⟨fun h => ?_, fun h => by rw [h.2]; rfl⟩
    cases h
    exact ⟨fun _ h => absurd h List.not_mem_nil, rfl⟩
  | cons p ps ih =>
    simp only [List.map_cons, encodeAll, Outcome.bind_eq_ok, Outcome.pure_eq_ok, encode_eq_ok_iff,
      ih, List.forall_mem_cons]
    constructor
    · rintro ⟨_, ⟨hp, rfl⟩, _, ⟨hps, rfl⟩, rfl⟩
      exact ⟨⟨hp, hps⟩, rfl⟩
    · rintro ⟨⟨hp, hps⟩, rfl⟩
      exact ⟨_, ⟨hp, rfl⟩, _, ⟨hps, rfl⟩, rfl⟩

/-- The program of parts, written from data. -/
def program (ps : List Part) : Outcome Bytes :=
  Intake.records (ps.map fun p => (.int p.1.toNat, .bytes p.2))

theorem record_eq (p : Part) :
    Intake.record (.int p.1.toNat) (.bytes p.2) = encode p.1.toNat p.2 := by
  have hlt := p.1.toNat_lt
  have hrange : (0 : Int) ≤ p.1.toNat ∧ (p.1.toNat : Int) ≤ 255 := by omega
  show (requireNumber p.1.toNat >>= fun _ => header p.1.toNat p.2.length >>= fun h =>
    pure (h ++ p.2)) = _
  rw [requireNumber, if_pos hrange]
  rfl

theorem program_eq_ok_iff {ps : List Part} {bs : Bytes} :
    program ps = .ok bs ↔ (∀ p ∈ ps, p.2.length ≤ 255) ∧ bs = spell ps := by
  rw [← encodeAll_eq_ok_iff]
  suffices h : program ps = encodeAll (ps.map fun p => ((p.1.toNat : Int), p.2)) by rw [h]
  induction ps with
  | nil => rfl
  | cons p ps ih =>
    unfold program at ih ⊢
    simp only [List.map_cons, Intake.records, encodeAll, record_eq, ih]

/-! ### Splitting a record off -/

theorem lookup_of_mem {set : InstructionSet} {code : UInt8} (h : code.toNat ∈ set.numbers)
    (pc : Nat) : set.lookup pc code.toNat = .ok (Opcode.ofNumber code.toNat) := by
  unfold InstructionSet.lookup InstructionSet.get?
  rw [if_pos ⟨Int.natCast_nonneg _, List.contains_iff_mem.2 h⟩, Int.toNat_natCast]

theorem lookup_of_not_mem {set : InstructionSet} {code : UInt8} (h : code.toNat ∉ set.numbers)
    (pc : Nat) : set.lookup pc code.toNat = .error (.program (.unknownOpcode pc code.toNat)) := by
  unfold InstructionSet.lookup InstructionSet.get?
  rw [if_neg fun hc => h (List.contains_iff_mem.1 hc.2)]

/-- What stands in front of the bytes from a place on that no record starts, and what is reported:
the header first, then the arguments, then the opcode. -/
inductive Stuck (set : InstructionSet) (pc : Nat) : Bytes → Fault → Prop
  | header (code : UInt8) : Stuck set pc [code] (.program (.headerCut pc))
  | args (code length : UInt8) (body : Bytes) (h : body.length < length.toNat) :
    Stuck set pc (code :: length :: body) (.program (.argsOverrun pc length.toNat))
  | opcode (code length : UInt8) (body : Bytes) (hfits : length.toNat ≤ body.length)
    (h : code.toNat ∉ set.numbers) :
    Stuck set pc (code :: length :: body) (.program (.unknownOpcode pc code.toNat))

theorem first_of_stuck {set : InstructionSet} {pc : Nat} {bs : Bytes} {f : Fault}
    (h : Stuck set pc bs f) : first set pc bs = .error f := by
  cases h with
  | header code => rfl
  | args code length body hlen => rw [first, if_pos hlen]
  | opcode code length body hfits hcode =>
    rw [first, if_neg (by omega), lookup_of_not_mem hcode]
    rfl

theorem first_bytesOf {set : InstructionSet} {p : Part} (h : Fits set p) (pc : Nat) (rest : Bytes) :
    first set pc (bytesOf p ++ rest) = .ok (row pc p, rest) := by
  rw [bytesOf, List.cons_append, List.cons_append, first, toNat_length h.short,
    if_neg (by rw [List.length_append]; omega), List.take_left, List.drop_left,
    lookup_of_mem h.registered]
  rfl

/-- The record behind the spelling of what comes before it. -/
theorem decodeAt_of_fits {set : InstructionSet} {p : Part} (h : Fits set p)
    (front back : List Part) : decodeAt set (spell (front ++ p :: back)) (spell front).length =
      .ok (row (spell front).length p) := by
  rw [decodeAt, spell_append, List.drop_left, spell, first_bytesOf h]
  rfl

theorem decodeAt_of_unregistered {set : InstructionSet} {p : Part} (hshort : p.2.length ≤ 255)
    (h : p.1.toNat ∉ set.numbers) (front back : List Part) :
    decodeAt set (spell (front ++ p :: back)) (spell front).length =
      .error (.program (.unknownOpcode (spell front).length p.1.toNat)) := by
  have hfits : (UInt8.ofNat p.2.length).toNat ≤ (p.2 ++ spell back).length := by
    rw [toNat_length hshort, List.length_append]
    exact Nat.le_add_right _ _
  have hstuck : Stuck set (spell front).length (bytesOf p ++ spell back) _ :=
    .opcode p.1 (UInt8.ofNat p.2.length) (p.2 ++ spell back) hfits h
  rw [decodeAt, spell_append, List.drop_left, spell, first_of_stuck hstuck]
  rfl

/-- **Bytes** start with a record or are stuck. -/
theorem fits_or_stuck (set : InstructionSet) (pc : Nat) {bs : Bytes} (hne : bs ≠ []) :
    (∃ p rest, Fits set p ∧ bs = bytesOf p ++ rest) ∨ ∃ f, Stuck set pc bs f := by
  match bs with
  | [] => exact absurd rfl hne
  | [code] => exact Or.inr ⟨_, .header code⟩
  | code :: length :: body =>
    by_cases hlen : body.length < length.toNat
    · exact Or.inr ⟨_, .args code length body hlen⟩
    · by_cases hcode : code.toNat ∈ set.numbers
      · have htake : (body.take length.toNat).length = length.toNat := by
          rw [List.length_take]
          omega
        have hlt := length.toNat_lt
        refine Or.inl ⟨(code, body.take length.toNat), body.drop length.toNat, ⟨hcode, ?_⟩, ?_⟩
        · show (body.take length.toNat).length ≤ 255
          omega
        · simp only [bytesOf, htake, UInt8.ofNat_toNat, List.cons_append, List.take_append_drop]
      · exact Or.inr ⟨_, .opcode code length body (by omega) hcode⟩

end Record

namespace Scan

open Record

variable {set : InstructionSet}

/-! ### The scan of a spelling and of what stands behind it -/

/-- A spelling is scanned as its records, and the scan goes on behind it. -/
theorem suffix_spell {ps : List Part} (h : ∀ p ∈ ps, Fits set p) (pc : Nat) (rest : Bytes) :
    suffix set pc (spell ps ++ rest) =
      ⟨rows pc ps ++ (suffix set (pc + (spell ps).length) rest).records,
        (suffix set (pc + (spell ps).length) rest).fault⟩ := by
  induction ps generalizing pc with
  | nil => rfl
  | cons p ps ih =>
    obtain ⟨hp, hps⟩ := List.forall_mem_cons.1 h
    rw [spell, List.append_assoc, suffix_of_first (first_bytesOf hp pc _), ih hps, next_row,
      List.length_append, ← Nat.add_assoc, rows, next_row]
    rfl

/-- Whatever the bytes are, they are a spelling and a rest that is empty or stuck. -/
theorem exists_split (set : InstructionSet) (pc : Nat) (bs : Bytes) :
    ∃ ps rest, (∀ p ∈ ps, Fits set p) ∧ bs = spell ps ++ rest ∧
      (rest = [] ∨ ∃ f, Stuck set (pc + (spell ps).length) rest f) := by
  induction hn : bs.length using Nat.strongRecOn generalizing pc bs with
  | ind n ih =>
    have hnone : ∀ p ∈ ([] : List Part), Fits set p := fun _ h => absurd h List.not_mem_nil
    by_cases hne : bs = []
    · exact ⟨[], [], hnone, hne, Or.inl rfl⟩
    · rcases fits_or_stuck set pc hne with ⟨p, rest, hp, rfl⟩ | hstuck
      · have hlt : rest.length < n := by
          rw [List.length_append, length_bytesOf, headerSize] at hn
          omega
        obtain ⟨ps, left, hps, rfl, hleft⟩ := ih _ hlt (pc + (bytesOf p).length) rest rfl
        refine ⟨p :: ps, left, List.forall_mem_cons.2 ⟨hp, hps⟩, ?_, ?_⟩
        · rw [spell, List.append_assoc]
        · rwa [spell, List.length_append, ← Nat.add_assoc]
      · exact ⟨[], bs, hnone, rfl, Or.inr hstuck⟩

theorem suffix_of_stuck {pc : Nat} {bs : Bytes} {f : Fault} (h : Stuck set pc bs f) :
    suffix set pc bs = ⟨[], some f⟩ :=
  suffix_of_fault (by cases h <;> exact List.cons_ne_nil _ _) (first_of_stuck h)

/-- The two ways in which a scan ends. -/
theorem of_cases (set : InstructionSet) (bs : Bytes) :
    (∃ ps, (∀ p ∈ ps, Fits set p) ∧ bs = spell ps ∧ Scan.of set bs = ⟨rows 0 ps, none⟩) ∨
      ∃ ps rest f, (∀ p ∈ ps, Fits set p) ∧ bs = spell ps ++ rest ∧
        Stuck set (spell ps).length rest f ∧ Scan.of set bs = ⟨rows 0 ps, some f⟩ := by
  obtain ⟨ps, rest, hps, rfl, hrest⟩ := exists_split set 0 bs
  have hscan := suffix_spell hps 0 rest
  rw [Nat.zero_add] at hscan hrest
  rcases hrest with rfl | ⟨f, hf⟩
  · rw [suffix_nil] at hscan
    simp only [List.append_nil] at hscan ⊢
    exact Or.inl ⟨ps, hps, rfl, hscan⟩
  · rw [suffix_of_stuck hf, List.append_nil] at hscan
    exact Or.inr ⟨ps, rest, f, hps, rfl, hf, hscan⟩

/-! ### Where a scan stops -/

/-- The longest piece from the front that is a row of records ends at this place. -/
structure LongestRow (set : InstructionSet) (bs : Bytes) (pc : Nat) : Prop where
  within : pc ≤ bs.length
  whole : (Scan.of set (bs.take pc)).fault = none
  longest : ∀ n ≤ bs.length, (Scan.of set (bs.take n)).fault = none → n ≤ pc

theorem of_spell {ps : List Part} (h : ∀ p ∈ ps, Fits set p) :
    Scan.of set (spell ps) = ⟨rows 0 ps, none⟩ := by
  have hscan := suffix_spell h 0 []
  rw [suffix_nil] at hscan
  simpa only [List.append_nil, Scan.of] using hscan

/-- No piece of what is stuck is a row of records. -/
theorem fault_of_stuck {pc : Nat} {bs : Bytes} {f : Fault} (h : Stuck set pc bs f) {k : Nat}
    (hpos : 0 < k) : (suffix set pc (bs.take k)).fault ≠ none := by
  have hne : bs.take k ≠ [] := by
    rw [ne_eq, List.take_eq_nil_iff, not_or]
    exact ⟨Nat.ne_of_gt hpos, by cases h <;> exact List.cons_ne_nil _ _⟩
  rcases fits_or_stuck set pc hne with ⟨p, rest, hp, htake⟩ | ⟨g, hg⟩
  · have hfirst := first_of_stuck h
    rw [← List.take_append_drop k bs, htake, List.append_assoc, first_bytesOf hp] at hfirst
    cases hfirst
  · rw [suffix_of_stuck hg]
    exact Option.some_ne_none g

theorem longestRow_of_stuck {ps : List Part} {rest : Bytes} {f : Fault} (hps : ∀ p ∈ ps, Fits set p)
    (h : Stuck set (spell ps).length rest f) :
    LongestRow set (spell ps ++ rest) (spell ps).length where
  within := by
    rw [List.length_append]
    omega
  whole := by rw [List.take_left, of_spell hps]
  longest n hn hwhole := by
    refine Nat.le_of_not_lt fun hlt => ?_
    rw [List.length_append] at hn
    have htake : (spell ps ++ rest).take n = spell ps ++ rest.take (n - (spell ps).length) := by
      rw [List.take_append, List.take_of_length_le (Nat.le_of_lt hlt)]
    rw [htake, Scan.of, suffix_spell hps, Nat.zero_add] at hwhole
    exact fault_of_stuck h (by omega) hwhole

/-! ### Cuts -/

/-- What is reported of a program that ends within a record. -/
def cutFault (r : Record) (n : Nat) : Fault :=
  .program (if n = r.pc + 1 then .headerCut r.pc else .argsOverrun r.pc r.args.length)

theorem stuck_of_cut {p : Part} (hp : Fits set p) (pc : Nat) {k : Nat} (hpos : 0 < k)
    (hlt : k < (bytesOf p).length) :
    Stuck set pc ((bytesOf p).take k) (cutFault (row pc p) (pc + k)) := by
  rw [length_bytesOf, headerSize] at hlt
  obtain rfl | ⟨j, rfl⟩ : k = 1 ∨ ∃ j, k = j + 2 := by
    by_cases hone : k = 1
    · exact Or.inl hone
    · exact Or.inr ⟨k - 2, by omega⟩
  · have hone : pc + 1 = (row pc p).pc + 1 := rfl
    rw [cutFault, if_pos hone]
    exact .header p.1
  · have hlen := toNat_length hp.short
    have hne : ¬ pc + (j + 2) = (row pc p).pc + 1 := by
      show ¬ pc + (j + 2) = pc + 1
      omega
    have hbody : (p.2.take j).length < (UInt8.ofNat p.2.length).toNat := by
      rw [hlen, List.length_take]
      omega
    have hargs : Stuck set pc ((bytesOf p).take (j + 2)) _ := .args p.1 _ _ hbody
    rw [hlen] at hargs
    rw [cutFault, if_neg hne]
    exact hargs

/-- The scan of a program that ends within a record. -/
theorem of_cut {front back : List Part} {p : Part} (h : ∀ q ∈ front ++ p :: back, Fits set q)
    {k : Nat} (hpos : 0 < k) (hlt : k < (bytesOf p).length) :
    Scan.of set ((spell (front ++ p :: back)).take ((spell front).length + k)) =
      ⟨rows 0 front, some (cutFault (row (spell front).length p) ((spell front).length + k))⟩ := by
  have hfront : ∀ q ∈ front, Fits set q := fun q hq => h q (List.mem_append_left _ hq)
  have hp : Fits set p := h p (List.mem_append_right _ (List.mem_cons_self ..))
  have htake : (spell (front ++ p :: back)).take ((spell front).length + k) =
      spell front ++ (bytesOf p).take k := by
    rw [spell_append, spell, List.take_length_add_append, List.take_append_of_le_length]
    exact Nat.le_of_lt hlt
  rw [htake, Scan.of, suffix_spell hfront, Nat.zero_add,
    suffix_of_stuck (stuck_of_cut hp _ hpos hlt), List.append_nil]

theorem validate_of_fault {bs : Bytes} {f : Fault} (h : (Scan.of set bs).fault = some f) :
    Program.validate set bs = .error f := by
  unfold Program.validate Scan.all Scan.result
  rw [h]
  rfl

/-- **Scanning and writing** programs are inverse: what is written of registered opcodes with at most
255 argument bytes each is scanned as these records, each standing where the one before it ends,
and the records of a scan without malformation are written as the bytes that were scanned. In any
other bytes the scan stops where the longest row of records ends, and reports what stands there.
So a program that is cut within a record is malformed at that record. -/
theorem scan_inverts_encoding (set : InstructionSet) :
    (∀ ps : List Part, (∀ p ∈ ps, Fits set p) →
      ∃ bs, Record.program ps = .ok bs ∧ Scan.of set bs = ⟨rows 0 ps, none⟩) ∧
    (∀ bs : Bytes, (Scan.of set bs).fault = none →
      Record.program ((Scan.of set bs).records.map part) = .ok bs) ∧
    (∀ (bs : Bytes) (f : Fault), (Scan.of set bs).fault = some f →
      ∃ pc, LongestRow set bs pc ∧ Stuck set pc (bs.drop pc) f ∧
        (Scan.of set bs).records = (Scan.of set (bs.take pc)).records) ∧
    ∀ (bs : Bytes) (r : Record) (n : Nat), (Scan.of set bs).fault = none →
      r ∈ (Scan.of set bs).records → r.pc < n → n < r.next →
        (Scan.of set (bs.take n)).fault = some (cutFault r n) ∧
          Program.validate set (bs.take n) = .error (cutFault r n) := by
  have hwhole : ∀ bs : Bytes, (Scan.of set bs).fault = none →
      ∃ ps, (∀ p ∈ ps, Fits set p) ∧ bs = spell ps ∧ (Scan.of set bs).records = rows 0 ps := by
    intro bs hf
    rcases of_cases set bs with ⟨ps, hps, hbs, hscan⟩ | ⟨ps, rest, f, -, -, -, hscan⟩
    · exact ⟨ps, hps, hbs, by rw [hscan]⟩
    · rw [hscan] at hf
      cases hf
  refine ⟨fun ps hps => ?_, fun bs hf => ?_, fun bs f hf => ?_, fun bs r n hf hr hlt hle => ?_⟩
  · exact ⟨spell ps, program_eq_ok_iff.2 ⟨fun p hp => (hps p hp).short, rfl⟩, of_spell hps⟩
  · obtain ⟨ps, hps, hbs, hrecords⟩ := hwhole bs hf
    rw [hrecords, map_part_rows]
    exact program_eq_ok_iff.2 ⟨fun p hp => (hps p hp).short, hbs⟩
  · rcases of_cases set bs with ⟨ps, -, -, hscan⟩ | ⟨ps, rest, g, hps, rfl, hg, hscan⟩
    · rw [hscan] at hf
      cases hf
    · rw [hscan] at hf
      cases hf
      refine ⟨(spell ps).length, longestRow_of_stuck hps hg, ?_, ?_⟩
      · rwa [List.drop_left]
      · rw [hscan, List.take_left, of_spell hps]
  · obtain ⟨ps, hps, rfl, hrecords⟩ := hwhole bs hf
    rw [hrecords] at hr
    obtain ⟨front, p, back, rfl, rfl⟩ := mem_rows_iff.1 hr
    rw [Nat.zero_add] at hlt hle ⊢
    replace hlt : (spell front).length < n := hlt
    rw [next_row] at hle
    obtain ⟨k, rfl⟩ := Nat.exists_eq_add_of_le (Nat.le_of_lt hlt)
    have hcut := of_cut hps (k := k) (by omega) (by omega)
    have hfault : (Scan.of set ((spell (front ++ p :: back)).take
        ((spell front).length + k))).fault = some (cutFault (row (spell front).length p)
          ((spell front).length + k)) := by rw [hcut]
    exact ⟨hfault, validate_of_fault hfault⟩

/-- A salt of two bytes, and a peg without arguments. -/
def saltThenPeg : List Part := [(0x08, [1, 2]), (0x31, [])]

theorem scan_inverts_encoding_saltThenPeg :
    (∃ bs, Record.program saltThenPeg = .ok bs ∧
      Scan.of .standard bs = ⟨rows 0 saltThenPeg, none⟩ ∧
      Record.program ((Scan.of .standard bs).records.map part) = .ok bs ∧
      Program.validate .standard (bs.take 3) = .error (.program (.argsOverrun 0 2))) ∧
    ∃ pc, LongestRow .standard [0x08, 0, 0xff, 0] pc ∧
      Stuck .standard pc ([0x08, 0, 0xff, 0].drop pc) (.program (.unknownOpcode 2 0xff)) := by
  obtain ⟨hwrite, hread, hstop, hcut⟩ := scan_inverts_encoding .standard
  have hfits : ∀ p ∈ saltThenPeg, Fits .standard p :=
    List.forall_mem_cons.2 ⟨⟨by decide, by decide⟩, List.forall_mem_singleton.2
      ⟨by decide, by decide⟩⟩
  obtain ⟨bs, hbs, hscan⟩ := hwrite saltThenPeg hfits
  have hfault : (Scan.of .standard bs).fault = none := by rw [hscan]
  have hfirst : row 0 (0x08, [1, 2]) ∈ (Scan.of .standard bs).records := by
    rw [hscan]
    exact List.mem_cons_self ..
  have hunknown : (Scan.of .standard [0x08, 0, 0xff, 0]).fault =
      some (.program (.unknownOpcode 2 0xff)) := by
    have hsalt : ∀ p ∈ [((0x08, []) : Part)], Fits .standard p :=
      List.forall_mem_singleton.2 ⟨by decide, by decide⟩
    have hend : Stuck .standard 2 [0xff, 0] _ := .opcode 0xff 0 [] (by decide) (by decide)
    have hscan := congrArg Scan.fault (suffix_spell hsalt 0 [0xff, 0])
    exact hscan.trans (congrArg Scan.fault (suffix_of_stuck hend))
  obtain ⟨pc, hlongest, hstuck, -⟩ := hstop _ _ hunknown
  exact ⟨⟨bs, hbs, hscan, hread bs hfault,
    (hcut bs _ 3 hfault hfirst (by decide) (by decide)).2⟩, pc, hlongest, hstuck⟩

end Scan

end SwapMachine
