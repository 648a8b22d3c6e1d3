import SwapMachine.Proofs.Labels

/-!
# SwapMachine.Proofs.LabelJump — where the jumps of an assembled program go

The jumps that steps append go to the places of their labels, which are boundaries.  So the only ones
that validation refuses are those that do not go ahead, their label being set before them.

* `Record.program_eq_spell_iff`: a program is spelled in one way.
* `Step.Writes.jump`, `Step.Writes.tokenJump`: what a jump appends and is parsed as;
  `Step.Writes.target`: it goes to the place of its label.
* `Program.of_validate_badJump`: when validation refuses a jump.
* `Assembly.jumps_land`: the program of an assembly, and the jumps in it.
-/

namespace SwapMachine

open Block Record

namespace Record

/-- A program is spelled in one way. -/
theorem program_eq_spell_iff {ps qs : List Part} (hps : ∀ p ∈ ps, p.2.length ≤ 255) :
    program qs = .ok (spell ps) ↔ qs = ps := by
  rw [program_eq_ok_iff]
  constructor
  · rintro ⟨hqs, h⟩
    -- a set that has all opcodes of both splits the program into either
    let set : InstructionSet := ⟨(ps ++ qs).map fun p => p.1.toNat⟩
    have hregistered : ∀ p ∈ ps ++ qs, p.1.toNat ∈ set.numbers := fun p hp =>
      List.mem_map_of_mem hp
    have hscan : Scan.of set (spell ps) = ⟨rows 0 ps, none⟩ := Scan.of_spell fun p hp =>
      ⟨hregistered p (List.mem_append_left _ hp), hps p hp⟩
    have hscan' : Scan.of set (spell qs) = ⟨rows 0 qs, none⟩ := Scan.of_spell fun q hq =>
      ⟨hregistered q (List.mem_append_right _ hq), hqs q hq⟩
    rw [h, hscan'] at hscan
    have hrows := congrArg (fun scan => scan.records.map part) hscan
    simpa only [map_part_rows] using hrows
  · rintro rfl
    exact ⟨hps, rfl⟩

/-- Nothing stands behind a record but what is spelled with it. -/
theorem length_spell_take_lt {front back : List Part} {p : Part} {k : Nat}
    (h : front.length < k) :
    (spell front).length < (spell ((front ++ p :: back).take k)).length := by
  obtain ⟨n, rfl⟩ := Nat.exists_eq_add_of_lt h
  rw [Nat.add_assoc, List.take_length_add_append, List.take_succ_cons]
  exact length_spell_lt front (back.take n) p

end Record

namespace Step

/-- The label that a jump goes to. -/
def target? : Step → Option String
  | jump l => some l
  | jumpIfTokenIn _ l => some l
  | jumpIfTokenOut _ l => some l
  | _ => none

/-- The step appends a jump whose place is not given by a label. -/
def isRawJump : Step → Bool
  | raw number _ => (number.whole?.map fun n => (Opcode.ofNumber n.toNat).isJump).getD false
  | _ => false

theorem isRecord_of_record? {place : String → Option Nat} {s : Step}
    {r : Int × List Intake.Field} (h : s.record? place = some r) : s.isRecord = true := by
  cases s <;> first | rfl | cases h

/-- Each part is what some step appends, as many steps with records being before it as parts. -/
theorem Written.exists_step {place : String → Option Nat} {ss : List Step} {front back : List Part}
    {p : Part} (h : Written place ss (front ++ p :: back)) :
    ∃ f s g, ss = f ++ s :: g ∧ s.Writes place p ∧ f.countP isRecord = front.length := by
  generalize hps : front ++ p :: back = ps at h
  induction h generalizing front with
  | nil => exact absurd hps (by simp)
  | label l _ ih =>
    obtain ⟨f, s, g, rfl, hs, hf⟩ := ih hps
    exact ⟨.label l :: f, s, g, rfl, hs, hf⟩
  | @record s q ss qs hs _ ih =>
    cases front with
    | nil =>
      cases hps
      exact ⟨[], s, ss, rfl, hs, rfl⟩
    | cons r front =>
      obtain ⟨rfl, hqs⟩ := List.cons.inj hps
      obtain ⟨f, t, g, rfl, ht, hf⟩ := ih hqs
      obtain ⟨_, hrecord, -⟩ := hs
      refine ⟨s :: f, t, g, rfl, ht, ?_⟩
      rw [List.countP_cons_of_pos (isRecord_of_record? hrecord), hf, List.length_cons]

theorem recordsBefore_append (l : String) (f g : List Step) :
    recordsBefore l (f ++ g) =
      (recordsBefore l f).or ((recordsBefore l g).map (f.countP isRecord + ·)) := by
  induction f with
  | nil =>
    show recordsBefore l g = _
    cases recordsBefore l g with
    | none => rfl
    | some k =>
      simp only [recordsBefore, Option.none_or, Option.map_some, List.countP_nil, Nat.zero_add]
  | cons s f ih =>
    by_cases hs : s.isRecord = true
    · rw [List.cons_append, recordsBefore_cons hs, recordsBefore_cons hs, ih,
        List.countP_cons_of_pos hs]
      cases recordsBefore l f with
      | some k => rfl
      | none =>
        cases recordsBefore l g with
        | none => rfl
        | some k => simp only [Option.map_some, Option.none_or, Option.map_none, Nat.add_right_comm]
    · cases s with
      | label m =>
        rw [List.countP_cons_of_neg hs]
        simp only [List.cons_append, recordsBefore, ih]
        split <;> rfl
      | _ => exact absurd rfl hs

theorem mem_of_recordsBefore {l : String} {f : List Step} {k : Nat}
    (h : recordsBefore l f = some k) : .label l ∈ f := by
  induction f generalizing k with
  | nil => cases h
  | cons s f ih =>
    by_cases hs : s.isRecord = true
    · rw [recordsBefore_cons hs] at h
      obtain ⟨n, hn, -⟩ := Option.map_eq_some_iff.1 h
      exact List.mem_cons_of_mem _ (ih hn)
    · cases s with
      | label m =>
        simp only [recordsBefore] at h
        split at h
        · next hm => rw [hm]; exact List.mem_cons_self ..
        · exact List.mem_cons_of_mem _ (ih h)
      | _ => exact absurd rfl hs

/-! ### Jumps -/

/-- A record of a jump comes from a step with a label, unless it was appended raw. -/
theorem exists_target_of_isJump {place : String → Option Nat} {s : Step} {n : Int}
    {fields : List Intake.Field} (h : s.record? place = some (n, fields))
    (hraw : s.isRawJump = false) (hjump : (Opcode.ofNumber n.toNat).isJump = true) :
    ∃ l, s.target? = some l := by
  cases s with
  | label => cases h
  | raw number args =>
    obtain ⟨k, hk, h⟩ := Option.bind_eq_some_iff.1 h
    cases h
    rw [isRawJump, hk] at hraw
    have hraw : (Opcode.ofNumber n.toNat).isJump = false := hraw
    rw [hjump] at hraw
    cases hraw
  | jump l | jumpIfTokenIn _ l | jumpIfTokenOut _ l => exact ⟨l, rfl⟩
  | density =>
    obtain ⟨_, -, h⟩ := Option.bind_eq_some_iff.1 h
    cases h
    exact absurd hjump (by decide)
  | _ =>
    cases h
    exact absurd hjump (by decide)

end Step

namespace Instruction

theorem isJump_of_target {op : Opcode} {bs : Bytes} {i : Instruction} {n : Nat}
    (h : parse op bs = .ok i) (hn : i.target? = some n) : op.isJump = true := by
  obtain rfl := (parse_eq_ok h).1
  cases i <;> first | rfl | cases hn

theorem parse_jump {target : Nat} {bs : Bytes} (h : Writer.uint 16 target = .ok bs) :
    parse .jump bs = .ok (.jump target) :=
  parse_self_iff.2 ((spells_plain_iff (i := .jump target) rfl rfl).2 ⟨h, trivial⟩)

theorem tokenAndTarget_eq_ok {target : Nat} {x y : Bytes} (hx : x.length = Address.size)
    (hy : Writer.uint 16 target = .ok y) :
    Reader.whole tokenAndTarget (x ++ y) = .ok (Address.ofBytes x, target) := by
  obtain ⟨hself, haddress⟩ := writesAddress_iff.2 ⟨hx, rfl⟩
  exact (codes_tokenAnd 16 (by decide)).whole_eq_ok_iff.2
    ⟨hself, tokenAnd_eq_ok.2 ⟨x, y, haddress, hy, rfl⟩⟩

end Instruction

namespace Step

open Assembly

theorem fields_of_block {fs : List Intake.Field} {bs : Bytes} (h : Intake.block fs = .ok bs) :
    Intake.fields fs = .ok bs := by
  obtain ⟨x, hx, h⟩ := Outcome.bind_eq_ok.1 h
  rw [← (complete_eq_ok_iff.1 h).1, hx]

theorem fields_cons_eq_ok {f : Intake.Field} {fs : List Intake.Field} {bs : Bytes}
    (h : Intake.fields (f :: fs) = .ok bs) :
    ∃ x y, f.encode = .ok x ∧ Intake.fields fs = .ok y ∧ bs = x ++ y := by
  obtain ⟨x, hx, h⟩ := Outcome.bind_eq_ok.1 h
  obtain ⟨y, hy, h⟩ := Outcome.bind_eq_ok.1 h
  cases h
  exact ⟨x, y, hx, hy, rfl⟩

theorem encode_of_fields_singleton {f : Intake.Field} {bs : Bytes}
    (h : Intake.fields [f] = .ok bs) : f.encode = .ok bs := by
  obtain ⟨x, y, hx, hy, rfl⟩ := fields_cons_eq_ok h
  cases hy
  rwa [List.append_nil]

variable {place : String → Option Nat} {s : Step} {p : Part}

theorem code_of_number {p : Part} {op : Opcode} (hop : op ∈ Opcode.standard)
    (h : (p.1.toNat : Int) = op.number) : Opcode.ofNumber p.1.toNat = op := by
  rw [Int.ofNat_inj.1 h, Opcode.ofNumber_number_standard hop]

/-- What a jump appends. -/
theorem Writes.jump {l : String} (h : (Step.jump l).Writes place p) :
    ∃ target, place l = some target ∧ (p.1.toNat : Int) = Opcode.jump.number ∧
      p.2.length = 16 / 8 ∧
      Instruction.parse (Opcode.ofNumber p.1.toNat) p.2 = .ok (.jump target) := by
  obtain ⟨fields, hrecord, hblock⟩ := h
  obtain ⟨target, hl, hrecord⟩ := Option.bind_eq_some_iff.1 hrecord
  obtain ⟨hcode, rfl⟩ := Prod.mk.inj (Option.some.inj hrecord)
  have hbs : Writer.uint 16 target = .ok p.2 := encode_of_fields_singleton (fields_of_block hblock)
  refine ⟨target, hl, hcode.symm, (occupies_uint 16 target).length _ hbs, ?_⟩
  rw [code_of_number (by decide) hcode.symm, Instruction.parse_jump hbs]

/-- The record of a jump on a condition, with the labels at these places. -/
def tokenJump? (op : Opcode) (token : Datum) (l : String) (place : String → Option Nat) :
    Option (Int × List Intake.Field) := do
  return (op.number, [.address token, .uint 16 (.int (← place l))])

/-- What a jump on a condition appends: its token, and the place of its label. -/
theorem Writes.tokenJump {op : Opcode} {c : String → Nat → Instruction} {token : Datum}
    {l : String} (hop : op ∈ Opcode.standard)
    (hparse : ∀ bs, Instruction.parse op bs =
      Reader.whole Instruction.tokenAndTarget bs >>= fun x => pure (c x.1 x.2))
    (hs : s.record? place = tokenJump? op token l place) (h : s.Writes place p) :
    ∃ target x, place l = some target ∧ (p.1.toNat : Int) = op.number ∧
      Intake.addressField token = .ok x ∧ p.2.length = x.length + 16 / 8 ∧
      Instruction.parse (Opcode.ofNumber p.1.toNat) p.2 = .ok (c (Address.ofBytes x) target) := by
  obtain ⟨fields, hrecord, hblock⟩ := h
  obtain ⟨target, hl, hrecord⟩ := Option.bind_eq_some_iff.1 (hs.symm.trans hrecord)
  obtain ⟨hcode, rfl⟩ := Prod.mk.inj (Option.some.inj hrecord)
  obtain ⟨x, y, hx, hy, hbs⟩ := fields_cons_eq_ok (fields_of_block hblock)
  replace hy : Writer.uint 16 target = .ok y := encode_of_fields_singleton hy
  refine ⟨target, x, hl, hcode.symm, hx, ?_, ?_⟩
  · rw [hbs, List.length_append, (occupies_uint 16 target).length _ hy]
  · rw [code_of_number hop hcode.symm, hparse, hbs,
      Instruction.tokenAndTarget_eq_ok (length_addressField hx) hy]
    rfl

/-- **A jump that a step appends** goes to the place of its label. -/
theorem Writes.target {i : Instruction} {t : Nat} (hs : s.Writes place p)
    (hraw : s.isRawJump = false)
    (hparse : Instruction.parse (Opcode.ofNumber p.1.toNat) p.2 = .ok i)
    (ht : i.target? = some t) : ∃ l, s.target? = some l ∧ place l = some t := by
  obtain ⟨fields, hrecord, hblock⟩ := id hs
  obtain ⟨l, hl⟩ :=
    exists_target_of_isJump hrecord hraw (Instruction.isJump_of_target hparse ht)
  refine ⟨l, hl, ?_⟩
  cases s with
  | jump =>
    cases hl
    obtain ⟨target, hplace, -, -, hjump⟩ := hs.jump
    cases hparse.symm.trans hjump
    cases ht
    exact hplace
  | jumpIfTokenIn =>
    cases hl
    obtain ⟨target, x, hplace, -, -, -, hjump⟩ :=
      hs.tokenJump (c := .jumpIfTokenIn) (by decide) (fun _ => rfl) rfl
    cases hparse.symm.trans hjump
    cases ht
    exact hplace
  | jumpIfTokenOut =>
    cases hl
    obtain ⟨target, x, hplace, -, -, -, hjump⟩ :=
      hs.tokenJump (c := .jumpIfTokenOut) (by decide) (fun _ => rfl) rfl
    cases hparse.symm.trans hjump
    cases ht
    exact hplace
  | _ => cases hl

end Step

namespace Program

/-- A jump that is refused does not go ahead to a place. -/
theorem of_checkRecords_badJump {places : List Nat} {rs : List Record} {pc target : Nat}
    (h : checkRecords places rs = .error (.program (.badJump pc target))) :
    ∃ r ∈ rs, r.pc = pc ∧ (∃ i, r.parse = .ok i ∧ i.target? = some target) ∧
      (target ≤ pc ∨ target ∉ places) := by
  induction rs with
  | nil => cases h
  | cons r rs ih =>
    cases hr : checkRecord places r with
    | ok _ =>
      rw [checkRecords, hr] at h
      obtain ⟨q, hq, hrest⟩ := ih h
      exact ⟨q, List.mem_cons_of_mem _ hq, hrest⟩
    | error f =>
      rw [checkRecords, hr] at h
      cases h
      refine ⟨r, List.mem_cons_self .., ?_⟩
      unfold checkRecord at hr
      cases hparse : r.parse with
      | error g =>
        rw [hparse] at hr
        cases hr
        -- what does not parse are invalid arguments
        cases Instruction.failsWithin_parse _ _ _ hparse
      | ok i =>
        rw [hparse] at hr
        dsimp only [bind, Except.bind] at hr
        split at hr
        · cases hr
        · next t ht =>
          split at hr
          · next hbad =>
            cases hr
            rw [List.contains_iff_mem] at hbad
            exact ⟨rfl, ⟨i, rfl, ht⟩, hbad⟩
          · cases hr

/-- **Validation** refuses a jump of a program that splits into records if it does not go ahead to a
boundary. -/
theorem of_validate_badJump {set : InstructionSet} {bs : Bytes} {pc target : Nat}
    (h : validate set bs = .error (.program (.badJump pc target))) :
    ∃ ps, (∀ p ∈ ps, Fits set p) ∧ bs = spell ps ∧ ∃ r ∈ rows 0 ps, r.pc = pc ∧
      (∃ i, r.parse = .ok i ∧ i.target? = some target) ∧
        (target ≤ pc ∨ target ∉ boundaries (rows 0 ps) bs) := by
  rcases Scan.of_cases set bs with ⟨ps, hps, hbs, hscan⟩ | ⟨ps, rest, f, -, -, hf, hscan⟩
  · refine ⟨ps, hps, hbs, of_checkRecords_badJump ?_⟩
    unfold validate Scan.all Scan.result at h
    rw [hscan] at h
    have h : (checkRecords (boundaries (rows 0 ps) bs) (rows 0 ps) >>= fun _ => pure (rows 0 ps)) =
      .error (.program (.badJump pc target)) := h
    cases hcheck : checkRecords (boundaries (rows 0 ps) bs) (rows 0 ps) with
    | ok _ => rw [hcheck] at h; cases h
    | error g => rw [hcheck] at h; cases h; rfl
  · rw [Scan.validate_of_fault (by rw [hscan])] at h
    cases h
    cases hf

end Program

namespace Assembly

open Step

/-- What an assembly built: its steps append these parts, in which each label stands at the first
record that is appended after it, or at the end; the program splits into these parts and no others,
all places of labels are boundaries, and when none of the jumps was appended raw, a jump that is
refused is one of a step whose label stands before it. -/
structure Built (ss : List Step) (out : Bytes) (ps : List Part) : Prop where
  written : Written (placeIn ss (rows 0 ps) out.length) ss ps
  splits : ∀ qs, Record.program qs = .ok out ↔ qs = ps
  scanned : ∀ set : InstructionSet, (∀ p ∈ ps, p.1.toNat ∈ set.numbers) →
    Scan.of set out = ⟨rows 0 ps, none⟩
  aligned : ∀ l pc, placeIn ss (rows 0 ps) out.length l = some pc →
    pc ∈ Program.boundaries (rows 0 ps) out
  refused : (∀ s ∈ ss, s.isRawJump = false) → ∀ (set : InstructionSet) (pc target : Nat),
    Program.validate set out = .error (.program (.badJump pc target)) →
      ∃ f s g l, ss = f ++ s :: g ∧ s.target? = some l ∧ .label l ∈ f ∧
        pc = landing (rows 0 ps) out.length (f.countP isRecord) ∧
          placeIn ss (rows 0 ps) out.length l = some target ∧ target ≤ pc

theorem landing_mem_boundaries (rs : List Record) (out : Bytes) (k : Nat) :
    landing rs out.length k ∈ Program.boundaries rs out := by
  unfold landing Program.boundaries
  cases hr : rs[k]? with
  | none => exact List.mem_cons_self ..
  | some r => exact List.mem_cons_of_mem _ (List.mem_map_of_mem (List.mem_of_getElem? hr))

theorem aligned_placeIn {ss : List Step} {rs : List Record} {out : Bytes} {l : String} {pc : Nat}
    (h : placeIn ss rs out.length l = some pc) : pc ∈ Program.boundaries rs out := by
  obtain ⟨k, -, rfl⟩ := Option.map_eq_some_iff.1 h
  exact landing_mem_boundaries rs out k

/-- A label whose place is not behind a record is set before the step of the record. -/
theorem label_mem_of_le {f g : List Step} {s : Step} {l : String} {front back : List Part}
    {p : Part} {target : Nat} (hs : s.isRecord = true) (hf : f.countP isRecord = front.length)
    (h : placeIn (f ++ s :: g) (rows 0 (front ++ p :: back)) (spell (front ++ p :: back)).length l =
      some target) (hle : target ≤ (spell front).length) : .label l ∈ f := by
  obtain ⟨k, hk, rfl⟩ := Option.map_eq_some_iff.1 h
  rw [landing_rows] at hle
  rw [recordsBefore_append] at hk
  cases hbefore : recordsBefore l f with
  | some n => exact mem_of_recordsBefore hbefore
  | none =>
    rw [hbefore, Option.none_or, recordsBefore_cons hs, Option.map_map] at hk
    obtain ⟨n, -, rfl⟩ := Option.map_eq_some_iff.1 hk
    have hlt : front.length < f.countP isRecord + (n + 1) := by omega
    exact absurd (length_spell_take_lt hlt) (Nat.not_lt.2 hle)

/-- **Every jump of an assembled program** goes to the first record that is appended after its label,
or to the end, and such a place is a boundary. -/
theorem jumps_land (ss : List Step) (out : Bytes) (h : assemble ss = .ok out) :
    ∃ ps, Built ss out ps := by
  obtain ⟨ps, hwritten, hshort, rfl⟩ := written_of_assemble h
  refine ⟨ps, hwritten, fun qs => program_eq_spell_iff hshort, fun set hset => ?_,
    fun l pc hpc => aligned_placeIn hpc, fun hraw set pc target hvalidate => ?_⟩
  · exact Scan.of_spell fun p hp => ⟨hset p hp, hshort p hp⟩
  · obtain ⟨qs, hqs, hspell, r, hr, rfl, ⟨i, hparse, ht⟩, hbad⟩ :=
      Program.of_validate_badJump hvalidate
    obtain rfl : qs = ps := (program_eq_spell_iff hshort).1
      (program_eq_ok_iff.2 ⟨fun q hq => (hqs q hq).short, hspell⟩)
    obtain ⟨front, p, back, rfl, rfl⟩ := mem_rows_iff.1 hr
    obtain ⟨f, s, g, rfl, hs, hf⟩ := hwritten.exists_step
    have hplain : s.isRawJump = false :=
      hraw s (List.mem_append_right _ (List.mem_cons_self ..))
    obtain ⟨l, hl, hplace⟩ := hs.target hplain hparse ht
    rw [Nat.zero_add] at hbad ⊢
    have hle : target ≤ (spell front).length :=
      hbad.resolve_right fun hnot => hnot (aligned_placeIn hplace)
    obtain ⟨_, hrecord, -⟩ := hs
    refine ⟨f, s, g, l, rfl, hl, label_mem_of_le (isRecord_of_record? hrecord) hf hplace hle, ?_,
      hplace, hle⟩
    rw [landing_rows, hf, List.take_left]
    rfl

/-- A jump over a salt to the end, and behind the salt one back to it. -/
def aheadAndBack : List Step :=
  [.jump "end", .label "salt", .salt (.bytes [7]), .jump "salt", .label "end"]

theorem jumps_land_aheadAndBack :
    assemble aheadAndBack = .ok [1, 2, 0, 11, 8, 1, 7, 1, 2, 0, 4] ∧
      Built aheadAndBack [1, 2, 0, 11, 8, 1, 7, 1, 2, 0, 4]
        [(1, [0, 11]), (8, [7]), (1, [0, 4])] := by
  have hassemble : assemble aheadAndBack = .ok [1, 2, 0, 11, 8, 1, 7, 1, 2, 0, 4] :=
    Outcome.eq_ok_of_toOption (by decide +kernel)
  obtain ⟨ps, hbuilt⟩ := jumps_land aheadAndBack _ hassemble
  obtain rfl := (hbuilt.splits [(1, [0, 11]), (8, [7]), (1, [0, 4])]).1
    (Outcome.eq_ok_of_toOption (by decide +kernel))
  exact ⟨hassemble, hbuilt⟩

end Assembly

end SwapMachine
