import SwapMachine.Program.Assembly
import SwapMachine.Proofs.ArgumentBlock
import SwapMachine.Proofs.RecordGrammar

/-!
# SwapMachine.Proofs.Labels — the records that the steps of an assembly make

A step says which opcode and which fields its record has, once the places of the labels are known;
a label stands at the first record that is appended after it.

* `Step.record?`, `Step.placeIn`: this, said without an assembly.
* `Assembly.step_cases`: what a step does to an assembly, `Assembly.adds_of_steps`: what a run of
  steps does.  The sizes that labels are counted in are those of the records that are built
  (`length_of_resolve`), whether a label was set before its jumps or after them.
* `Assembly.written_of_assemble`: the program that is built is spelled from the records of the steps.
-/

namespace SwapMachine

open Block Record

namespace Step

/-- The step appends a record. -/
def isRecord : Step → Bool
  | label _ => false
  | _ => true

/-- The opcode number and the fields of the record that a step appends, with the labels at these
places. -/
def record? (place : String → Option Nat) : Step → Option (Int × List Intake.Field)
  | raw number args => do return (← number.whole?, [.raw args])
  | label _ => none
  | jump l => do return (Opcode.jump.number, [.uint 16 (.int (← place l))])
  | jumpIfTokenIn token l => do
    return (Opcode.jumpIfTokenIn.number, [.address token, .uint 16 (.int (← place l))])
  | jumpIfTokenOut token l => do
    return (Opcode.jumpIfTokenOut.number, [.address token, .uint 16 (.int (← place l))])
  | deadline time => some (Opcode.deadline.number, [.uint 64 time])
  | takerHolds token => some (Opcode.takerHolds.number, [.address token])
  | takerHoldsAtLeast token minimum =>
    some (Opcode.takerHoldsAtLeast.number, [.address token, .uint 256 minimum])
  | takerShareAtLeast token minimum =>
    some (Opcode.takerShareAtLeast.number, [.address token, .uint 256 minimum])
  | salt bytes => some (Opcode.salt.number, [.raw bytes])
  | staticBalances entries => some (Opcode.staticBalances.number, [.balances entries])
  | dynamicBalances entries => some (Opcode.dynamicBalances.number, [.balances entries])
  | decay period => some (Opcode.decay.number, [.uint 32 period])
  | concentrate tokenA deltaA tokenB deltaB liquidity =>
    some (Opcode.concentrate.number, [.address tokenA, .uint 256 deltaA, .address tokenB,
      .uint 256 deltaB, .uint 256 liquidity])
  | flatFeeIn fee => some (Opcode.flatFeeIn.number, [.uint 16 fee])
  | flatFeeOut fee => some (Opcode.flatFeeOut.number, [.uint 16 fee])
  | dynamicFeeIn source => some (Opcode.dynamicFeeIn.number, [.address source])
  | constantProduct alpha => some (Opcode.constantProduct.number, [.uint 64 alpha])
  | pegged rate => some (Opcode.pegged.number, [.uint 256 rate])
  | density capacity basePrice strength shape spread => do
    let shape ← (Intake.numeral "shape" shape).toOption
    return (Opcode.density.number, [.uint 256 capacity, .uint 256 basePrice, .uint 256 strength,
      .uint 8 (.int shape), .uint 16 spread])

/-- The part is what the step appends. -/
def Writes (place : String → Option Nat) (s : Step) (p : Part) : Prop :=
  ∃ fields, s.record? place = some ((p.1.toNat : Int), fields) ∧ Intake.block fields = .ok p.2

/-- The parts are what the steps append, labels appending nothing. -/
inductive Written (place : String → Option Nat) : List Step → List Part → Prop
  | nil : Written place [] []
  | label (l : String) {ss : List Step} {ps : List Part} (h : Written place ss ps) :
    Written place (.label l :: ss) ps
  | record {s : Step} {p : Part} {ss : List Step} {ps : List Part} (hs : s.Writes place p)
    (h : Written place ss ps) : Written place (s :: ss) (p :: ps)

/-- How many records are appended before a label. -/
def recordsBefore (l : String) : List Step → Option Nat
  | [] => none
  | s :: ss =>
    match s with
    | label m => if m = l then some 0 else recordsBefore l ss
    | _ => (recordsBefore l ss).map (· + 1)

/-- The place of the record with so many before it, or else the end. -/
def landing (rs : List Record) (stop : Nat) (k : Nat) : Nat := (rs[k]?.map Record.pc).getD stop

/-- The place of a label in the records that the steps append. -/
def placeIn (ss : List Step) (rs : List Record) (stop : Nat) (l : String) : Option Nat :=
  (recordsBefore l ss).map (landing rs stop)

theorem recordsBefore_cons {s : Step} (h : s.isRecord = true) (l : String) (ss : List Step) :
    recordsBefore l (s :: ss) = (recordsBefore l ss).map (· + 1) := by
  cases s <;> first | rfl | cases h

end Step

namespace Record

theorem getElem?_rows (pc : Nat) (ps : List Part) (k : Nat) :
    (rows pc ps)[k]? = ps[k]?.map (row (pc + (spell (ps.take k)).length)) := by
  induction ps generalizing pc k with
  | nil => rfl
  | cons p ps ih =>
    cases k with
    | zero => rfl
    | succ k =>
      rw [rows, List.getElem?_cons_succ, ih, next_row, List.getElem?_cons_succ, List.take_succ_cons,
        spell, List.length_append, Nat.add_assoc]

/-- A label that stands behind so many records is at the end of their spelling. -/
theorem landing_rows (ps : List Part) (k : Nat) :
    Step.landing (rows 0 ps) (spell ps).length k = (spell (ps.take k)).length := by
  rw [Step.landing, getElem?_rows, Nat.zero_add]
  by_cases hk : k < ps.length
  · rw [List.getElem?_eq_getElem hk]
    rfl
  · rw [List.getElem?_eq_none (Nat.le_of_not_lt hk), List.take_of_length_le (Nat.le_of_not_lt hk)]
    rfl

end Record

namespace Assembly

/-! ### Operands and the bytes they become -/

theorem place_eq_ok_iff {b : Assembly} {l : String} {pc : Nat} :
    b.place l = .ok pc ↔ b.labels.lookup l = some pc := by
  unfold place
  cases b.labels.lookup l with
  | none => exact iff_of_false (fun h => by cases h) fun h => by cases h
  | some n => exact ⟨fun h => congrArg some (Except.ok.inj h), fun h => by rw [Option.some.inj h]⟩

theorem complete_eq_ok_iff {x bs : Bytes} :
    Writer.complete x = .ok bs ↔ x = bs ∧ bs.length ≤ Writer.maxSize := by
  unfold Writer.complete
  split
  · exact iff_of_false (fun h => by cases h) fun h => by obtain ⟨rfl, h⟩ := h; omega
  · refine ⟨fun h => ?_, fun h => congrArg _ h.1⟩
    cases h
    exact ⟨rfl, by omega⟩

theorem length_addressField {token : Datum} {bs : Bytes} (h : Intake.addressField token = .ok bs) :
    bs.length = Address.size :=
  Address.length_of_datumBytes (Outcome.ofHex_eq_ok_iff.1 h)

/-- The operands take as many bytes as were set aside for them. -/
theorem length_of_resolve {b : Assembly} {o : Operands} {args : Bytes}
    (h : b.resolve o = .ok args) : args.length = o.size := by
  cases o with
  | bytes bs => cases h; rfl
  | target l =>
    obtain ⟨pc, -, h⟩ := Outcome.bind_eq_ok.1 h
    obtain ⟨x, hx, h⟩ := Outcome.bind_eq_ok.1 h
    obtain ⟨rfl, -⟩ := complete_eq_ok_iff.1 h
    exact (occupies_uint 16 pc).length _ hx
  | tokenTarget token l =>
    obtain ⟨pc, -, h⟩ := Outcome.bind_eq_ok.1 h
    obtain ⟨x, hx, h⟩ := Outcome.bind_eq_ok.1 h
    obtain ⟨rfl, -⟩ := complete_eq_ok_iff.1 h
    obtain ⟨u, hu, hx⟩ := Outcome.bind_eq_ok.1 hx
    obtain ⟨v, hv, hx⟩ := Outcome.bind_eq_ok.1 hx
    cases hx
    rw [List.length_append, length_addressField hu, (occupies_uint 16 pc).length _ hv]
    rfl

theorem fields_cons {f : Intake.Field} {fs : List Intake.Field} {x y : Bytes}
    (hf : f.encode = .ok x) (hfs : Intake.fields fs = .ok y) :
    Intake.fields (f :: fs) = .ok (x ++ y) := by
  rw [Intake.fields, hf, hfs]
  rfl

theorem fields_singleton {f : Intake.Field} {x : Bytes} (hf : f.encode = .ok x) :
    Intake.fields [f] = .ok x := by
  rw [fields_cons hf rfl, List.append_nil]

theorem fields_pair {token number : Intake.Field} {x y : Bytes} (hx : token.encode = .ok x)
    (hy : number.encode = .ok y) : Intake.fields [token, number] = .ok (x ++ y) :=
  fields_cons hx (fields_singleton hy)

theorem tokenAnd_eq_ok {token value : Datum} {bits : Int} {bs : Bytes}
    (h : tokenAnd token bits value = .ok bs) : ∃ x y, Intake.addressField token = .ok x ∧
      Intake.uintField bits value = .ok y ∧ bs = x ++ y := by
  obtain ⟨x, hx, h⟩ := Outcome.bind_eq_ok.1 h
  obtain ⟨y, hy, h⟩ := Outcome.bind_eq_ok.1 h
  cases h
  exact ⟨x, y, hx, hy, rfl⟩

theorem fields_of_tokenAnd {token value : Datum} {bits : Int} {bs : Bytes}
    (h : tokenAnd token bits value = .ok bs) :
    Intake.fields [.address token, .uint bits value] = .ok bs := by
  obtain ⟨x, y, hx, hy, rfl⟩ := tokenAnd_eq_ok h
  exact fields_pair hx hy

theorem fields_of_concentration {tokenA deltaA tokenB deltaB liquidity : Datum} {bs : Bytes}
    (h : concentrationFields tokenA deltaA tokenB deltaB liquidity = .ok bs) :
    Intake.fields [.address tokenA, .uint 256 deltaA, .address tokenB, .uint 256 deltaB,
      .uint 256 liquidity] = .ok bs := by
  obtain ⟨_, ha, h⟩ := Outcome.bind_eq_ok.1 h
  obtain ⟨_, hb, h⟩ := Outcome.bind_eq_ok.1 h
  obtain ⟨z, hz, h⟩ := Outcome.bind_eq_ok.1 h
  cases h
  obtain ⟨x, y, hx, hy, rfl⟩ := tokenAnd_eq_ok ha
  obtain ⟨u, v, hu, hv, rfl⟩ := tokenAnd_eq_ok hb
  refine Eq.trans (fields_cons hx (fields_cons hy (fields_cons hu (fields_cons hv
    (fields_singleton hz))))) ?_
  simp only [List.append_assoc]

theorem fields_of_density {capacity basePrice strength shape spread : Datum} {bs : Bytes}
    (h : densityFields capacity basePrice strength shape spread = .ok bs) :
    ∃ n, Intake.numeral "shape" shape = .ok n ∧ Intake.fields [.uint 256 capacity,
      .uint 256 basePrice, .uint 256 strength, .uint 8 (.int n), .uint 16 spread] = .ok bs := by
  obtain ⟨x, hx, h⟩ := Outcome.bind_eq_ok.1 h
  obtain ⟨y, hy, h⟩ := Outcome.bind_eq_ok.1 h
  obtain ⟨z, hz, h⟩ := Outcome.bind_eq_ok.1 h
  obtain ⟨n, hn, h⟩ := Outcome.bind_eq_ok.1 h
  obtain ⟨u, hu, h⟩ := Outcome.bind_eq_ok.1 h
  obtain ⟨v, hv, h⟩ := Outcome.bind_eq_ok.1 h
  cases h
  refine ⟨n, hn, ?_⟩
  refine Eq.trans (fields_cons hx (fields_cons hy (fields_cons hz (fields_cons hu
    (fields_singleton hv))))) ?_
  simp only [List.append_assoc]

theorem block_of_fields {fs : List Intake.Field} {bs : Bytes} (h : Intake.fields fs = .ok bs)
    (hle : bs.length ≤ 255) : Intake.block fs = .ok bs := by
  rw [Intake.block, h]
  exact complete_eq_ok_iff.2 ⟨rfl, hle⟩

/-! ### What a step does -/

/-- A record is written for a byte and not more than 255 argument bytes. -/
theorem encode_eq_ok {number : Datum} {args r : Bytes} (h : encode number args = .ok r) :
    ∃ code : UInt8, number.whole? = some (code.toNat : Int) ∧ args.length ≤ 255 ∧
      r = bytesOf (code, args) := by
  have hint : ∀ n : Int, Record.encode n args = .ok r →
      ∃ code : UInt8, n = code.toNat ∧ args.length ≤ 255 ∧ r = bytesOf (code, args) := by
    intro n h
    have hrange : 0 ≤ n ∧ n ≤ 255 := by
      obtain ⟨_, hheader, -⟩ := Outcome.bind_eq_ok.1 h
      obtain ⟨_, hnumber, -⟩ := Outcome.bind_eq_ok.1 hheader
      unfold requireNumber at hnumber
      split at hnumber
      · assumption
      · cases hnumber
    have hn : n = (UInt8.ofNat n.toNat).toNat := by
      rw [UInt8.toNat_ofNat_of_lt' (by show _ < 256; omega)]
      omega
    rw [hn, encode_eq_ok_iff (p := (UInt8.ofNat n.toNat, args))] at h
    exact ⟨_, hn, h.1, h.2⟩
  unfold encode at h
  split at h
  · next n =>
    obtain ⟨code, rfl, hle, hr⟩ := hint _ h
    exact ⟨code, rfl, hle, hr⟩
  · next b =>
    obtain ⟨code, hcode, hle, hr⟩ := hint _ h
    exact ⟨code, congrArg some hcode, hle, hr⟩
  · split at h
    · cases h
    · split at h <;> cases h

/-- Wherever the item is built, it is written as what the step appends, in the size that was set
aside for it. -/
def Appends (s : Step) (item : Item) : Prop :=
  ∀ (b : Assembly) (args r : Bytes), b.resolve item.operands = .ok args →
    encode item.number args = .ok r → ∃ p : Part, s.Writes (fun l => b.labels.lookup l) p ∧
      p.2.length ≤ 255 ∧ p.2.length = item.operands.size ∧ r = bytesOf p

theorem appends_of_block {s : Step} {number : Datum} {operands : Operands}
    (h : ∀ (b : Assembly) (args : Bytes), b.resolve operands = .ok args → args.length ≤ 255 →
      ∃ fields, Intake.block fields = .ok args ∧ ∀ n, number.whole? = some n →
        s.record? (fun l => b.labels.lookup l) = some (n, fields)) :
    Appends s ⟨number, operands⟩ := by
  intro b args r hresolve hencode
  obtain ⟨code, hcode, hle, hr⟩ := encode_eq_ok hencode
  obtain ⟨fields, hblock, hrecord⟩ := h b args hresolve hle
  exact ⟨(code, args), ⟨fields, hrecord _ hcode, hblock⟩, hle, length_of_resolve hresolve, hr⟩

/-- An item of bytes that are the fields of the step. -/
theorem appends_of_fields {s : Step} {number : Datum} (fields : List Intake.Field) {bs : Bytes}
    (hbs : Intake.fields fields = .ok bs)
    (h : ∀ place n, number.whole? = some n → s.record? place = some (n, fields)) :
    Appends s ⟨number, .bytes bs⟩ := by
  refine appends_of_block fun b args hresolve hle => ?_
  cases hresolve
  exact ⟨fields, block_of_fields hbs hle, fun n hn => h _ n hn⟩

/-- The fields of a jump are known once the place of its label is. -/
theorem appends_of_target {s : Step} {op : Opcode} {l : String}
    (h : ∀ (place : String → Option Nat) (pc : Nat), place l = some pc →
      s.record? place = some ((op.number : Int), [.uint 16 (.int pc)])) :
    Appends s ⟨.int op.number, .target l⟩ := by
  refine appends_of_block fun b args hresolve hle => ?_
  obtain ⟨pc, hpc, hresolve⟩ := Outcome.bind_eq_ok.1 hresolve
  obtain ⟨x, hx, hresolve⟩ := Outcome.bind_eq_ok.1 hresolve
  obtain ⟨rfl, -⟩ := complete_eq_ok_iff.1 hresolve
  refine ⟨[.uint 16 (.int pc)], block_of_fields (fields_singleton hx) hle, fun n hn => ?_⟩
  cases hn
  exact h _ pc (place_eq_ok_iff.1 hpc)

theorem appends_of_tokenTarget {s : Step} {op : Opcode} {token : Datum} {l : String}
    (h : ∀ (place : String → Option Nat) (pc : Nat), place l = some pc →
      s.record? place = some ((op.number : Int), [.address token, .uint 16 (.int pc)])) :
    Appends s ⟨.int op.number, .tokenTarget token l⟩ := by
  refine appends_of_block fun b args hresolve hle => ?_
  obtain ⟨pc, hpc, hresolve⟩ := Outcome.bind_eq_ok.1 hresolve
  obtain ⟨x, hx, hresolve⟩ := Outcome.bind_eq_ok.1 hresolve
  obtain ⟨rfl, -⟩ := complete_eq_ok_iff.1 hresolve
  refine ⟨_, block_of_fields (fields_of_tokenAnd hx) hle, fun n hn => ?_⟩
  cases hn
  exact h _ pc (place_eq_ok_iff.1 hpc)

theorem appendFields_eq_ok {a a' : Assembly} {op : Opcode} {x : Outcome Bytes}
    (h : a.appendFields op x = .ok a') :
    ∃ bs, x = .ok bs ∧ a' = a.append (.int op.number) (.bytes bs) := by
  obtain ⟨bs, hbs, h⟩ := Outcome.bind_eq_ok.1 h
  obtain ⟨bs', hcomplete, h⟩ := Outcome.bind_eq_ok.1 h
  obtain ⟨rfl, -⟩ := complete_eq_ok_iff.1 hcomplete
  exact ⟨bs, hbs, (Outcome.pure_eq_ok.1 h).symm⟩

/-- **A step** sets a new label at the size reached, or appends an item that is written as its
record. -/
theorem step_cases {a a' : Assembly} {s : Step} (h : a.step s = .ok a') :
    (∃ l, s = .label l ∧ a.labels.lookup l = none ∧
      a' = { a with labels := (l, a.size) :: a.labels }) ∨
    s.isRecord = true ∧ ∃ number operands, Appends s ⟨number, operands⟩ ∧
      a' = a.append number operands := by
  have hfields : ∀ {op : Opcode} {x : Outcome Bytes} {fields : List Intake.Field},
      a.appendFields op x = .ok a' → (∀ place, s.record? place = some ((op.number : Int), fields)) →
      (∀ bs, x = .ok bs → Intake.fields fields = .ok bs) →
      ∃ number operands, Appends s ⟨number, operands⟩ ∧ a' = a.append number operands := by
    intro op x fields h hs hx
    obtain ⟨bs, hbs, rfl⟩ := appendFields_eq_ok h
    refine ⟨_, _, appends_of_fields fields (hx bs hbs) fun place n hn => ?_, rfl⟩
    cases hn
    exact hs place
  cases s with
  | label l =>
    refine Or.inl ⟨l, rfl, ?_⟩
    simp only [step] at h
    split at h
    · cases h
    · next hnew =>
      rw [Option.not_isSome_iff_eq_none] at hnew
      exact ⟨hnew, (Except.ok.inj h).symm⟩
  | raw number args =>
    obtain ⟨bs, hbs, h⟩ := Outcome.bind_eq_ok.1 h
    obtain ⟨_, -, h⟩ := Outcome.bind_eq_ok.1 h
    cases h
    refine Or.inr ⟨rfl, _, _, appends_of_fields [.raw args] (fields_singleton hbs)
      fun place n hn => ?_, rfl⟩
    rw [Step.record?, hn]
    rfl
  | salt bytes =>
    obtain ⟨bs, hbs, h⟩ := Outcome.bind_eq_ok.1 h
    cases h
    refine Or.inr ⟨rfl, _, _, appends_of_fields [.raw bytes] (fields_singleton hbs)
      fun place n hn => ?_, rfl⟩
    cases hn
    rfl
  | jump l =>
    refine Or.inr ⟨rfl, _, _, appends_of_target fun place pc hpc => ?_, (Except.ok.inj h).symm⟩
    rw [Step.record?, hpc]
    rfl
  | jumpIfTokenIn token l | jumpIfTokenOut token l =>
    refine Or.inr ⟨rfl, _, _, appends_of_tokenTarget fun place pc hpc => ?_,
      (Except.ok.inj h).symm⟩
    rw [Step.record?, hpc]
    rfl
  | deadline | takerHolds | staticBalances | dynamicBalances | decay | flatFeeIn | flatFeeOut
  | dynamicFeeIn | constantProduct | pegged =>
    exact Or.inr ⟨rfl, hfields h (fun _ => rfl) fun _ h => fields_singleton h⟩
  | takerHoldsAtLeast | takerShareAtLeast =>
    exact Or.inr ⟨rfl, hfields h (fun _ => rfl) fun _ h => fields_of_tokenAnd h⟩
  | concentrate =>
    exact Or.inr ⟨rfl, hfields h (fun _ => rfl) fun _ h => fields_of_concentration h⟩
  | density capacity basePrice strength shape spread =>
    obtain ⟨bs, hbs, rfl⟩ := appendFields_eq_ok h
    obtain ⟨k, hk, hfs⟩ := fields_of_density hbs
    refine Or.inr ⟨rfl, _, _, appends_of_fields _ hfs fun place n hn => ?_, rfl⟩
    cases hn
    rw [Step.record?, hk]
    rfl

/-! ### What a run of steps does -/

/-- The bytes that items take, headers included. -/
def extent : List Item → Nat
  | [] => 0
  | item :: items => headerSize + item.operands.size + extent items

/-- The items are what the steps append, labels appending nothing. -/
inductive Appended : List Step → List Item → Prop
  | nil : Appended [] []
  | label (l : String) {ss : List Step} {items : List Item} (h : Appended ss items) :
    Appended (.label l :: ss) items
  | item {s : Step} {item : Item} {ss : List Step} {items : List Item} (hs : Appends s item)
    (h : Appended ss items) : Appended (s :: ss) (item :: items)

/-- What a run of steps adds to an assembly: items, and labels that stand behind the items appended
before them. -/
structure Adds (a : Assembly) (ss : List Step) (b : Assembly) (added : List Item) : Prop where
  items : b.items = a.items ++ added
  appended : Appended ss added
  labels : ∀ l, b.labels.lookup l =
    ((Step.recordsBefore l ss).map fun k => a.size + extent (added.take k)).or (a.labels.lookup l)
  fresh : ∀ l, (a.labels.lookup l).isSome → Step.recordsBefore l ss = none

theorem lookup_cons_label {l m : String} {pc : Nat} {labels : List (String × Nat)} :
    ((m, pc) :: labels).lookup l = if m = l then some pc else labels.lookup l := by
  by_cases h : m = l
  · rw [if_pos h, h, List.lookup_cons_self]
  · have hne : (l == m) = false := by simpa using fun heq => h heq.symm
    rw [if_neg h, List.lookup_cons, hne]

theorem Adds.label {a b : Assembly} {l : String} {ss : List Step} {items : List Item}
    (hnew : a.labels.lookup l = none)
    (h : Adds { a with labels := (l, a.size) :: a.labels } ss b items) :
    Adds a (.label l :: ss) b items := by
  have hl : Step.recordsBefore l ss = none := h.fresh l (by
    rw [lookup_cons_label, if_pos rfl]
    rfl)
  refine ⟨h.items, .label l h.appended, fun m => ?_, fun m hm => ?_⟩
  · have hlabels := h.labels m
    rw [lookup_cons_label] at hlabels
    rw [Step.recordsBefore, hlabels]
    by_cases heq : l = m
    · subst heq
      rw [hl, if_pos rfl, if_pos rfl]
      rfl
    · rw [if_neg heq, if_neg heq]
  · have hne : l ≠ m := by
      rintro rfl
      rw [hnew] at hm
      cases hm
    have hfresh := h.fresh m
    rw [lookup_cons_label, if_neg hne] at hfresh
    rw [Step.recordsBefore, if_neg hne]
    exact hfresh hm

theorem Adds.item {a b : Assembly} {s : Step} {number : Datum} {operands : Operands}
    {ss : List Step} {items : List Item} (hrecord : s.isRecord = true)
    (hs : Appends s ⟨number, operands⟩) (h : Adds (a.append number operands) ss b items) :
    Adds a (s :: ss) b (⟨number, operands⟩ :: items) := by
  refine ⟨?_, .item hs h.appended, fun l => ?_, fun l hl => ?_⟩
  · rw [h.items, append, List.append_assoc]
    rfl
  · rw [h.labels l, Step.recordsBefore_cons hrecord]
    cases Step.recordsBefore l ss with
    | none => rfl
    | some k =>
      simp only [Option.map_some, List.take_succ_cons, extent, append, Nat.add_assoc]
  · rw [Step.recordsBefore_cons hrecord, h.fresh l hl]
    rfl

/-- **Steps** add the items of their records and set their labels behind them. -/
theorem adds_of_steps {a b : Assembly} {ss : List Step} (h : a.steps ss = .ok b) :
    ∃ items, Adds a ss b items := by
  induction ss generalizing a with
  | nil =>
    cases h
    exact ⟨[], (List.append_nil _).symm, .nil, fun _ => rfl, fun _ _ => rfl⟩
  | cons s ss ih =>
    obtain ⟨a', hstep, h⟩ := Outcome.bind_eq_ok.1 h
    obtain ⟨items, hadds⟩ := ih h
    obtain ⟨l, rfl, hnew, rfl⟩ | ⟨hrecord, number, operands, hs, rfl⟩ := step_cases hstep
    · exact ⟨items, hadds.label hnew⟩
    · exact ⟨_, hadds.item hrecord hs⟩

/-! ### What is built -/

/-- The parts are what the steps append, each as long as was set aside for it. -/
theorem written_of_records {b : Assembly} {ss : List Step} {items : List Item} {out : Bytes}
    (happended : Appended ss items) (h : b.records items = .ok out) :
    ∃ ps, Step.Written (fun l => b.labels.lookup l) ss ps ∧ (∀ p ∈ ps, p.2.length ≤ 255) ∧
      (∀ k, (spell (ps.take k)).length = extent (items.take k)) ∧ out = spell ps := by
  induction happended generalizing out with
  | nil =>
    cases h
    refine ⟨[], .nil, fun _ h => absurd h List.not_mem_nil, fun k => ?_, rfl⟩
    rw [List.take_nil, List.take_nil]
    rfl
  | label l _ ih =>
    obtain ⟨ps, hps, hrest⟩ := ih h
    exact ⟨ps, .label l hps, hrest⟩
  | item hs _ ih =>
    obtain ⟨args, hargs, h⟩ := Outcome.bind_eq_ok.1 h
    obtain ⟨r, hr, h⟩ := Outcome.bind_eq_ok.1 h
    obtain ⟨rest, hrest, h⟩ := Outcome.bind_eq_ok.1 h
    cases h
    obtain ⟨ps, hps, hshort, hsize, rfl⟩ := ih hrest
    obtain ⟨p, hp, hle, hlen, rfl⟩ := hs b args r hargs hr
    refine ⟨p :: ps, .record hp hps, List.forall_mem_cons.2 ⟨hle, hshort⟩, fun k => ?_, rfl⟩
    cases k with
    | zero => rfl
    | succ k =>
      rw [List.take_succ_cons, List.take_succ_cons, spell, List.length_append, length_bytesOf, hlen,
        hsize, extent]

/-- **A program that is built** is spelled from the records of its steps, their labels being at the
records that are appended next. -/
theorem written_of_assemble {ss : List Step} {out : Bytes} (h : assemble ss = .ok out) :
    ∃ ps, Step.Written (Step.placeIn ss (rows 0 ps) out.length) ss ps ∧
      (∀ p ∈ ps, p.2.length ≤ 255) ∧ out = spell ps := by
  obtain ⟨b, hb, h⟩ := Outcome.bind_eq_ok.1 h
  obtain ⟨items, hadds⟩ := adds_of_steps hb
  have hitems : b.items = items := hadds.items
  rw [build, hitems] at h
  obtain ⟨ps, hps, hshort, hsize, rfl⟩ := written_of_records hadds.appended h
  refine ⟨ps, ?_, hshort, rfl⟩
  have hplace : (fun l => b.labels.lookup l) =
      Step.placeIn ss (rows 0 ps) (spell ps).length := by
    funext l
    rw [hadds.labels l, Step.placeIn]
    cases Step.recordsBefore l ss with
    | none => rfl
    | some k =>
      simp only [Option.map_some, Option.some_or, landing_rows, hsize, empty, Nat.zero_add]
  rwa [hplace] at hps

end Assembly

end SwapMachine
