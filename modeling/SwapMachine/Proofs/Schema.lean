import SwapMachine.Block.Cursor
import SwapMachine.Intake.Field
import SwapMachine.Proofs.ArgumentBlock

/-!
# SwapMachine.Proofs.Schema — reading a block of any fields back

A schema is a row of slots, and its values are read at a cursor one after another. What the cursor
does is what a reader of the bytes that are left does, and for the readers the rules of `Codes` are
there; so each slot is settled once, and rows of slots by induction.

* `Follows`: an action at a cursor does what a reader does to the bytes behind it.
* `Content.Spells`: the value of a slot is canonical and valid, and these bytes are written for it.
* `parseAll_of_written`, `written_of_parseAll`: the values that are read off bytes are those that
  are written as them, byte strings standing last.
* `readBlock_inverts_block`: writing and reading are inverse, and a read that fails takes nothing.
-/

namespace SwapMachine.Block

open Instruction

/-! ### Cursors and the bytes behind them -/

/-- A cursor in front of the last bytes. -/
def Cursor.before (front left : Bytes) : Cursor := ⟨front ++ left, front.length⟩

theorem Slice.between_natCast (bytes : Bytes) (start stop : Nat) :
    Slice.between bytes start stop = (bytes.take stop).drop start := by
  have hfront : ∀ n : Nat, Slice.fromFront bytes n = n := fun n =>
    if_neg (Int.not_lt.2 (Int.natCast_nonneg n))
  simp only [Slice.between, hfront, Int.toNat_natCast]

theorem Slice.between_append (front taken left : Bytes) :
    Slice.between (front ++ taken ++ left) front.length (front.length + taken.length) = taken := by
  have hbetween := between_natCast (front ++ taken ++ left) front.length
    (front ++ taken).length
  rwa [List.take_left, List.drop_left, List.length_append, Int.natCast_add] at hbetween

section Following

variable {α β : Type} {s : Seeker α} {r : Reader α}

/-- At a cursor the one gives what the other gives on the bytes behind it, and afterwards the cursor
stands where these have been taken off. -/
def Follows (s : Seeker α) (r : Reader α) : Prop :=
  ∀ front bs : Bytes, ∃ outcome taken left, bs = taken ++ left ∧ r.run.run bs = (outcome, left) ∧
    s.run.run (.before front bs) = (outcome, .before (front ++ taken) left)

theorem Seeker.run_bind (s : Seeker α) (f : α → Seeker β) (c : Cursor) :
    (s >>= f).run.run c = match s.run.run c with
      | (.ok a, c') => (f a).run.run c'
      | (.error e, c') => (.error e, c') := by
  show (ExceptT.bindCont f (s.run.run c).1).run (s.run.run c).2 = _
  rcases s.run.run c with ⟨e | a, c'⟩ <;> rfl

theorem follows_pure (a : α) : Follows (pure a) (pure a) := by
  intro front bs
  exact ⟨.ok a, [], bs, rfl, rfl, by rw [List.append_nil]; rfl⟩

theorem follows_throw (e : Fault) : Follows (throw e : Seeker α) (throw e) := by
  intro front bs
  exact ⟨.error e, [], bs, rfl, rfl, by rw [List.append_nil]; rfl⟩

theorem Follows.bind {f : α → Seeker β} {g : α → Reader β} (h : Follows s r)
    (hf : ∀ a, Follows (f a) (g a)) : Follows (s >>= f) (r >>= g) := by
  intro front bs
  obtain ⟨outcome, taken, left, rfl, hr, hs⟩ := h front bs
  cases outcome with
  | error e =>
    refine ⟨.error e, taken, left, rfl, ?_, ?_⟩
    · rw [Block.run_bind, hr]
    · rw [Seeker.run_bind, hs]
  | ok a =>
    obtain ⟨outcome, taken', left', rfl, hg, hf⟩ := hf a (front ++ taken) left
    refine ⟨outcome, taken ++ taken', left', (List.append_assoc ..).symm, ?_, ?_⟩
    · rw [Block.run_bind, hr]
      exact hg
    · rw [Seeker.run_bind, hs, ← List.append_assoc]
      exact hf

theorem Follows.ite {c : Prop} [Decidable c] {s' : Seeker α} {r' : Reader α} (h : Follows s r)
    (h' : Follows s' r') : Follows (if c then s else s') (if c then r else r') := by
  by_cases hc : c
  · rw [if_pos hc, if_pos hc]
    exact h
  · rw [if_neg hc, if_neg hc]
    exact h'

end Following

/-! ### Fields at a cursor -/

theorem Seeker.run_take (count : Int) (what : String) (c : Cursor) :
    (Seeker.take count what).run.run c =
      if c.bytes.length - c.place < count then
        (.error (.block (.truncated what count (c.bytes.length - c.place))), c)
      else (.ok (Slice.between c.bytes c.place (c.place + count)),
        { c with place := c.place + count }) := by
  show (if c.bytes.length - c.place < count then _ else _ : Seeker Bytes).run.run c = _
  split <;> rfl

theorem follows_take (count : Nat) (what : String) :
    Follows (Seeker.take count what) (Reader.take count what) := by
  intro front bs
  have hleft : ((Cursor.before front bs).bytes.length : Int) - (Cursor.before front bs).place =
      bs.length := by
    simp only [Cursor.before, List.length_append]
    omega
  rw [Reader.run_take, Seeker.run_take, hleft]
  by_cases h : bs.length < count
  · rw [if_pos h, if_pos (Int.ofNat_lt.2 h)]
    exact ⟨_, [], bs, rfl, rfl, by rw [List.append_nil]⟩
  · rw [if_neg h, if_neg fun hlt => h (Int.ofNat_lt.1 hlt)]
    have hcount : (bs.take count).length = count := by
      rw [List.length_take]
      omega
    have hbetween := Slice.between_append front (bs.take count) (bs.drop count)
    rw [hcount, List.append_assoc, List.take_append_drop] at hbetween
    refine ⟨.ok (bs.take count), bs.take count, bs.drop count, (List.take_append_drop ..).symm,
      rfl, ?_⟩
    simp only [Cursor.before, List.append_assoc, List.take_append_drop, List.length_append,
      Int.natCast_add, hcount, hbetween]

theorem follows_uint (width : Nat) :
    Follows (Seeker.uint (8 * width : Nat)) (Reader.uint (8 * width)) := by
  have hwidth : Int.fdiv ((8 * width : Nat) : Int) 8 = (width : Nat) := by
    rw [Int.fdiv_eq_ediv_of_nonneg _ (by decide)]
    omega
  unfold Seeker.uint Reader.uint
  rw [hwidth, Nat.mul_div_cancel_left width (by decide)]
  exact (follows_take width _).bind fun bs => follows_pure (Number.ofBytes bs)

theorem follows_address : Follows Seeker.address Reader.address := by
  intro front bs
  obtain ⟨outcome, taken, left, rfl, hr, hs⟩ := follows_take Address.size "address" front bs
  have hr' : Reader.address.run.run (taken ++ left) = _ := Block.run_bind ..
  have hs' : Seeker.address.run.run (.before front (taken ++ left)) = _ := Seeker.run_bind ..
  rw [hr] at hr'
  rw [hs] at hs'
  cases outcome with
  | error e => exact ⟨.error e, taken, left, rfl, hr', hs'⟩
  | ok address =>
    obtain ⟨_, ⟨rfl, hsize⟩, -⟩ := ((codes_take _ _).reads _ _ _).1 hr
    refine ⟨_, taken, left, rfl, hr', hs'.trans ?_⟩
    dsimp only
    rw [if_neg (not_not_intro hsize)]
    rfl

theorem follows_pairs (count : Nat) (seen : List String) :
    Follows (pairs Seeker.address (Seeker.uint 256) count seen)
      (pairs Reader.address (Reader.uint 256) count seen) := by
  induction count generalizing seen with
  | zero => exact follows_pure []
  | succ count ih =>
    have hrest : ∀ token, Follows _ _ := fun token => (follows_uint 32).bind fun amount =>
      (ih (token :: seen)).bind fun es => follows_pure ((token, amount) :: es)
    refine follows_address.bind fun token => .ite ?_ ?_
    · exact (follows_throw (.block (.duplicateToken token))).bind fun _ => hrest token
    · exact hrest token

theorem follows_balances : Follows Seeker.balances Reader.balances :=
  (follows_uint 1).bind fun count => follows_pairs count []

theorem follows_rest : Follows Seeker.rest Reader.rest := by
  intro front bs
  refine ⟨.ok bs, bs, [], (List.append_nil bs).symm, rfl, ?_⟩
  have hbetween := Slice.between_append front bs []
  rw [List.append_nil] at hbetween
  show (Except.ok (Slice.between (front ++ bs) front.length ((front ++ bs).length : Nat)),
    (⟨front ++ bs, ((front ++ bs).length : Nat)⟩ : Cursor)) = _
  rw [List.length_append, Int.natCast_add, hbetween, Cursor.before, List.append_nil,
    List.length_append, Int.natCast_add]

/-! ### Slots and their values -/

/-- The sort of a field: a number of so many bytes, an address, a list of balances, or all bytes
that are left. -/
inductive Slot where
  | number (width : Nat)
  | address
  | balances
  | raw
deriving DecidableEq

/-- A field with its value. -/
inductive Content where
  | number (width value : Nat)
  | address (token : String)
  | balances (entries : Entries)
  | raw (bytes : Bytes)
deriving DecidableEq

namespace Slot

/-- Reads a field at a cursor. -/
def read : Slot → Seeker Content
  | number width => return .number width (← Seeker.uint (8 * width : Nat))
  | address => return .address (← Seeker.address)
  | balances => return .balances (← Seeker.balances)
  | raw => return .raw (← Seeker.rest)

/-- Reads a field off the front of the bytes that are left. -/
def parse : Slot → Reader Content
  | number width => return .number width (← Reader.uint (8 * width))
  | address => return .address (← Reader.address)
  | balances => return .balances (← Reader.balances)
  | raw => return .raw (← Reader.rest)

/-- Byte strings, which end only where the block does, stand nowhere but last. -/
def RawLast (slots : List Slot) : Prop := raw ∉ slots.dropLast

instance (slots : List Slot) : Decidable (RawLast slots) :=
  inferInstanceAs (Decidable (raw ∉ slots.dropLast))

theorem follows_read (slot : Slot) : Follows slot.read slot.parse := by
  cases slot with
  | number width => exact (follows_uint width).bind fun n => follows_pure (Content.number width n)
  | address => exact follows_address.bind fun token => follows_pure (Content.address token)
  | balances => exact follows_balances.bind fun es => follows_pure (Content.balances es)
  | raw => exact follows_rest.bind fun bs => follows_pure (Content.raw bs)

theorem follows_mapM (slots : List Slot) : Follows (slots.mapM read) (slots.mapM parse) := by
  induction slots with
  | nil => exact follows_pure []
  | cons slot slots ih =>
    rw [List.mapM_cons, List.mapM_cons]
    exact (follows_read slot).bind fun v => ih.bind fun vs => follows_pure (v :: vs)

end Slot

/-- Reads a block field by field, counts the bytes that remain, and refuses them. -/
def readBlock (slots : List Slot) (block : Bytes) : Outcome (List Content × Int) :=
  let all : Seeker (List Content × Int) := do
    let values ← slots.mapM Slot.read
    let left ← Seeker.remaining
    Seeker.finish
    return (values, left)
  (all.run.run ⟨block, 0⟩).1

/-- The cursors that reads of a block come to, those that fail among them. -/
inductive Reached (block : Bytes) : Cursor → Prop
  | start : Reached block ⟨block, 0⟩
  | read {c c' : Cursor} {slot : Slot} {outcome : Outcome Content} : Reached block c →
      slot.read.run.run c = (outcome, c') → Reached block c'

namespace Content

/-- The sort of field that the value is for. -/
def slot : Content → Slot
  | number width _ => .number width
  | address _ => .address
  | balances _ => .balances
  | raw _ => .raw

/-- The field as it is handed to the writer. -/
def field : Content → Intake.Field
  | number width value => .uint (8 * width : Nat) (.int value)
  | address token => .address (.text token)
  | balances entries => .balances (entries.map fun e => (.text e.1, .int e.2))
  | raw bytes => .raw (.bytes bytes)

/-- The value with its addresses in canonical form. -/
def canonical : Content → Outcome Content
  | number width value => .ok (number width value)
  | address token => return address (← canonicalToken token)
  | balances entries => return balances (← canonicalEntries entries)
  | raw bytes => .ok (raw bytes)

/-- Numbers fit, and balances are of different tokens and few enough to be counted. -/
def IsValid : Content → Prop
  | number width value => value < 256 ^ width
  | address _ => True
  | balances entries =>
    (entries.map Prod.fst).Nodup ∧ entries.length ≤ 255 ∧ ∀ e ∈ entries, e.2 < 256 ^ 32
  | raw _ => True

instance : (v : Content) → Decidable v.IsValid
  | number width value => inferInstanceAs (Decidable (value < 256 ^ width))
  | address _ => inferInstanceAs (Decidable True)
  | balances entries => inferInstanceAs (Decidable
      ((entries.map Prod.fst).Nodup ∧ entries.length ≤ 255 ∧ ∀ e ∈ entries, e.2 < 256 ^ 32))
  | raw _ => inferInstanceAs (Decidable True)

/-- How many bytes the value takes. -/
def size : Content → Nat
  | number width _ => width
  | address _ => Address.size
  | balances entries => 1 + 52 * entries.length
  | raw bytes => bytes.length

/-- The bytes of the value. -/
def written : Content → Outcome Bytes
  | number width value => Writer.uint (8 * width) value
  | address token => Writer.address token
  | balances entries => Writer.balances (amounts entries)
  | raw bytes => .ok bytes

theorem encode_field (v : Content) : v.field.encode = v.written := by
  cases v with
  | number width value =>
    have hnonneg : ¬ ((8 * width : Nat) : Int) < 0 := Int.not_lt.2 (Int.natCast_nonneg _)
    show Intake.uintField (8 * width : Nat) (.int value) = Writer.uint (8 * width) value
    simp only [Intake.uintField, if_neg hnonneg, Int.toNat_natCast]
    rfl
  | address token => rfl
  | balances entries => exact balancesField_eq entries
  | raw bytes => rfl

/-- The value is canonical and valid, and these bytes are written for it. -/
structure Spells (v : Content) (front : Bytes) : Prop where
  canonical : v.canonical = .ok v
  valid : v.IsValid
  written : v.written = .ok front

theorem canonical_address_iff {token : String} :
    (address token).canonical = .ok (address token) ↔
      Address.canonical "address" token = .ok token := by
  rw [← canonicalToken_eq_ok]
  exact Outcome.return_eq_ok_iff fun _ _ h => address.inj h

theorem canonical_balances_iff {es : Entries} :
    (balances es).canonical = .ok (balances es) ↔ canonicalEntries es = .ok es :=
  Outcome.return_eq_ok_iff fun _ _ h => balances.inj h

/-- Valid values are written, in as many bytes as they take. -/
theorem occupies_written {v : Content} (h : v.canonical = .ok v) (hvalid : v.IsValid) :
    Occupies v.written v.size True := by
  cases v with
  | number width value =>
    have hroom := occupies_uint (8 * width) value
    rw [Nat.mul_div_cancel_left width (by decide), Nat.pow_mul] at hroom
    exact hroom.congr (iff_of_true hvalid trivial)
  | address token =>
    exact occupies_address (canonicalToken_eq_ok.2 (canonical_address_iff.1 h))
  | balances es =>
    obtain ⟨-, hcount, hamounts⟩ := hvalid
    exact (occupies_balances (canonical_balances_iff.1 h)).congr
      (iff_of_true ⟨Nat.lt_succ_of_le hcount, hamounts⟩ trivial)
  | raw bytes => exact occupies_ok bytes

/-- A value and its canonical form are written alike. -/
theorem respelled {v w : Content} (h : v.canonical = .ok w) :
    w.canonical = .ok w ∧ v.slot = w.slot ∧ v.size = w.size ∧ v.written = w.written := by
  cases v with
  | number | raw =>
    cases h
    exact ⟨rfl, rfl, rfl, rfl⟩
  | address token =>
    obtain ⟨text, htext, h⟩ := Outcome.bind_eq_ok.1 h
    cases h
    have hself := (address_of_canonicalToken htext).1
    exact ⟨canonical_address_iff.2 (canonicalToken_eq_ok.1 hself), rfl, rfl, address_congr htext⟩
  | balances es =>
    obtain ⟨es', hes, h⟩ := Outcome.bind_eq_ok.1 h
    cases h
    obtain ⟨hself, hlength, -⟩ := entries_of_canonicalEntries hes
    refine ⟨canonical_balances_iff.2 hself, rfl, ?_, balances_of_canonicalEntries hes⟩
    rw [size, hlength, size]

end Content

/-! ### One field -/

/-- Fields other than byte strings are read off exactly the bytes that are written for them. -/
theorem codes_parse {slot : Slot} (hslot : slot ≠ .raw) :
    Codes slot.parse fun v front => v.slot = slot ∧ v.Spells front := by
  cases slot with
  | number width =>
    refine ((codes_uint _ (Nat.dvd_mul_right 8 width)).map (Content.number width)).congr
      fun v front => ?_
    constructor
    · rintro ⟨n, hn, rfl⟩
      have hroom := (occupies_uint (8 * width) n).written_iff.1 ⟨front, hn⟩
      rw [Nat.pow_mul] at hroom
      exact ⟨rfl, rfl, hroom, hn⟩
    · rintro ⟨hv, hspells⟩
      cases v <;> cases hv
      exact ⟨_, hspells.written, rfl⟩
  | address =>
    refine (codes_address.map Content.address).congr fun v front => ?_
    constructor
    · rintro ⟨token, ⟨hcanonical, hwritten⟩, rfl⟩
      exact ⟨rfl, Content.canonical_address_iff.2 hcanonical, trivial, hwritten⟩
    · rintro ⟨hv, hspells⟩
      cases v <;> cases hv
      exact ⟨_, ⟨Content.canonical_address_iff.1 hspells.canonical, hspells.written⟩, rfl⟩
  | balances =>
    refine (codes_balances.map Content.balances).congr fun v front => ?_
    constructor
    · rintro ⟨es, ⟨hdistinct, hwritten⟩, rfl⟩
      have hself := canonicalEntries_self_iff.2 hdistinct.canonical
      obtain ⟨hcount, hamounts⟩ := (occupies_balances hself).written_iff.1 ⟨front, hwritten⟩
      exact ⟨rfl, Content.canonical_balances_iff.2 hself,
        ⟨hdistinct.nodup, Nat.le_of_lt_succ hcount, hamounts⟩, hwritten⟩
    · rintro ⟨hv, hspells⟩
      cases v <;> cases hv
      have hself := Content.canonical_balances_iff.1 hspells.canonical
      exact ⟨_, ⟨⟨canonicalEntries_self_iff.1 hself, hspells.valid.1⟩, hspells.written⟩, rfl⟩
  | raw => exact absurd rfl hslot

theorem run_parse_raw (bs : Bytes) : Slot.raw.parse.run.run bs = (.ok (.raw bs), []) := rfl

/-- What has been read off bytes is written as what has been taken. -/
theorem spells_of_parse {slot : Slot} {bs left : Bytes} {v : Content}
    (h : slot.parse.run.run bs = (.ok v, left)) :
    v.slot = slot ∧ ∃ front, v.Spells front ∧ bs = front ++ left := by
  by_cases hslot : slot = .raw
  · subst hslot
    cases (run_parse_raw bs).symm.trans h
    exact ⟨rfl, bs, ⟨rfl, trivial, rfl⟩, (List.append_nil bs).symm⟩
  · obtain ⟨front, ⟨hv, hspells⟩, hbs⟩ := ((codes_parse hslot).reads bs v left).1 h
    exact ⟨hv, front, hspells, hbs⟩

/-! ### Rows of fields -/

theorem fields_cons_eq_ok {v : Content} {vs : List Content} {bs : Bytes} :
    Intake.fields ((v :: vs).map Content.field) = .ok bs ↔ ∃ x y, v.written = .ok x ∧
      Intake.fields (vs.map Content.field) = .ok y ∧ bs = x ++ y := by
  simp only [List.map_cons, Intake.fields, Content.encode_field, Outcome.bind_eq_ok,
    Outcome.pure_eq_ok]
  constructor
  · rintro ⟨x, hx, y, hy, rfl⟩
    exact ⟨x, y, hx, hy, rfl⟩
  · rintro ⟨x, y, hx, hy, rfl⟩
    exact ⟨x, hx, y, hy, rfl⟩

theorem mapM_canonical_cons {v : Content} {vs ws : List Content} :
    (v :: vs).mapM Content.canonical = .ok ws ↔ ∃ w ws', v.canonical = .ok w ∧
      vs.mapM Content.canonical = .ok ws' ∧ ws = w :: ws' := by
  rw [List.mapM_cons, Outcome.bind_eq_ok]
  simp only [Outcome.bind_eq_ok, Outcome.pure_eq_ok]
  constructor
  · rintro ⟨w, hw, ws', hws, rfl⟩
    exact ⟨w, ws', hw, hws, rfl⟩
  · rintro ⟨w, ws', hw, hws, rfl⟩
    exact ⟨w, hw, ws', hws, rfl⟩

/-- A row of values and its canonical form are written alike. -/
theorem respelled_all {vs ws : List Content} (h : vs.mapM Content.canonical = .ok ws) :
    (∀ w ∈ ws, w.canonical = .ok w) ∧ vs.map Content.slot = ws.map Content.slot ∧
      vs.map Content.size = ws.map Content.size ∧
      Intake.fields (vs.map Content.field) = Intake.fields (ws.map Content.field) := by
  induction vs generalizing ws with
  | nil =>
    cases h
    exact ⟨fun _ hw => absurd hw List.not_mem_nil, rfl, rfl, rfl⟩
  | cons v vs ih =>
    obtain ⟨w, ws', hw, hws, rfl⟩ := mapM_canonical_cons.1 h
    obtain ⟨hself, hslot, hsize, hwritten⟩ := Content.respelled hw
    obtain ⟨hselfs, hslots, hsizes, hfields⟩ := ih hws
    refine ⟨List.forall_mem_cons.2 ⟨hself, hselfs⟩, ?_, ?_, ?_⟩
    · rw [List.map_cons, hslot, hslots, List.map_cons]
    · rw [List.map_cons, hsize, hsizes, List.map_cons]
    · simp only [List.map_cons, Intake.fields, Content.encode_field, hwritten, hfields]

/-- A row of canonical and valid values is written, in as many bytes as they take together. -/
theorem occupies_fields {vs : List Content}
    (h : ∀ v ∈ vs, v.canonical = .ok v ∧ v.IsValid) :
    Occupies (Intake.fields (vs.map Content.field)) (vs.map Content.size).sum True := by
  induction vs with
  | nil => exact occupies_ok []
  | cons v vs ih =>
    obtain ⟨⟨hself, hvalid⟩, hvs⟩ := List.forall_mem_cons.1 h
    rw [List.map_cons, List.map_cons, List.sum_cons, Intake.fields, Content.encode_field]
    refine Occupies.congr ((Content.occupies_written hself hvalid).bind fun x hx =>
      (ih hvs).bind fun y hy => occupies_pure ?_) (by rw [and_true, and_true])
    rw [List.length_append, hx, hy]

/-- A row of slots reads back what is written for its values. -/
theorem parseAll_of_written {vs : List Content} {bs : Bytes}
    (hraw : Slot.RawLast (vs.map Content.slot)) (h : ∀ v ∈ vs, v.canonical = .ok v ∧ v.IsValid)
    (hbs : Intake.fields (vs.map Content.field) = .ok bs) :
    ((vs.map Content.slot).mapM Slot.parse).run.run bs = (.ok vs, []) := by
  induction vs generalizing bs with
  | nil =>
    cases hbs
    rfl
  | cons v vs ih =>
    obtain ⟨⟨hself, hvalid⟩, hvs⟩ := List.forall_mem_cons.1 h
    obtain ⟨x, y, hx, hy, rfl⟩ := fields_cons_eq_ok.1 hbs
    -- the first value leaves `y` behind, also where it takes all bytes: then `y` is empty
    have hfirst : v.slot.parse.run.run (x ++ y) = (.ok v, y) := by
      by_cases hv : v.slot = .raw
      · cases vs with
        | nil =>
          cases hy
          cases v <;> cases hv
          cases hx
          rw [List.append_nil]
          exact run_parse_raw _
        | cons w vs => exact absurd (by simp [hv]) hraw
      · exact ((codes_parse hv).reads _ v y).2 ⟨x, ⟨rfl, hself, hvalid, hx⟩, rfl⟩
    have hraw' : Slot.RawLast (vs.map Content.slot) := by
      cases vs with
      | nil => exact List.not_mem_nil
      | cons w vs => exact fun hmem => hraw (List.mem_cons_of_mem _ hmem)
    rw [List.map_cons, List.mapM_cons, run_bind, hfirst]
    dsimp only
    rw [run_bind, ih hraw' hvs hy]
    rfl

/-- What a row of slots has read is written as what has been taken. -/
theorem written_of_parseAll {slots : List Slot} {bs left : Bytes} {vs : List Content}
    (h : (slots.mapM Slot.parse).run.run bs = (.ok vs, left)) :
    vs.map Content.slot = slots ∧ (∀ v ∈ vs, v.canonical = .ok v ∧ v.IsValid) ∧
      ∃ front, Intake.fields (vs.map Content.field) = .ok front ∧ bs = front ++ left := by
  induction slots generalizing bs vs with
  | nil =>
    cases h
    exact ⟨rfl, fun _ hv => absurd hv List.not_mem_nil, [], rfl, rfl⟩
  | cons slot slots ih =>
    rw [List.mapM_cons, run_bind] at h
    rcases hfirst : slot.parse.run.run bs with ⟨e | v, rest⟩
    · rw [hfirst] at h
      cases h
    · rw [hfirst] at h
      dsimp only at h
      rw [run_bind] at h
      rcases hothers : (slots.mapM Slot.parse).run.run rest with ⟨e | vs', left'⟩
      · rw [hothers] at h
        cases h
      · rw [hothers] at h
        cases h
        obtain ⟨hv, x, hspells, rfl⟩ := spells_of_parse hfirst
        obtain ⟨hslots, hvalid, y, hy, rfl⟩ := ih hothers
        refine ⟨?_, List.forall_mem_cons.2 ⟨⟨hspells.canonical, hspells.valid⟩, hvalid⟩, x ++ y,
          fields_cons_eq_ok.2 ⟨x, y, hspells.written, hy, rfl⟩, (List.append_assoc ..).symm⟩
        rw [List.map_cons, hv, hslots]

/-! ### Blocks -/

theorem Seeker.run_remaining (front left : Bytes) :
    Seeker.remaining.run.run (.before front left) =
      (.ok (left.length : Int), .before front left) := by
  have hleft : (((front ++ left).length : Nat) : Int) - front.length = left.length := by
    rw [List.length_append, Int.natCast_add]
    omega
  show (Except.ok ((((front ++ left).length : Nat) : Int) - front.length), _) = _
  rw [hleft]

theorem Seeker.run_finish (front left : Bytes) :
    Seeker.finish.run.run (.before front left) =
      if left.length ≠ 0 then (.error (.block (.trailing left.length)), .before front left)
      else (.ok (), .before front left) := by
  rw [Seeker.finish, Seeker.run_bind, Seeker.run_remaining]
  dsimp only
  by_cases h : left.length ≠ 0
  · rw [if_pos h, if_pos (by omega), Int.toNat_natCast]
    rfl
  · rw [if_neg h, if_neg (by omega)]
    rfl

/-- A block is read as values if and only if the readers of its slots use it up. -/
theorem readBlock_eq_ok_iff {slots : List Slot} {block : Bytes} {vs : List Content} {left : Int} :
    readBlock slots block = .ok (vs, left) ↔
      (slots.mapM Slot.parse).run.run block = (.ok vs, []) ∧ left = 0 := by
  obtain ⟨outcome, taken, rest, rfl, hparse, hread⟩ := Slot.follows_mapM slots [] block
  have hrun : readBlock slots (taken ++ rest) = _ :=
    congrArg Prod.fst (Seeker.run_bind _ _ (.before [] (taken ++ rest)))
  rw [hparse, hrun, hread]
  cases outcome with
  | error e => exact iff_of_false (fun h => by cases h) fun h => by cases h.1
  | ok ws =>
    dsimp only
    rw [Seeker.run_bind, Seeker.run_remaining]
    dsimp only
    rw [Seeker.run_bind, Seeker.run_finish]
    by_cases hrest : rest.length ≠ 0
    · rw [if_pos hrest]
      refine iff_of_false (fun h => by cases h) fun h => hrest ?_
      rw [(Prod.mk.inj h.1).2]
      rfl
    · rw [if_neg hrest]
      obtain rfl := List.eq_nil_of_length_eq_zero (not_not.1 hrest)
      constructor
      · intro h
        cases h
        exact ⟨rfl, rfl⟩
      · rintro ⟨h, rfl⟩
        cases h
        rfl

theorem Reached.standsBefore {block : Bytes} {c : Cursor} (h : Reached block c) :
    ∃ front left, c = .before front left := by
  induction h with
  | start => exact ⟨[], block, rfl⟩
  | @read c c' slot outcome hc hread ih =>
    obtain ⟨front, left, rfl⟩ := ih
    obtain ⟨outcome', taken, rest, rfl, -, hfollows⟩ := Slot.follows_read slot front left
    rw [hread] at hfollows
    cases hfollows
    exact ⟨front ++ taken, rest, rfl⟩

/-- A field that is a single value is either taken whole or not at all. -/
theorem left_of_parse_error {slot : Slot} (hslot : slot ≠ .balances) {bs left : Bytes} {f : Fault}
    (h : slot.parse.run.run bs = (.error f, left)) : left = bs := by
  have htake : ∀ {count : Nat} {what : String} {g : Bytes → Content},
      (Reader.take count what >>= fun taken => pure (g taken) : Reader Content).run.run bs =
        (.error f, left) → left = bs := by
    intro count what g h
    rw [run_bind, Reader.run_take] at h
    by_cases hcount : bs.length < count
    · rw [if_pos hcount] at h
      cases h
      rfl
    · rw [if_neg hcount] at h
      cases h
  cases slot with
  | number width =>
    rw [Slot.parse, Reader.uint, bind_assoc] at h
    exact htake h
  | address =>
    rw [Slot.parse, Reader.address, bind_assoc] at h
    exact htake h
  | balances => exact absurd rfl hslot
  | raw => cases h

/-- **Reading a block of any fields** gives back what has been written, and writing what has been
read gives back the block. Numbers of any width, addresses and balances may follow in any order,
and a byte string may stand last. Addresses come back in canonical form, and nothing remains.
Wherever reads of a block may have come, a number or an address that cannot be read leaves what
remains as it is. -/
theorem readBlock_inverts_block :
    (∀ vs ws : List Content, Slot.RawLast (vs.map Content.slot) →
      vs.mapM Content.canonical = .ok ws → (∀ w ∈ ws, w.IsValid) →
      (vs.map Content.size).sum ≤ Writer.maxSize →
        ∃ block, Intake.block (vs.map Content.field) = .ok block ∧
          block.length = (vs.map Content.size).sum ∧
          readBlock (vs.map Content.slot) block = .ok (ws, 0)) ∧
    (∀ (slots : List Slot) (block : Bytes) (vs : List Content) (left : Int),
      block.length ≤ Writer.maxSize → readBlock slots block = .ok (vs, left) →
        left = 0 ∧ vs.map Content.slot = slots ∧ (∀ v ∈ vs, v.canonical = .ok v ∧ v.IsValid) ∧
          Intake.block (vs.map Content.field) = .ok block) ∧
    ∀ (block : Bytes) (c c' : Cursor) (slot : Slot) (f : Fault), Reached block c →
      slot ≠ .balances → slot.read.run.run c = (.error f, c') → c' = c := by
  have hblock : ∀ {vs : List Content} {bs : Bytes}, bs.length ≤ Writer.maxSize →
      Intake.fields (vs.map Content.field) = .ok bs →
        Intake.block (vs.map Content.field) = .ok bs := by
    intro vs bs hle hbs
    exact Outcome.bind_eq_ok.2 ⟨bs, hbs, if_neg (Nat.not_lt.2 hle)⟩
  refine ⟨?_, ?_, ?_⟩
  · intro vs ws hraw hcanonical hvalid hle
    obtain ⟨hself, hslots, hsizes, hfields⟩ := respelled_all hcanonical
    have hws : ∀ w ∈ ws, w.canonical = .ok w ∧ w.IsValid :=
      fun w hw => ⟨hself w hw, hvalid w hw⟩
    have hroom := occupies_fields hws
    obtain ⟨block, hwritten⟩ := hroom.written_iff.2 trivial
    have hlength := hroom.length block hwritten
    rw [← hsizes] at hlength
    refine ⟨block, hblock (hlength ▸ hle) (hfields.trans hwritten), hlength, ?_⟩
    rw [hslots] at hraw ⊢
    exact readBlock_eq_ok_iff.2 ⟨parseAll_of_written hraw hws hwritten, rfl⟩
  · intro slots block vs left hle hread
    obtain ⟨hparse, rfl⟩ := readBlock_eq_ok_iff.1 hread
    obtain ⟨hslots, hvalid, front, hwritten, hfront⟩ := written_of_parseAll hparse
    rw [List.append_nil] at hfront
    subst hfront
    exact ⟨rfl, hslots, hvalid, hblock hle hwritten⟩
  · intro block c c' slot f hreached hslot hread
    obtain ⟨front, bs, rfl⟩ := hreached.standsBefore
    obtain ⟨outcome, taken, left, rfl, hparse, hfollows⟩ := Slot.follows_read slot front bs
    rw [hread] at hfollows
    cases hfollows
    have hsame := left_of_parse_error hslot hparse
    obtain rfl : taken = [] := List.append_left_eq_self.1 hsame.symm
    rw [List.append_nil, List.nil_append]

/-- A number, an address in capital letters between blanks, balances and a byte string. -/
def mixedContents : List Content :=
  [.number 2 517, .address " 0xABABABABABABABABABABABABABABABABABABABAB ",
    .balances [("cdcdcdcdcdcdcdcdcdcdcdcdcdcdcdcdcdcdcdcd", 7)], .raw [1, 2, 3]]

/-- The same values with canonical addresses. -/
def plainContents : List Content :=
  [.number 2 517, .address "0xabababababababababababababababababababab",
    .balances [("0xcdcdcdcdcdcdcdcdcdcdcdcdcdcdcdcdcdcdcdcd", 7)], .raw [1, 2, 3]]

theorem readBlock_inverts_block_mixedContents :
    (∃ block, Intake.block (mixedContents.map Content.field) = .ok block ∧ block.length = 78 ∧
      readBlock (mixedContents.map Content.slot) block = .ok (plainContents, 0) ∧
      Intake.block (plainContents.map Content.field) = .ok block) ∧
    ∃ f c, Slot.address.read.run.run ⟨[1, 2, 3], 2⟩ = (.error f, c) ∧ c = ⟨[1, 2, 3], 2⟩ := by
  obtain ⟨hwrite, hread, hfail⟩ := readBlock_inverts_block
  have hcanonical : mixedContents.mapM Content.canonical = .ok plainContents :=
    Outcome.eq_ok_of_toOption (by decide +kernel)
  obtain ⟨block, hblock, hlength, hback⟩ :=
    hwrite _ _ (by decide) hcanonical (by decide) (by decide)
  have hagain := hread _ block _ _ (hlength.trans_le (by decide)) hback
  have htaken : (Slot.number 2).read.run.run ⟨[1, 2, 3], 0⟩ =
      (.ok (.number 2 258), ⟨[1, 2, 3], 2⟩) := rfl
  have hshort : Slot.address.read.run.run ⟨[1, 2, 3], 2⟩ =
      (.error (.block (.truncated "address" 20 1)), ⟨[1, 2, 3], 2⟩) := rfl
  exact ⟨⟨block, hblock, hlength, hback, hagain.2.2.2⟩, _, _, hshort,
    hfail _ _ _ .address _ (.read .start htaken) (by decide) hshort⟩

end SwapMachine.Block
