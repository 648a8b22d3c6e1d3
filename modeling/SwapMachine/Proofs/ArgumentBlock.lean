import SwapMachine.Program.Assembly
import SwapMachine.Proofs.Spelling

/-!
# SwapMachine.Proofs.ArgumentBlock — instructions and their argument blocks

Writing an instruction and parsing the block that comes of it are inverse on the instructions whose
parameters are in range.

* `Occupies`: when a field can be written, and how many bytes it takes.
* `Instruction.IsInRange`: the parameters are those that a block can hold; they are the ones that are
  written and pass the checks of parsing (`isInRange_iff`).
* `Instruction.fields_inj`: canonical instructions with the same fields are the same.
* `Instruction.AppendsAs`: what a step of an assembly appends; it writes the same blocks
  (`block_eq_ok_iff_appendsAs`).
* `Instruction.parse_inverts_block`: all of it together.
-/

namespace SwapMachine

open Block

/-! ### Room -/

/-- The bytes can be written if and only if the value fits, and they are so many. -/
structure Occupies (x : Outcome Bytes) (size : Nat) (fits : Prop) : Prop where
  written_iff : (∃ bs, x = .ok bs) ↔ fits
  length : ∀ bs, x = .ok bs → bs.length = size

theorem occupies_ok (bs : Bytes) : Occupies (.ok bs) bs.length True where
  written_iff := iff_of_true ⟨bs, rfl⟩ trivial
  length _ h := by cases h; rfl

/-- What is put together takes as many bytes as its parts. -/
theorem Occupies.bind {x : Outcome Bytes} {f : Bytes → Outcome Bytes} {m size : Nat} {p q : Prop}
    (hx : Occupies x m p) (hf : ∀ bs, bs.length = m → Occupies (f bs) size q) :
    Occupies (x >>= f) size (p ∧ q) where
  written_iff := by
    rw [← hx.written_iff]
    constructor
    · rintro ⟨bs, h⟩
      obtain ⟨front, hfront, h⟩ := Outcome.bind_eq_ok.1 h
      exact ⟨⟨front, hfront⟩, (hf front (hx.length _ hfront)).written_iff.1 ⟨bs, h⟩⟩
    · rintro ⟨⟨front, hfront⟩, hq⟩
      obtain ⟨bs, h⟩ := (hf front (hx.length _ hfront)).written_iff.2 hq
      exact ⟨bs, Outcome.bind_eq_ok.2 ⟨front, hfront, h⟩⟩
  length bs h := by
    obtain ⟨front, hfront, h⟩ := Outcome.bind_eq_ok.1 h
    exact (hf front (hx.length _ hfront)).length bs h

theorem occupies_pure {bs : Bytes} {size : Nat} (h : bs.length = size) :
    Occupies (pure bs) size True := by
  subst h
  exact occupies_ok bs

theorem Occupies.congr {x : Outcome Bytes} {size : Nat} {p q : Prop} (h : Occupies x size p)
    (hpq : p ↔ q) : Occupies x size q where
  written_iff := h.written_iff.trans hpq
  length := h.length

theorem occupies_uint_of_nonneg (bits : Nat) {z : Int} (hz : 0 ≤ z) :
    Occupies (Writer.uint bits z) (bits / 8) (z < (2 ^ bits : Nat)) := by
  have hpow : (Nat.pow 2 bits : Int) = ((2 ^ bits : Nat) : Int) := rfl
  unfold Writer.uint
  rw [hpow]
  by_cases h : z < (2 ^ bits : Nat)
  · rw [if_neg (by omega)]
    exact (occupies_pure (Number.length_toBytes ..)).congr (iff_of_true trivial h)
  · rw [if_pos (by omega)]
    exact ⟨iff_of_false (fun ⟨_, h⟩ => by cases h) h, fun _ h => by cases h⟩

theorem occupies_uint (bits n : Nat) : Occupies (Writer.uint bits n) (bits / 8) (n < 2 ^ bits) :=
  (occupies_uint_of_nonneg bits (Int.natCast_nonneg n)).congr Int.ofNat_lt

theorem Occupies.complete {x : Outcome Bytes} {size : Nat} {p : Prop} (h : Occupies x size p) :
    (∃ bs, x >>= Writer.complete = .ok bs) ↔ p ∧ size ≤ Writer.maxSize := by
  rw [← h.written_iff]
  constructor
  · rintro ⟨bs, hbs⟩
    obtain ⟨front, hfront, hbs⟩ := Outcome.bind_eq_ok.1 hbs
    have hsize := h.length _ hfront
    unfold Writer.complete at hbs
    split at hbs
    · cases hbs
    · exact ⟨⟨front, hfront⟩, by omega⟩
  · rintro ⟨⟨front, hfront⟩, hle⟩
    have hsize := h.length _ hfront
    exact ⟨front, Outcome.bind_eq_ok.2 ⟨front, hfront, if_neg (by omega)⟩⟩

namespace Instruction

open Curve FixedPoint

theorem occupies_address {token text : String} (h : canonicalToken token = .ok text) :
    Occupies (Writer.address token) Address.size True := by
  obtain ⟨-, bs, hsize, hw, -⟩ := address_of_canonicalToken h
  rw [hw]
  exact occupies_pure hsize

theorem occupies_tokenAnd {token text : String} (h : canonicalToken token = .ok text)
    (bits n : Nat) : Occupies (tokenAnd token bits n) (Address.size + bits / 8) (n < 2 ^ bits) := by
  refine Occupies.congr ((occupies_address h).bind fun x hx => (occupies_uint bits n).bind
    fun y hy => occupies_pure ?_) (by rw [true_and, and_true])
  rw [List.length_append, hx, hy]

theorem occupies_entries {es es' : Entries} (h : canonicalEntries es = .ok es') :
    Occupies (Writer.entries (amounts es)) (52 * es.length) (∀ e ∈ es, e.2 < 2 ^ 256) := by
  induction es generalizing es' with
  | nil =>
    exact (occupies_ok []).congr (iff_of_true trivial fun _ h => absurd h List.not_mem_nil)
  | cons e es ih =>
    obtain ⟨text, rest, htext, hrest, -⟩ := canonicalEntries_cons.1 h
    refine Occupies.congr ((occupies_address htext).bind fun x hx => (occupies_uint 256 e.2).bind
      fun y hy => (ih hrest).bind fun z hz => occupies_pure ?_) ?_
    · rw [List.length_append, List.length_append, hx, hy, hz, List.length_cons]
      simp only [Address.size]
      omega
    · rw [true_and, and_true, List.forall_mem_cons]

theorem occupies_balances {es es' : Entries} (h : canonicalEntries es = .ok es') :
    Occupies (Writer.balances (amounts es)) (1 + 52 * es.length)
      (es.length < 2 ^ 8 ∧ ∀ e ∈ es, e.2 < 2 ^ 256) := by
  have hcount := occupies_uint 8 es.length
  unfold Writer.balances
  rw [show (amounts es).length = es.length from List.length_map ..]
  refine Occupies.congr (hcount.bind fun x hx => (occupies_entries h).bind
    fun y hy => occupies_pure ?_) (by rw [and_true])
  rw [List.length_append, hx, hy]

theorem occupies_concentrationFields {c : Concentration} {a b : String}
    (ha : canonicalToken c.tokenA = .ok a) (hb : canonicalToken c.tokenB = .ok b) :
    Occupies (concentrationFields c) 136
      (c.deltaA < 2 ^ 256 ∧ c.deltaB < 2 ^ 256 ∧ c.liquidity < 2 ^ 256) := by
  refine Occupies.congr ((occupies_tokenAnd ha 256 c.deltaA).bind fun x hx =>
    (occupies_tokenAnd hb 256 c.deltaB).bind fun y hy => (occupies_uint 256 c.liquidity).bind
      fun z hz => occupies_pure ?_) (by rw [and_true])
  rw [List.length_append, List.length_append, hx, hy, hz]
  rfl

theorem occupies_curveFields (curve : Density) :
    Occupies (curveFields curve) 99 (curve.capacity < (2 ^ 256 : Nat) ∧
      curve.basePrice < (2 ^ 256 : Nat) ∧ curve.strength < (2 ^ 256 : Nat)) := by
  have hshape : curve.shape.degree < 2 ^ 8 := by cases curve.shape <;> decide
  have hspread : curve.spread < (2 ^ 16 : Nat) := by
    have hlt := curve.spread_lt
    simp only [bpsWhole] at hlt
    omega
  refine Occupies.congr ((occupies_uint_of_nonneg 256 (Int.le_of_lt curve.capacity_pos)).bind
    fun x hx => (occupies_uint_of_nonneg 256 (Int.le_of_lt curve.basePrice_pos)).bind
    fun y hy => (occupies_uint_of_nonneg 256 curve.strength_nonneg).bind
    fun z hz => (occupies_uint 8 curve.shape.degree).bind
    fun u hu => (occupies_uint_of_nonneg 16 curve.spread_nonneg).bind
    fun v hv => occupies_pure ?_) ?_
  · simp only [List.length_append, hx, hy, hz, hu, hv]
  · rw [and_true, and_iff_right hshape, and_iff_left hspread]

/-! ### Parameters in range -/

/-- The numbers fit their fields, and what is written as it stands fits a block. -/
def Fits : Instruction → Prop
  | jump target => target < 2 ^ 16
  | jumpIfTokenIn _ target => target < 2 ^ 16
  | jumpIfTokenOut _ target => target < 2 ^ 16
  | deadline time => time < 2 ^ 64
  | takerHolds _ => True
  | takerHoldsAtLeast _ minimum => minimum < 2 ^ 256
  | takerShareAtLeast _ minimum => minimum < 2 ^ 256
  | salt bytes => bytes.length ≤ Writer.maxSize
  | staticBalances entries => ∀ e ∈ entries, e.2 < 2 ^ 256
  | dynamicBalances entries => ∀ e ∈ entries, e.2 < 2 ^ 256
  | decay period => period < 2 ^ 32
  | concentrate c => c.deltaA < 2 ^ 256 ∧ c.deltaB < 2 ^ 256 ∧ c.liquidity < 2 ^ 256
  | flatFeeIn fee => fee < 2 ^ 16
  | flatFeeOut fee => fee < 2 ^ 16
  | dynamicFeeIn _ => True
  | constantProduct alpha => alpha < 2 ^ 64
  | pegged rate => rate < 2 ^ 256
  | density curve => curve.capacity < (2 ^ 256 : Nat) ∧ curve.basePrice < (2 ^ 256 : Nat) ∧
    curve.strength < (2 ^ 256 : Nat)
  | inert _ bytes => bytes.length ≤ Writer.maxSize

/-- The parameters of an instruction are in range: they pass the checks of parsing, their numbers
fit, and balances are four at most, with different tokens. -/
structure IsInRange (i : Instruction) : Prop where
  valid : i.IsValid
  fits : i.Fits
  few : i.entries.length ≤ 4
  distinct : (i.entries.map Prod.fst).Nodup

theorem block_eq_ok_iff {i : Instruction} {bs : Bytes} :
    i.block = .ok bs ↔ i.fields = .ok bs ∧ bs.length ≤ Writer.maxSize := by
  unfold block Writer.complete
  rw [Outcome.bind_eq_ok]
  constructor
  · rintro ⟨front, hfront, h⟩
    split at h
    · cases h
    · cases h
      exact ⟨hfront, by omega⟩
  · rintro ⟨h, hle⟩
    exact ⟨bs, h, if_neg (by omega)⟩

/-- A block can be written if and only if the numbers fit and there are few balances. -/
theorem exists_block_iff {i : Instruction} (h : i.canonical = .ok i) :
    (∃ bs, i.block = .ok bs) ↔ i.Fits ∧ i.entries.length ≤ 4 := by
  have hsmall : ∀ {x : Outcome Bytes} {size : Nat} {p : Prop}, Occupies x size p →
      size ≤ Writer.maxSize → ((∃ bs, x >>= Writer.complete = .ok bs) ↔ p ∧ 0 ≤ 4) := by
    intro x size p hx hle
    exact hx.complete.trans (and_congr_right fun _ => iff_of_true hle (Nat.zero_le _))
  cases i with
  | salt bytes | inert number bytes =>
    refine (occupies_ok bytes).complete.trans ?_
    exact and_comm.trans (and_congr_right fun _ => iff_of_true trivial (Nat.zero_le _))
  | jump n | deadline n | decay n | flatFeeIn n | flatFeeOut n | constantProduct n | pegged n =>
    exact hsmall (occupies_uint _ n) (by decide)
  | density curve => exact hsmall (occupies_curveFields curve) (by decide)
  | takerHolds token | dynamicFeeIn token =>
    obtain ⟨_, htoken, -⟩ := Outcome.bind_eq_ok.1 h
    exact hsmall (occupies_address htoken) (by decide)
  | jumpIfTokenIn token n | jumpIfTokenOut token n | takerHoldsAtLeast token n
  | takerShareAtLeast token n =>
    obtain ⟨_, htoken, -⟩ := Outcome.bind_eq_ok.1 h
    exact hsmall (occupies_tokenAnd htoken _ n) (by decide)
  | concentrate c =>
    obtain ⟨_, ha, h⟩ := Outcome.bind_eq_ok.1 h
    obtain ⟨_, hb, -⟩ := Outcome.bind_eq_ok.1 h
    exact hsmall (occupies_concentrationFields ha hb) (by decide)
  | staticBalances es | dynamicBalances es =>
    obtain ⟨_, hes, -⟩ := Outcome.bind_eq_ok.1 h
    refine (occupies_balances hes).complete.trans ?_
    -- four pairs take 209 bytes and five 261
    simp only [Fits, entries, Writer.maxSize]
    constructor
    · rintro ⟨⟨-, hfit⟩, hle⟩
      exact ⟨hfit, by omega⟩
    · rintro ⟨hfit, hle⟩
      exact ⟨⟨by omega, hfit⟩, by omega⟩

/-- The parameters in range are those of which there is a block that parses. -/
theorem isInRange_iff {i : Instruction} (h : i.canonical = .ok i) :
    i.IsInRange ↔ ∃ bs, i.block = .ok bs ∧ i.Spells bs := by
  constructor
  · rintro ⟨hvalid, hfits, hfew, hdistinct⟩
    obtain ⟨bs, hbs⟩ := (exists_block_iff h).2 ⟨hfits, hfew⟩
    exact ⟨bs, hbs, h, hvalid, hdistinct, (block_eq_ok_iff.1 hbs).1⟩
  · rintro ⟨bs, hbs, -, hvalid, hdistinct, -⟩
    obtain ⟨hfits, hfew⟩ := (exists_block_iff h).1 ⟨bs, hbs⟩
    exact ⟨hvalid, hfits, hfew, hdistinct⟩

/-! ### Different parameters, different fields -/

theorem exists_canonicalToken {token : String} {bs : Bytes} (h : Writer.address token = .ok bs) :
    ∃ text, canonicalToken token = .ok text :=
  ⟨_, canonicalToken_eq_ok.2 (Writer.address_eq_ok_iff.1 h).2⟩

theorem exists_canonicalEntries {es : Entries} {bs : Bytes}
    (h : Writer.entries (amounts es) = .ok bs) : ∃ es', canonicalEntries es = .ok es' := by
  induction es generalizing bs with
  | nil => exact ⟨[], rfl⟩
  | cons e es ih =>
    obtain ⟨x, y, z, hx, -, hz, -⟩ := entries_cons_eq_ok.1 h
    obtain ⟨text, htext⟩ := exists_canonicalToken hx
    obtain ⟨rest, hrest⟩ := ih hz
    exact ⟨_, canonicalEntries_cons.2 ⟨text, rest, htext, hrest, rfl⟩⟩

/-- Whatever can be written has a canonical form. -/
theorem exists_canonical {i : Instruction} {bs : Bytes} (h : i.fields = .ok bs) :
    ∃ j, i.canonical = .ok j := by
  have htokenAnd : ∀ {token : String} {bits : Nat} {n : Nat}, tokenAnd token bits n = .ok bs →
      ∃ text, canonicalToken token = .ok text := by
    intro token bits n h
    obtain ⟨x, _, hx, -⟩ := tokenAnd_eq_ok.1 h
    exact exists_canonicalToken hx
  cases i with
  | salt | inert | jump | deadline | decay | flatFeeIn | flatFeeOut | constantProduct | pegged
  | density => exact ⟨_, rfl⟩
  | takerHolds | dynamicFeeIn =>
    obtain ⟨text, htext⟩ := exists_canonicalToken h
    exact ⟨_, Outcome.bind_eq_ok.2 ⟨text, htext, rfl⟩⟩
  | jumpIfTokenIn | jumpIfTokenOut | takerHoldsAtLeast | takerShareAtLeast =>
    obtain ⟨text, htext⟩ := htokenAnd h
    exact ⟨_, Outcome.bind_eq_ok.2 ⟨text, htext, rfl⟩⟩
  | concentrate c =>
    obtain ⟨_, ha, h⟩ := Outcome.bind_eq_ok.1 h
    obtain ⟨_, hb, -⟩ := Outcome.bind_eq_ok.1 h
    obtain ⟨x, _, hx, -⟩ := tokenAnd_eq_ok.1 ha
    obtain ⟨y, _, hy, -⟩ := tokenAnd_eq_ok.1 hb
    obtain ⟨a, ha⟩ := exists_canonicalToken hx
    obtain ⟨b, hb⟩ := exists_canonicalToken hy
    exact ⟨_, Outcome.bind_eq_ok.2 ⟨a, ha, Outcome.bind_eq_ok.2 ⟨b, hb, rfl⟩⟩⟩
  | staticBalances es | dynamicBalances es =>
    obtain ⟨_, -, h⟩ := Outcome.bind_eq_ok.1 h
    obtain ⟨_, hw, -⟩ := Outcome.bind_eq_ok.1 h
    obtain ⟨es', hes⟩ := exists_canonicalEntries hw
    exact ⟨_, Outcome.bind_eq_ok.2 ⟨es', hes, rfl⟩⟩

theorem entries_inj {es es' : Entries} {bs : Bytes} (hes : canonicalEntries es = .ok es)
    (hes' : canonicalEntries es' = .ok es') (h : Writer.entries (amounts es) = .ok bs)
    (h' : Writer.entries (amounts es') = .ok bs) : es = es' := by
  have hcons : ∀ (e : String × Nat) (ds : Entries), Writer.entries (amounts (e :: ds)) ≠ .ok [] := by
    intro e ds hnil
    obtain ⟨x, y, z, hx, -, -, heq⟩ := entries_cons_eq_ok.1 hnil
    have hsize := (Writer.address_eq_ok_iff.1 hx).1
    rw [(List.append_eq_nil_iff.1 heq.symm).1] at hsize
    cases hsize
  induction es generalizing es' bs with
  | nil =>
    cases h
    cases es' with
    | nil => rfl
    | cons e' es' => exact absurd h' (hcons e' es')
  | cons e es ih =>
    cases es' with
    | nil =>
      cases h'
      exact absurd h (hcons e es)
    | cons e' es' =>
      obtain ⟨token, amount⟩ := e
      obtain ⟨token', amount'⟩ := e'
      obtain ⟨_, _, htoken, hrest, heq⟩ := canonicalEntries_cons.1 hes
      cases heq
      obtain ⟨_, _, htoken', hrest', heq'⟩ := canonicalEntries_cons.1 hes'
      cases heq'
      obtain ⟨x, y, z, hx, hy, hz, rfl⟩ := entries_cons_eq_ok.1 h
      obtain ⟨x', y', z', hx', hy', hz', heq⟩ := entries_cons_eq_ok.1 h'
      -- the fields of a pair are as long whatever they hold
      have hxlen := (occupies_address htoken).length x hx
      have hxlen' := (occupies_address htoken').length x' hx'
      have hylen := (occupies_uint 256 _).length y hy
      have hylen' := (occupies_uint 256 _).length y' hy'
      obtain ⟨rfl, htail⟩ := List.append_inj heq (hxlen.trans hxlen'.symm)
      obtain ⟨rfl, rfl⟩ := List.append_inj htail (hylen.trans hylen'.symm)
      have hfst := codes_address.inj ⟨canonicalToken_eq_ok.1 htoken, hx⟩
        ⟨canonicalToken_eq_ok.1 htoken', hx'⟩
      have hsnd := (codes_uint 256 (by decide)).inj hy hy'
      rw [ih hrest hrest' hz hz', Prod.ext hfst hsnd]

theorem balances_inj {es es' : Entries} {bs : Bytes} (hes : canonicalEntries es = .ok es)
    (hes' : canonicalEntries es' = .ok es') (h : Writer.balances (amounts es) = .ok bs)
    (h' : Writer.balances (amounts es') = .ok bs) : es = es' := by
  obtain ⟨x, hx, h⟩ := Outcome.bind_eq_ok.1 h
  obtain ⟨y, hy, h⟩ := Outcome.bind_eq_ok.1 h
  obtain ⟨x', hx', h'⟩ := Outcome.bind_eq_ok.1 h'
  obtain ⟨y', hy', h'⟩ := Outcome.bind_eq_ok.1 h'
  cases h
  have hxlen := (occupies_uint 8 _).length x hx
  have hxlen' := (occupies_uint 8 _).length x' hx'
  obtain ⟨rfl, rfl⟩ := List.append_inj (Outcome.pure_eq_ok.1 h') (hxlen'.trans hxlen.symm)
  exact entries_inj hes hes' hy hy'

/-- Canonical instructions of one operation that are written alike are the same. -/
theorem fields_inj {i j : Instruction} {bs : Bytes} (hop : i.opcode = j.opcode)
    (hi : i.canonical = .ok i) (hj : j.canonical = .ok j) (h : i.fields = .ok bs)
    (h' : j.fields = .ok bs) : i = j := by
  cases i with
  | salt | inert =>
    cases j <;> cases hop
    cases h
    cases h'
    rfl
  | jump | deadline | decay | flatFeeIn | flatFeeOut | constantProduct | pegged =>
    cases j <;> cases hop
    rw [(codes_uint _ (by decide)).inj h h']
  | density =>
    cases j <;> cases hop
    have hself := parseDensity_eq_ok_iff.2 h
    rw [parseDensity_eq_ok_iff.2 h'] at hself
    rw [Except.ok.inj hself]
  | takerHolds | dynamicFeeIn =>
    cases j <;> cases hop
    obtain ⟨_, htoken, heq⟩ := Outcome.bind_eq_ok.1 hi
    cases heq
    obtain ⟨_, htoken', heq'⟩ := Outcome.bind_eq_ok.1 hj
    cases heq'
    rw [codes_address.inj ⟨canonicalToken_eq_ok.1 htoken, h⟩ ⟨canonicalToken_eq_ok.1 htoken', h'⟩]
  | jumpIfTokenIn token n | jumpIfTokenOut token n | takerHoldsAtLeast token n
  | takerShareAtLeast token n =>
    cases j <;> cases hop
    rename_i token' n'
    obtain ⟨_, htoken, heq⟩ := Outcome.bind_eq_ok.1 hi
    cases heq
    obtain ⟨_, htoken', heq'⟩ := Outcome.bind_eq_ok.1 hj
    cases heq'
    have hsame := (codes_tokenAnd _ (by decide)).inj (a := (token, n)) (b := (token', n'))
      ⟨canonicalToken_eq_ok.1 htoken, h⟩ ⟨canonicalToken_eq_ok.1 htoken', h'⟩
    cases hsame
    rfl
  | concentrate c =>
    cases j <;> cases hop
    obtain ⟨ha, hb⟩ := canonical_concentrate_iff.1 hi
    obtain ⟨ha', hb'⟩ := canonical_concentrate_iff.1 hj
    rw [codes_concentration.inj ⟨ha, hb, h⟩ ⟨ha', hb', h'⟩]
  | staticBalances | dynamicBalances =>
    cases j <;> cases hop
    obtain ⟨_, hes, heq⟩ := Outcome.bind_eq_ok.1 hi
    cases heq
    obtain ⟨_, hes', heq'⟩ := Outcome.bind_eq_ok.1 hj
    cases heq'
    rw [balances_inj hes hes' h h']

/-! ### Blocks that do not parse -/

theorem failsWithin_density (capacity basePrice strength spread : Int) (shape : Datum) :
    FailsWithin InvalidArguments (Density.make capacity basePrice strength shape spread) := by
  unfold Density.make
  split
  · exact failsWithin_error rfl
  · split
    · exact failsWithin_error rfl
    · split
      · exact failsWithin_error rfl
      · split
        · split
          · exact failsWithin_ok
          · exact failsWithin_error rfl
        · exact failsWithin_error rfl

theorem failsWithin_parse (op : Opcode) (bs : Bytes) :
    FailsWithin InvalidArguments (parse op bs) := by
  have hreturn : ∀ {α : Type} {x : Outcome α} (c : α → Instruction),
      FailsWithin InvalidArguments x → FailsWithin InvalidArguments (x >>= fun a => pure (c a)) :=
    fun c hx => hx.bind fun _ _ => failsWithin_pure
  have hnumber := fun bits hbits => (codes_uint bits hbits).failsWithin_whole bs
  have htoken := codes_address.failsWithin_whole bs
  have htokenAnd := fun bits hbits => (codes_tokenAnd bits hbits).failsWithin_whole bs
  have hfee : FailsWithin InvalidArguments (parseFee bs) := by
    refine (hnumber 16 (by decide)).bind fun fee _ => ?_
    cases fee? (.int fee) with
    | ok _ => exact failsWithin_pure
    | error f => exact failsWithin_error rfl
  cases op with
  | salt | inert => exact failsWithin_ok
  | jump | deadline => exact hreturn _ (hnumber _ (by decide))
  | takerHolds | dynamicFeeIn => exact hreturn _ htoken
  | jumpIfTokenIn | jumpIfTokenOut | takerHoldsAtLeast | takerShareAtLeast =>
    exact hreturn _ (htokenAnd _ (by decide))
  | staticBalances | dynamicBalances => exact hreturn _ (codes_balances.failsWithin_whole bs)
  | decay =>
    refine hreturn _ ((hnumber 32 (by decide)).bind fun period _ => ?_)
    exact .ite (fun _ => failsWithin_error rfl) fun _ => failsWithin_pure
  | concentrate =>
    refine hreturn _ ((codes_concentration.failsWithin_whole bs).bind fun c _ => ?_)
    exact .ite (fun _ => failsWithin_error rfl) fun _ =>
      .ite (fun _ => failsWithin_error rfl) fun _ => failsWithin_pure
  | flatFeeIn | flatFeeOut => exact hreturn _ hfee
  | constantProduct =>
    refine hreturn _ ((hnumber 64 (by decide)).bind fun alpha _ => ?_)
    have halpha : FailsWithin InvalidArguments (Power.requireAlpha alpha) :=
      .ite (fun _ => failsWithin_ok) fun _ => failsWithin_error rfl
    exact halpha.bind fun _ _ => failsWithin_pure
  | pegged =>
    refine hreturn _ ((hnumber 256 (by decide)).bind fun rate _ => ?_)
    have hrate : FailsWithin InvalidArguments (Peg.requireRate rate) :=
      .ite (fun _ => failsWithin_error rfl) fun _ => failsWithin_ok
    exact hrate.bind fun _ _ => failsWithin_pure
  | density =>
    refine hreturn _ ((codes_density.failsWithin_whole bs).bind fun p _ => ?_)
    obtain ⟨capacity, basePrice, strength, shape, spread⟩ := p
    exact failsWithin_density _ _ _ _ _

/-! ### Writing in an assembly -/

/-- The step that appends the instruction, its parameters being given as data; `label` marks the
place that a jump goes to. -/
def step (label : String) : Instruction → Step
  | jump _ => .jump label
  | jumpIfTokenIn token _ => .jumpIfTokenIn (.text token) label
  | jumpIfTokenOut token _ => .jumpIfTokenOut (.text token) label
  | deadline time => .deadline (.int time)
  | takerHolds token => .takerHolds (.text token)
  | takerHoldsAtLeast token minimum => .takerHoldsAtLeast (.text token) (.int minimum)
  | takerShareAtLeast token minimum => .takerShareAtLeast (.text token) (.int minimum)
  | salt bytes => .salt (.bytes bytes)
  | staticBalances entries => .staticBalances (entries.map fun e => (.text e.1, .int e.2))
  | dynamicBalances entries => .dynamicBalances (entries.map fun e => (.text e.1, .int e.2))
  | decay period => .decay (.int period)
  | concentrate c =>
    .concentrate (.text c.tokenA) (.int c.deltaA) (.text c.tokenB) (.int c.deltaB)
      (.int c.liquidity)
  | flatFeeIn fee => .flatFeeIn (.int fee)
  | flatFeeOut fee => .flatFeeOut (.int fee)
  | dynamicFeeIn source => .dynamicFeeIn (.text source)
  | constantProduct alpha => .constantProduct (.int alpha)
  | pegged rate => .pegged (.int rate)
  | density curve =>
    .density (.int curve.capacity) (.int curve.basePrice) (.int curve.strength)
      (.int curve.shape.degree) (.int curve.spread)
  | inert number bytes => .raw (.int number) (.bytes bytes)

theorem entryFields_eq (es : Entries) :
    Intake.entryFields (es.map fun e => (.text e.1, .int e.2)) = Writer.entries (amounts es) := by
  induction es with
  | nil => rfl
  | cons e es ih =>
    simp only [List.map_cons, Intake.entryFields, amounts, Writer.entries, ih]
    rfl

theorem balancesField_eq (es : Entries) :
    Intake.balancesField (es.map fun e => (.text e.1, .int e.2)) =
      Writer.balances (amounts es) := by
  simp only [Intake.balancesField, Writer.balances, entryFields_eq, amounts, List.length_map]

/-- The instruction is appended with operands that become these arguments at a place where its label
is known. -/
def AppendsAs (i : Instruction) (label : String) (a b : Assembly) (bs : Bytes) : Prop :=
  ∃ operands, a.step (i.step label) = .ok (a.append (.int i.opcode.number) operands) ∧
    b.resolve operands = .ok bs

theorem append_inj {a : Assembly} {number : Datum} {o o' : Operands}
    (h : a.append number o = a.append number o') : o = o' := by
  have hitems := congrArg Assembly.items h
  simp only [Assembly.append, List.append_cancel_left_eq, List.cons.injEq, Item.mk.injEq, true_and,
    and_true] at hitems
  exact hitems

theorem appendsAs_of_step {i : Instruction} {label : String} {a b : Assembly} {bs : Bytes}
    (operands : Operands)
    (h : a.step (i.step label) = .ok (a.append (.int i.opcode.number) operands)) :
    AppendsAs i label a b bs ↔ b.resolve operands = .ok bs := by
  constructor
  · rintro ⟨operands', hstep, hresolve⟩
    rw [h] at hstep
    rwa [append_inj (Except.ok.inj hstep)]
  · exact fun hresolve => ⟨operands, h, hresolve⟩

theorem appendsAs_fields {i : Instruction} {label : String} {a b : Assembly} {bs : Bytes}
    (h : a.step (i.step label) = a.appendFields i.opcode i.fields) :
    AppendsAs i label a b bs ↔ i.block = .ok bs := by
  have happend : a.step (i.step label) =
      i.block >>= fun bs => pure (a.append (.int i.opcode.number) (.bytes bs)) := by
    rw [h, block, Assembly.appendFields]
    cases i.fields <;> rfl
  unfold AppendsAs
  rw [happend]
  constructor
  · rintro ⟨operands, hstep, hresolve⟩
    obtain ⟨bs', hbs', hstep⟩ := Outcome.bind_eq_ok.1 hstep
    rw [← append_inj (Outcome.pure_eq_ok.1 hstep)] at hresolve
    cases hresolve
    exact hbs'
  · exact fun hbs => ⟨.bytes bs, Outcome.bind_eq_ok.2 ⟨bs, hbs, rfl⟩, rfl⟩

/-- A label stands for the place that it names. -/
theorem resolve_target {b : Assembly} {label : String} {pc : Nat} (h : b.place label = .ok pc) :
    b.resolve (.target label) = (jump pc).block := by
  rw [Assembly.resolve, h]
  rfl

theorem resolve_tokenTarget {b : Assembly} {label : String} {pc : Nat}
    (h : b.place label = .ok pc) (token : String) :
    b.resolve (.tokenTarget (.text token) label) =
      tokenAnd token 16 pc >>= Writer.complete := by
  rw [Assembly.resolve, h]
  rfl

/-- **The steps of an assembly** write the blocks of their instructions. -/
theorem block_eq_ok_iff_appendsAs {i : Instruction} {label : String} {a b : Assembly} {bs : Bytes}
    (hplace : ∀ pc, i.target? = some pc → b.place label = .ok pc) :
    i.block = .ok bs ↔ AppendsAs i label a b bs ∧ bs.length ≤ Writer.maxSize := by
  have hsize : ∀ {P : Prop}, (P ↔ i.block = .ok bs) →
      (i.block = .ok bs ↔ P ∧ bs.length ≤ Writer.maxSize) := by
    intro P h
    rw [h]
    exact (and_iff_left_of_imp fun hbs => (block_eq_ok_iff.1 hbs).2).symm
  cases i with
  | jump pc =>
    refine hsize ?_
    rw [appendsAs_of_step (.target label) rfl, resolve_target (hplace pc rfl)]
  | jumpIfTokenIn token pc | jumpIfTokenOut token pc =>
    refine hsize ?_
    rw [appendsAs_of_step (.tokenTarget (.text token) label) rfl,
      resolve_tokenTarget (hplace pc rfl)]
    rfl
  | salt bytes | inert number bytes =>
    rw [block_eq_ok_iff, appendsAs_of_step (.bytes bytes) rfl]
    rfl
  | staticBalances es =>
    refine hsize (appendsAs_fields ?_)
    exact congrArg (a.appendFields .staticBalances) (balancesField_eq es)
  | dynamicBalances es =>
    refine hsize (appendsAs_fields ?_)
    exact congrArg (a.appendFields .dynamicBalances) (balancesField_eq es)
  | _ => exact hsize (appendsAs_fields rfl)

/-! ### Both directions -/

/-- **Writing and parsing** argument blocks are inverse on the instructions in range. What is
written and parses again is what is in range, and then the canonical form comes back. A block that
parses is the block of the instruction that it parses as, and what does not parse are invalid
arguments. The steps of an assembly write these blocks. -/
theorem parse_inverts_block (op : Opcode) :
    (∀ i j : Instruction, i.opcode = op →
      ((∃ bs, i.block = .ok bs ∧ parse op bs = .ok j) ↔ i.canonical = .ok j ∧ j.IsInRange)) ∧
    (∀ bs : Bytes, bs.length ≤ Writer.maxSize →
      (∀ i, parse op bs = .ok i → i.canonical = .ok i ∧ i.IsInRange ∧ i.block = .ok bs) ∧
        FailsWithin InvalidArguments (parse op bs)) ∧
    ∀ (i : Instruction) (label : String) (a b : Assembly) (bs : Bytes), i.opcode = op →
      (∀ pc, i.target? = some pc → b.place label = .ok pc) →
        (i.block = .ok bs ↔ AppendsAs i label a b bs ∧ bs.length ≤ Writer.maxSize) := by
  refine ⟨?_, fun bs hle => ⟨fun i hparse => ?_, failsWithin_parse op bs⟩,
    fun i label a b bs _ hplace => block_eq_ok_iff_appendsAs hplace⟩
  · rintro i j rfl
    constructor
    · rintro ⟨bs, hblock, hparse⟩
      have hop := (parse_eq_ok hparse).1
      rw [← hop, parse_self_iff] at hparse
      have hfields := (block_eq_ok_iff.1 hblock).1
      obtain ⟨k, hk⟩ := exists_canonical hfields
      have hrespells := respells_of_canonical hk
      have hjk : j = k := fields_inj (hop.trans hrespells.opcode) hparse.canonical
        hrespells.canonical hparse.written (hrespells.fields ▸ hfields)
      subst hjk
      refine ⟨hk, (isInRange_iff hparse.canonical).2 ⟨bs, ?_, hparse⟩⟩
      exact block_eq_ok_iff.2 ⟨hparse.written, (block_eq_ok_iff.1 hblock).2⟩
    · rintro ⟨hcanonical, hrange⟩
      have hrespells := respells_of_canonical hcanonical
      obtain ⟨bs, hblock, hspells⟩ := (isInRange_iff hrespells.canonical).1 hrange
      refine ⟨bs, ?_, ?_⟩
      · rw [block, hrespells.fields]
        exact hblock
      · rw [hrespells.opcode, parse_self_iff]
        exact hspells
  · obtain rfl := (parse_eq_ok hparse).1
    rw [parse_self_iff] at hparse
    have hblock := block_eq_ok_iff.2 ⟨hparse.written, hle⟩
    exact ⟨hparse.canonical, (isInRange_iff hparse.canonical).2 ⟨bs, hblock, hparse⟩, hblock⟩

/-- Balances of two tokens, one in capital letters between blanks and one without a mark. -/
def spelledBalances : Instruction :=
  staticBalances [(" 0xABABABABABABABABABABABABABABABABABABABAB ", 5),
    ("cdcdcdcdcdcdcdcdcdcdcdcdcdcdcdcdcdcdcdcd", 7)]

/-- The same balances with canonical tokens. -/
def plainBalances : Instruction :=
  staticBalances [("0xabababababababababababababababababababab", 5),
    ("0xcdcdcdcdcdcdcdcdcdcdcdcdcdcdcdcdcdcdcdcd", 7)]

theorem parse_inverts_block_spelledBalances :
    (∃ bs, spelledBalances.block = .ok bs ∧ parse .staticBalances bs = .ok plainBalances ∧
      plainBalances.block = .ok bs) ∧
    AppendsAs (jump 5) "end" .empty ⟨[], [("end", 5)], 5⟩ [0, 5] := by
  obtain ⟨hinverse, hblocks, -⟩ := parse_inverts_block .staticBalances
  obtain ⟨-, -, hsteps⟩ := parse_inverts_block .jump
  have hcanonical : spelledBalances.canonical = .ok plainBalances :=
    Outcome.eq_ok_of_toOption (by decide +kernel)
  have hfits : ∀ e ∈ plainBalances.entries, e.2 < 2 ^ 256 := by decide
  have hrange : plainBalances.IsInRange := ⟨trivial, hfits, by decide, by decide⟩
  obtain ⟨bs, hwritten, hparse⟩ := (hinverse _ _ rfl).2 ⟨hcanonical, hrange⟩
  have hplain := ((hblocks bs (block_eq_ok_iff.1 hwritten).2).1 _ hparse).2.2
  have hjump := hsteps (jump 5) "end" .empty ⟨[], [("end", 5)], 5⟩ [0, 5] rfl fun pc hpc => by
    cases hpc
    rfl
  exact ⟨⟨bs, hwritten, hparse, hplain⟩, (hjump.1 rfl).1⟩

end Instruction

end SwapMachine
