import SwapMachine.Proofs.Codec
import SwapMachine.Proofs.Parameter

/-!
# SwapMachine.Proofs.Spelling — the block that parses as an instruction

* `Instruction.canonical`: the instruction with its addresses in canonical form; it is written like
  the one that it comes from (`respells_of_canonical`).
* `Instruction.Spells`: an instruction is canonical, its parameters are valid, and these bytes are
  its fields.
* `Instruction.parse_self_iff`: a block parses as exactly the instructions that it spells.
-/

namespace SwapMachine

theorem Outcome.return_eq_ok_iff {α β : Type} {x : Outcome α} {c : α → β}
    (hc : ∀ a b, c a = c b → a = b) {a : α} :
    (x >>= fun a => pure (c a)) = .ok (c a) ↔ x = .ok a := by
  rw [Outcome.bind_eq_ok]
  constructor
  · rintro ⟨b, hx, hb⟩
    rw [← hc b a (Outcome.pure_eq_ok.1 hb)]
    exact hx
  · exact fun hx => ⟨a, hx, rfl⟩

theorem Outcome.checked_eq_ok_iff {α : Type} {x : Outcome α} {c : α → Prop} [DecidablePred c]
    {f : α → Fault} {a : α} :
    (x >>= fun a => if c a then .error (f a) else pure a) = .ok a ↔ x = .ok a ∧ ¬ c a := by
  rw [Outcome.bind_eq_ok]
  constructor
  · rintro ⟨b, hx, h⟩
    split at h
    · cases h
    · next hc =>
      cases h
      exact ⟨hx, hc⟩
  · rintro ⟨hx, hc⟩
    exact ⟨a, hx, if_neg hc⟩

namespace Curve

open FixedPoint

theorem Shape.ofNumber?_eq_some {z : Int} {s : Shape} (h : ofNumber? z = some s) :
    z = s.degree := by
  unfold ofNumber? at h
  split at h <;> cases h <;> rfl

/-- The curve that is made has the parameters that were given. -/
theorem Density.make_eq_ok_iff {capacity basePrice strength shape spread : Int} {d : Density} :
    make capacity basePrice strength (.int shape) spread = .ok d ↔
      capacity = d.capacity ∧ basePrice = d.basePrice ∧ strength = d.strength ∧
        shape = d.shape.degree ∧ spread = d.spread := by
  unfold make
  constructor
  · intro h
    split at h
    · cases h
    · split at h
      · cases h
      · split at h
        · cases h
        · split at h
          · split at h
            · next s hs =>
              cases h
              exact ⟨rfl, rfl, rfl, Shape.ofNumber?_eq_some hs, rfl⟩
            · cases h
          · cases h
  · rintro ⟨rfl, rfl, rfl, rfl, rfl⟩
    have hshape : (Datum.int d.shape.degree).whole?.bind Shape.ofNumber? = some d.shape :=
      Shape.ofNumber?_degree d.shape
    rw [dif_neg (Int.not_le.2 d.capacity_pos), dif_neg (Int.not_le.2 d.basePrice_pos),
      dif_neg (Int.not_lt.2 d.strength_nonneg), dif_pos ⟨d.spread_nonneg, d.spread_lt⟩, hshape]

end Curve

namespace Instruction

open Block Curve FixedPoint

/-! ### Canonical parameters -/

/-- The canonical text of an address. -/
def canonicalToken (token : String) : Outcome String :=
  Outcome.ofHex (Address.canonical "address" token)

/-- Balances with their tokens in canonical form. -/
def canonicalEntries : Entries → Outcome Entries
  | [] => .ok []
  | (token, amount) :: es => return (← canonicalToken token, amount) :: (← canonicalEntries es)

/-- The instruction with its addresses in canonical form. -/
def canonical : Instruction → Outcome Instruction
  | jumpIfTokenIn token target => return jumpIfTokenIn (← canonicalToken token) target
  | jumpIfTokenOut token target => return jumpIfTokenOut (← canonicalToken token) target
  | takerHolds token => return takerHolds (← canonicalToken token)
  | takerHoldsAtLeast token minimum =>
    return takerHoldsAtLeast (← canonicalToken token) minimum
  | takerShareAtLeast token minimum =>
    return takerShareAtLeast (← canonicalToken token) minimum
  | staticBalances entries => return staticBalances (← canonicalEntries entries)
  | dynamicBalances entries => return dynamicBalances (← canonicalEntries entries)
  | concentrate c =>
    return concentrate ⟨← canonicalToken c.tokenA, c.deltaA, ← canonicalToken c.tokenB, c.deltaB,
      c.liquidity⟩
  | dynamicFeeIn source => return dynamicFeeIn (← canonicalToken source)
  | i => .ok i

/-- The balances that an instruction lists. -/
def entries : Instruction → Entries
  | staticBalances entries => entries
  | dynamicBalances entries => entries
  | _ => []

theorem canonicalToken_eq_ok {token text : String} :
    canonicalToken token = .ok text ↔ Address.canonical "address" token = .ok text :=
  Outcome.ofHex_eq_ok_iff

/-- A text and its canonical form are written as the same bytes. -/
theorem address_of_canonicalToken {token text : String} (h : canonicalToken token = .ok text) :
    canonicalToken text = .ok text ∧ ∃ bs, bs.length = Address.size ∧
      Writer.address token = .ok bs ∧ Writer.address text = .ok bs := by
  rw [canonicalToken_eq_ok] at h
  obtain ⟨bs, hsize, -, rfl⟩ := Address.canonical_eq_ok_iff.1 h
  have hself := Address.canonical_ofBytes hsize "address"
  exact ⟨canonicalToken_eq_ok.2 hself, bs, hsize, Writer.address_eq_ok_iff.2 ⟨hsize, h⟩,
    Writer.address_eq_ok_iff.2 ⟨hsize, hself⟩⟩

theorem address_congr {token text : String} (h : canonicalToken token = .ok text) :
    Writer.address token = Writer.address text := by
  obtain ⟨-, bs, -, htoken, htext⟩ := address_of_canonicalToken h
  rw [htoken, htext]

theorem tokenAnd_congr {token text : String} (h : canonicalToken token = .ok text) (bits : Nat)
    (value : Int) : tokenAnd token bits value = tokenAnd text bits value := by
  unfold tokenAnd
  rw [address_congr h]

theorem canonicalEntries_cons {token : String} {amount : Nat} {es es' : Entries} :
    canonicalEntries ((token, amount) :: es) = .ok es' ↔ ∃ text rest,
      canonicalToken token = .ok text ∧ canonicalEntries es = .ok rest ∧
        es' = (text, amount) :: rest := by
  simp only [canonicalEntries, Outcome.bind_eq_ok, Outcome.pure_eq_ok]
  constructor
  · rintro ⟨text, htext, rest, hrest, rfl⟩
    exact ⟨text, rest, htext, hrest, rfl⟩
  · rintro ⟨text, rest, htext, hrest, rfl⟩
    exact ⟨text, htext, rest, hrest, rfl⟩

/-- Balances and their canonical form are written alike. -/
theorem entries_of_canonicalEntries {es es' : Entries} (h : canonicalEntries es = .ok es') :
    canonicalEntries es' = .ok es' ∧ es.length = es'.length ∧
      Writer.entries (amounts es) = Writer.entries (amounts es') := by
  induction es generalizing es' with
  | nil => cases h; exact ⟨rfl, rfl, rfl⟩
  | cons e es ih =>
    obtain ⟨text, rest, htext, hrest, rfl⟩ := canonicalEntries_cons.1 h
    obtain ⟨hself, hlen, hw⟩ := ih hrest
    refine ⟨canonicalEntries_cons.2 ⟨text, rest, (address_of_canonicalToken htext).1, hself, rfl⟩,
      congrArg (· + 1) hlen, ?_⟩
    simp only [amounts, List.map_cons, Writer.entries]
    rw [address_congr htext]
    simp only [amounts] at hw
    rw [hw]

theorem balances_of_canonicalEntries {es es' : Entries} (h : canonicalEntries es = .ok es') :
    Writer.balances (amounts es) = Writer.balances (amounts es') := by
  obtain ⟨-, hlen, hw⟩ := entries_of_canonicalEntries h
  simp only [Writer.balances, amounts, List.length_map] at hw ⊢
  rw [hlen, hw]

theorem canonicalEntries_self_iff {es : Entries} :
    canonicalEntries es = .ok es ↔ ∀ e ∈ es, Address.canonical "address" e.1 = .ok e.1 := by
  induction es with
  | nil => exact iff_of_true rfl fun _ h => absurd h List.not_mem_nil
  | cons e es ih =>
    obtain ⟨token, amount⟩ := e
    rw [canonicalEntries_cons, List.forall_mem_cons, ← ih, ← canonicalToken_eq_ok]
    constructor
    · rintro ⟨text, rest, htext, hrest, heq⟩
      cases heq
      exact ⟨htext, hrest⟩
    · rintro ⟨htext, hrest⟩
      exact ⟨token, es, htext, hrest, rfl⟩

/-- An instruction that differs from another one in the spelling of its addresses only, the other
one's being canonical. -/
structure Respells (i j : Instruction) : Prop where
  opcode : i.opcode = j.opcode
  canonical : j.canonical = .ok j
  fields : i.fields = j.fields

theorem respells_of_canonical {i j : Instruction} (h : i.canonical = .ok j) : Respells i j := by
  cases i with
  | jump | deadline | salt | decay | flatFeeIn | flatFeeOut | constantProduct | pegged | density
  | inert =>
    cases h
    exact ⟨rfl, rfl, rfl⟩
  | jumpIfTokenIn token | jumpIfTokenOut token | takerHoldsAtLeast token
  | takerShareAtLeast token =>
    obtain ⟨text, htext, h⟩ := Outcome.bind_eq_ok.1 h
    cases h
    refine ⟨rfl, ?_, tokenAnd_congr htext _ _⟩
    rw [canonical, (address_of_canonicalToken htext).1]
    rfl
  | takerHolds token | dynamicFeeIn token =>
    obtain ⟨text, htext, h⟩ := Outcome.bind_eq_ok.1 h
    cases h
    refine ⟨rfl, ?_, address_congr htext⟩
    rw [canonical, (address_of_canonicalToken htext).1]
    rfl
  | staticBalances es | dynamicBalances es =>
    obtain ⟨es', hes, h⟩ := Outcome.bind_eq_ok.1 h
    cases h
    refine ⟨rfl, ?_, balances_of_canonicalEntries hes⟩
    rw [canonical, (entries_of_canonicalEntries hes).1]
    rfl
  | concentrate c =>
    obtain ⟨a, ha, h⟩ := Outcome.bind_eq_ok.1 h
    obtain ⟨b, hb, h⟩ := Outcome.bind_eq_ok.1 h
    cases h
    refine ⟨rfl, ?_, ?_⟩
    · rw [canonical, (address_of_canonicalToken ha).1, (address_of_canonicalToken hb).1]
      rfl
    · simp only [fields, concentrationFields, tokenAnd_congr ha, tokenAnd_congr hb]

/-! ### What parses -/

theorem tokenAnd_eq_ok {token : String} {bits : Nat} {value : Int} {bs : Bytes} :
    tokenAnd token bits value = .ok bs ↔
      ∃ x y, Writer.address token = .ok x ∧ Writer.uint bits value = .ok y ∧ bs = x ++ y := by
  simp only [tokenAnd, Outcome.bind_eq_ok, Outcome.pure_eq_ok]
  constructor
  · rintro ⟨x, hx, y, hy, rfl⟩
    exact ⟨x, y, hx, hy, rfl⟩
  · rintro ⟨x, y, hx, hy, rfl⟩
    exact ⟨x, hx, y, hy, rfl⟩

theorem codes_tokenAnd (bits : Nat) (hbits : 8 ∣ bits) :
    Codes (return (← Reader.address, ← Reader.uint bits) : Reader (String × Nat))
      fun p front => Address.canonical "address" p.1 = .ok p.1 ∧
        tokenAnd p.1 bits p.2 = .ok front := by
  refine (codes_address.bind fun token =>
    (codes_uint bits hbits).map (token, ·)).congr fun p front => ?_
  rw [tokenAnd_eq_ok]
  constructor
  · rintro ⟨token, x, y, ⟨hc, hx⟩, ⟨n, hy, rfl⟩, rfl⟩
    exact ⟨hc, x, y, hx, hy, rfl⟩
  · rintro ⟨hc, x, y, hx, hy, rfl⟩
    exact ⟨p.1, x, y, ⟨hc, hx⟩, ⟨p.2, hy, rfl⟩, rfl⟩

theorem codes_concentration : Codes concentration fun c front =>
    Address.canonical "address" c.tokenA = .ok c.tokenA ∧
      Address.canonical "address" c.tokenB = .ok c.tokenB ∧
        concentrationFields c = .ok front := by
  have hwide := codes_uint 256 (by decide)
  refine (codes_address.bind fun tokenA => hwide.bind fun deltaA => codes_address.bind
    fun tokenB => hwide.bind fun deltaB => hwide.map fun liquidity =>
      (⟨tokenA, deltaA, tokenB, deltaB, liquidity⟩ : Concentration)).congr fun c front => ?_
  simp only [concentrationFields, Outcome.bind_eq_ok, Outcome.pure_eq_ok, tokenAnd_eq_ok]
  constructor
  · rintro ⟨a, x, _, ⟨ha, hx⟩, ⟨da, y, _, hy, ⟨b, u, _, ⟨hb, hu⟩, ⟨db, v, w, hv, ⟨l, hw, rfl⟩,
      rfl⟩, rfl⟩, rfl⟩, rfl⟩
    exact ⟨ha, hb, x ++ y, ⟨x, y, hx, hy, rfl⟩, u ++ v, ⟨u, v, hu, hv, rfl⟩, w, hw, by
      simp only [List.append_assoc]⟩
  · rintro ⟨ha, hb, _, ⟨x, y, hx, hy, rfl⟩, _, ⟨u, v, hu, hv, rfl⟩, w, hw, rfl⟩
    exact ⟨c.tokenA, x, _, ⟨ha, hx⟩, ⟨c.deltaA, y, _, hy, ⟨c.tokenB, u, _, ⟨hb, hu⟩,
      ⟨c.deltaB, v, w, hv, ⟨c.liquidity, hw, rfl⟩, rfl⟩, rfl⟩, rfl⟩, by
        simp only [List.append_assoc]⟩

theorem codes_density : Codes densityFields fun p front => ∃ x y z u v,
    Writer.uint 256 p.1 = .ok x ∧ Writer.uint 256 p.2.1 = .ok y ∧ Writer.uint 256 p.2.2.1 = .ok z ∧
      Writer.uint 8 p.2.2.2.1 = .ok u ∧ Writer.uint 16 p.2.2.2.2 = .ok v ∧
        front = x ++ y ++ z ++ u ++ v := by
  have hwide := codes_uint 256 (by decide)
  refine (hwide.bind fun capacity => hwide.bind fun basePrice => hwide.bind fun strength =>
    (codes_uint 8 (by decide)).bind fun shape => (codes_uint 16 (by decide)).map fun spread =>
      (capacity, basePrice, strength, shape, spread)).congr fun p front => ?_
  constructor
  · rintro ⟨_, x, _, hx, ⟨_, y, _, hy, ⟨_, z, _, hz, ⟨_, u, v, hu, ⟨_, hv, rfl⟩, rfl⟩, rfl⟩, rfl⟩,
      rfl⟩
    exact ⟨x, y, z, u, v, hx, hy, hz, hu, hv, by simp only [List.append_assoc]⟩
  · rintro ⟨x, y, z, u, v, hx, hy, hz, hu, hv, rfl⟩
    exact ⟨_, x, _, hx, ⟨_, y, _, hy, ⟨_, z, _, hz, ⟨_, u, v, hu, ⟨_, hv, rfl⟩, rfl⟩, rfl⟩, rfl⟩,
      by simp only [List.append_assoc]⟩

theorem parseFee_eq_ok_iff {bs : Bytes} {fee : Nat} :
    parseFee bs = .ok fee ↔ Writer.uint 16 fee = .ok bs ∧ (fee : Int) < bpsWhole := by
  constructor
  · intro h
    have hlt := fee_lt_of_parseFee h
    obtain ⟨n, hn, h⟩ := Outcome.bind_eq_ok.1 h
    split at h
    · cases h
      exact ⟨(codes_uint 16 (by decide)).whole_eq_ok_iff.1 hn, hlt⟩
    · cases h
  · rintro ⟨hw, hlt⟩
    have hfee : fee? (.int fee) = .ok (fee : Int) := by
      rw [fee?, if_pos ⟨Int.natCast_nonneg _, hlt⟩]
    refine Outcome.bind_eq_ok.2 ⟨fee, (codes_uint 16 (by decide)).whole_eq_ok_iff.2 hw, ?_⟩
    rw [hfee]
    rfl

theorem parsePeriod_eq_ok_iff {bs : Bytes} {period : Nat} :
    parsePeriod bs = .ok period ↔ Writer.uint 32 period = .ok bs ∧ 0 < period := by
  rw [Nat.pos_iff_ne_zero, ← (codes_uint 32 (by decide)).whole_eq_ok_iff]
  exact Outcome.checked_eq_ok_iff

theorem parseConcentration_eq_ok_iff {bs : Bytes} {c : Concentration} :
    parseConcentration bs = .ok c ↔ (Address.canonical "address" c.tokenA = .ok c.tokenA ∧
      Address.canonical "address" c.tokenB = .ok c.tokenB ∧ concentrationFields c = .ok bs) ∧
        c.tokenA ≠ c.tokenB ∧ 0 < c.liquidity := by
  rw [← codes_concentration.whole_eq_ok_iff]
  constructor
  · intro h
    have hvalid := valid_of_parseConcentration h
    obtain ⟨d, hd, h⟩ := Outcome.bind_eq_ok.1 h
    split at h
    · cases h
    · split at h
      · cases h
      · cases h
        exact ⟨hd, hvalid⟩
  · rintro ⟨hc, hne, hpos⟩
    exact Outcome.bind_eq_ok.2 ⟨c, hc, by rw [if_neg hne, if_neg (by omega)]; rfl⟩

theorem parseAlpha_eq_ok_iff {bs : Bytes} {alpha : Nat} :
    parseAlpha bs = .ok alpha ↔
      Writer.uint 64 alpha = .ok bs ∧ 0 < (alpha : Int) ∧ (alpha : Int) ≤ one := by
  rw [← (codes_uint 64 (by decide)).whole_eq_ok_iff, ← requireAlpha_eq_ok_iff]
  constructor
  · intro h
    obtain ⟨n, hn, h⟩ := Outcome.bind_eq_ok.1 h
    obtain ⟨_, ha, h⟩ := Outcome.bind_eq_ok.1 h
    cases h
    exact ⟨hn, ha⟩
  · rintro ⟨hn, ha⟩
    exact Outcome.bind_eq_ok.2 ⟨alpha, hn, Outcome.bind_eq_ok.2 ⟨(), ha, rfl⟩⟩

theorem parseRate_eq_ok_iff {bs : Bytes} {rate : Nat} :
    parseRate bs = .ok rate ↔ Writer.uint 256 rate = .ok bs ∧ 0 < (rate : Int) := by
  rw [← (codes_uint 256 (by decide)).whole_eq_ok_iff, ← requireRate_eq_ok_iff]
  constructor
  · intro h
    obtain ⟨n, hn, h⟩ := Outcome.bind_eq_ok.1 h
    obtain ⟨_, hr, h⟩ := Outcome.bind_eq_ok.1 h
    cases h
    exact ⟨hn, hr⟩
  · rintro ⟨hn, hr⟩
    exact Outcome.bind_eq_ok.2 ⟨rate, hn, Outcome.bind_eq_ok.2 ⟨(), hr, rfl⟩⟩

theorem parseDensity_eq_ok_iff {bs : Bytes} {curve : Density} :
    parseDensity bs = .ok curve ↔ curveFields curve = .ok bs := by
  simp only [curveFields, Outcome.bind_eq_ok, Outcome.pure_eq_ok]
  constructor
  · intro h
    obtain ⟨⟨capacity, basePrice, strength, shape, spread⟩, hp, hmake⟩ := Outcome.bind_eq_ok.1 h
    obtain ⟨x, y, z, u, v, hx, hy, hz, hu, hv, rfl⟩ := codes_density.whole_eq_ok_iff.1 hp
    obtain ⟨hc, hb, hs, hn, hd⟩ := Density.make_eq_ok_iff.1 hmake
    rw [← hc, ← hb, ← hs, ← hn, ← hd]
    exact ⟨x, hx, y, hy, z, hz, u, hu, v, hv, rfl⟩
  · rintro ⟨x, hx, y, hy, z, hz, u, hu, v, hv, rfl⟩
    have hc := Int.toNat_of_nonneg (Int.le_of_lt curve.capacity_pos)
    have hb := Int.toNat_of_nonneg (Int.le_of_lt curve.basePrice_pos)
    have hs := Int.toNat_of_nonneg curve.strength_nonneg
    have hd := Int.toNat_of_nonneg curve.spread_nonneg
    refine Outcome.bind_eq_ok.2 ⟨(curve.capacity.toNat, curve.basePrice.toNat,
      curve.strength.toNat, curve.shape.degree, curve.spread.toNat),
      codes_density.whole_eq_ok_iff.2 ⟨x, y, z, u, v, ?_⟩, Density.make_eq_ok_iff.2 ?_⟩
    · dsimp only
      rw [hc, hb, hs, hd]
      exact ⟨hx, hy, hz, hu, hv, rfl⟩
    · exact ⟨hc, hb, hs, rfl, hd⟩

/-- The block that an instruction with valid parameters in canonical form is written as, but for the
limit on its size. -/
structure Spells (i : Instruction) (bs : Bytes) : Prop where
  canonical : i.canonical = .ok i
  valid : i.IsValid
  nodup : (i.entries.map Prod.fst).Nodup
  written : i.fields = .ok bs

theorem canonical_concentrate_iff {c : Concentration} :
    (concentrate c).canonical = .ok (concentrate c) ↔
      Address.canonical "address" c.tokenA = .ok c.tokenA ∧
        Address.canonical "address" c.tokenB = .ok c.tokenB := by
  simp only [canonical, Outcome.bind_eq_ok, Outcome.pure_eq_ok, ← canonicalToken_eq_ok]
  constructor
  · rintro ⟨a, ha, b, hb, h⟩
    obtain ⟨tokenA, deltaA, tokenB, deltaB, liquidity⟩ := c
    cases h
    exact ⟨ha, hb⟩
  · rintro ⟨ha, hb⟩
    exact ⟨_, ha, _, hb, rfl⟩

/-- Without balances only the tokens, the fields and the checks of parsing are left. -/
theorem spells_iff {i : Instruction} {bs : Bytes} {tokens : Prop}
    (hc : i.canonical = .ok i ↔ tokens) (hn : i.entries = []) :
    i.Spells bs ↔ (tokens ∧ i.fields = .ok bs) ∧ i.IsValid := by
  rw [← hc]
  exact ⟨fun h => ⟨⟨h.canonical, h.written⟩, h.valid⟩,
    fun h => ⟨h.1.1, h.2, by rw [hn]; exact List.nodup_nil, h.1.2⟩⟩

theorem spells_plain_iff {i : Instruction} {bs : Bytes} (hc : i.canonical = .ok i)
    (hn : i.entries = []) : i.Spells bs ↔ i.fields = .ok bs ∧ i.IsValid := by
  rw [spells_iff (iff_of_true hc trivial) hn, true_and]

/-! An operation with a token is read by reading the token, and what comes behind it. -/

section Tokens

variable {token : String} {bs : Bytes}

theorem spells_token_iff {c : String → Instruction} (hinj : ∀ a b, c a = c b → a = b)
    (hc : ∀ t, (c t).canonical = (canonicalToken t >>= fun text => pure (c text)))
    (hn : (c token).entries = []) : (c token).Spells bs ↔
      (Address.canonical "address" token = .ok token ∧ (c token).fields = .ok bs) ∧
        (c token).IsValid := by
  refine spells_iff ?_ hn
  rw [hc]
  exact (Outcome.return_eq_ok_iff hinj).trans canonicalToken_eq_ok

theorem whole_token_iff {c : String → Instruction} (hinj : ∀ a b, c a = c b → a = b)
    (hc : ∀ t, (c t).canonical = (canonicalToken t >>= fun text => pure (c text)))
    (hn : (c token).entries = []) (hw : (c token).fields = Writer.address token)
    (hvalid : (c token).IsValid) :
    (Reader.whole Reader.address bs >>= fun t => pure (c t)) = .ok (c token) ↔
      (c token).Spells bs := by
  rw [Outcome.return_eq_ok_iff hinj, codes_address.whole_eq_ok_iff, spells_token_iff hinj hc hn, hw]
  exact (and_iff_left hvalid).symm

theorem whole_tokenAnd_iff {c : String → Nat → Instruction} {n bits : Nat} (hbits : 8 ∣ bits)
    (hinj : ∀ p q : String × Nat, c p.1 p.2 = c q.1 q.2 → p = q)
    (hc : ∀ t, (c t n).canonical = (canonicalToken t >>= fun text => pure (c text n)))
    (hn : (c token n).entries = []) (hw : (c token n).fields = tokenAnd token bits n)
    (hvalid : (c token n).IsValid) :
    (Reader.whole (return (← Reader.address, ← Reader.uint bits)) bs >>= fun p =>
      pure (c p.1 p.2)) = .ok (c token n) ↔ (c token n).Spells bs := by
  have hfirst : ∀ a b, c a n = c b n → a = b :=
    fun a b h => congrArg Prod.fst (hinj (a, n) (b, n) h)
  refine (Outcome.return_eq_ok_iff (c := fun p : String × Nat => c p.1 p.2) (a := (token, n))
    hinj).trans ?_
  rw [(codes_tokenAnd bits hbits).whole_eq_ok_iff, spells_token_iff (c := (c · n)) hfirst hc hn, hw]
  exact (and_iff_left hvalid).symm

end Tokens

theorem whole_balances_iff {c : Entries → Instruction} {es : Entries} {bs : Bytes}
    (hinj : ∀ a b, c a = c b → a = b)
    (hc : ∀ es, (c es).canonical = (canonicalEntries es >>= fun es => pure (c es)))
    (hn : (c es).entries = es) (hw : (c es).fields = Writer.balances (amounts es))
    (hvalid : (c es).IsValid) :
    (Reader.whole Reader.balances bs >>= fun es => pure (c es)) = .ok (c es) ↔
      (c es).Spells bs := by
  have hself : (c es).canonical = .ok (c es) ↔
      ∀ e ∈ es, Address.canonical "address" e.1 = .ok e.1 := by
    rw [hc]
    exact (Outcome.return_eq_ok_iff hinj).trans canonicalEntries_self_iff
  rw [Outcome.return_eq_ok_iff hinj, codes_balances.whole_eq_ok_iff]
  constructor
  · rintro ⟨⟨hcanonical, hnodup⟩, hwritten⟩
    exact ⟨hself.2 hcanonical, hvalid, by rwa [hn], by rwa [hw]⟩
  · rintro ⟨hcanonical, -, hnodup, hwritten⟩
    rw [hn] at hnodup
    exact ⟨⟨hself.1 hcanonical, hnodup⟩, by rw [← hw, hwritten]⟩

/-- **Parsing** gives an instruction for exactly the block that spells it. -/
theorem parse_self_iff {i : Instruction} {bs : Bytes} :
    parse i.opcode bs = .ok i ↔ i.Spells bs := by
  cases i with
  | salt bytes | inert number bytes =>
    rw [spells_plain_iff rfl rfl]
    constructor
    · intro h
      cases h
      exact ⟨rfl, trivial⟩
    · rintro ⟨h, -⟩
      cases h
      rfl
  | jump n | deadline n =>
    refine (Outcome.return_eq_ok_iff fun _ _ h => by injection h).trans ?_
    rw [spells_plain_iff rfl rfl, (codes_uint _ (by decide)).whole_eq_ok_iff]
    exact (and_iff_left trivial).symm
  | decay n =>
    refine (Outcome.return_eq_ok_iff fun _ _ h => by injection h).trans ?_
    rw [spells_plain_iff rfl rfl]
    exact parsePeriod_eq_ok_iff
  | flatFeeIn n | flatFeeOut n =>
    refine (Outcome.return_eq_ok_iff fun _ _ h => by injection h).trans ?_
    rw [spells_plain_iff rfl rfl]
    exact parseFee_eq_ok_iff
  | constantProduct n =>
    refine (Outcome.return_eq_ok_iff fun _ _ h => by injection h).trans ?_
    rw [spells_plain_iff rfl rfl]
    exact parseAlpha_eq_ok_iff
  | pegged n =>
    refine (Outcome.return_eq_ok_iff fun _ _ h => by injection h).trans ?_
    rw [spells_plain_iff rfl rfl]
    exact parseRate_eq_ok_iff
  | density curve =>
    refine (Outcome.return_eq_ok_iff fun _ _ h => by injection h).trans ?_
    rw [spells_plain_iff rfl rfl, parseDensity_eq_ok_iff]
    exact (and_iff_left trivial).symm
  | takerHolds token =>
    exact whole_token_iff (c := takerHolds) (fun _ _ h => by injection h) (fun _ => rfl) rfl rfl
      trivial
  | dynamicFeeIn token =>
    exact whole_token_iff (c := dynamicFeeIn) (fun _ _ h => by injection h) (fun _ => rfl) rfl rfl
      trivial
  | jumpIfTokenIn token n =>
    exact whole_tokenAnd_iff (c := jumpIfTokenIn) (by decide)
      (fun _ _ h => by injection h; exact Prod.ext ‹_› ‹_›) (fun _ => rfl) rfl rfl trivial
  | jumpIfTokenOut token n =>
    exact whole_tokenAnd_iff (c := jumpIfTokenOut) (by decide)
      (fun _ _ h => by injection h; exact Prod.ext ‹_› ‹_›) (fun _ => rfl) rfl rfl trivial
  | takerHoldsAtLeast token n =>
    exact whole_tokenAnd_iff (c := takerHoldsAtLeast) (by decide)
      (fun _ _ h => by injection h; exact Prod.ext ‹_› ‹_›) (fun _ => rfl) rfl rfl trivial
  | takerShareAtLeast token n =>
    exact whole_tokenAnd_iff (c := takerShareAtLeast) (by decide)
      (fun _ _ h => by injection h; exact Prod.ext ‹_› ‹_›) (fun _ => rfl) rfl rfl trivial
  | staticBalances es =>
    exact whole_balances_iff (c := staticBalances) (fun _ _ h => by injection h) (fun _ => rfl) rfl
      rfl trivial
  | dynamicBalances es =>
    exact whole_balances_iff (c := dynamicBalances) (fun _ _ h => by injection h) (fun _ => rfl) rfl
      rfl trivial
  | concentrate c =>
    refine (Outcome.return_eq_ok_iff fun _ _ h => by injection h).trans ?_
    rw [spells_iff canonical_concentrate_iff rfl, parseConcentration_eq_ok_iff]
    exact and_congr_left' and_assoc.symm

end Instruction

end SwapMachine
