import Mathlib.Algebra.Order.Ring.Nat
import SwapMachine.Block.Reader
import SwapMachine.Block.Writer
import SwapMachine.Proofs.AddressText
import SwapMachine.Proofs.Failure

/-!
# SwapMachine.Proofs.Codec — what readers of argument blocks read, and what they refuse

* `Codes r written`: the reader takes a value off exactly those fronts that are written for it, and
  everything else it refuses as invalid arguments.  One rule for each way in which readers are put
  together, so that a reader of several fields is settled field by field.
* `codes_uint`, `codes_address`, `codes_balances`: the fields, against what `Writer` gives.
* `Codes.whole_eq_ok_iff`, `Codes.failsWithin_whole`: the reader of a block reads exactly the blocks
  that are written for a value, and refuses the others.
-/

namespace SwapMachine

/-- The cause is an invalid argument block, of whatever refinement. -/
def InvalidArguments (f : Fault) : Prop := f.kind.isArguments = true

namespace Block

/-! ### Numbers in bytes -/

namespace Number

theorem toBytes_ofBytes {width : Nat} {bs : Bytes} (h : bs.length = width) :
    toBytes width (ofBytes bs) = bs := by
  induction width generalizing bs with
  | zero => rw [List.eq_nil_of_length_eq_zero h]; rfl
  | succ width ih =>
    have hne : bs ≠ [] := List.ne_nil_of_length_eq_add_one h
    obtain ⟨front, b, rfl⟩ : ∃ front b, bs = front ++ [b] :=
      ⟨bs.dropLast, bs.getLast hne, (List.dropLast_concat_getLast hne).symm⟩
    have hfront : front.length = width := by
      rw [List.length_append, List.length_singleton] at h
      omega
    have hb := b.toNat_lt
    rw [ofBytes_concat, toBytes,
      show (256 * ofBytes front + b.toNat) / 256 = ofBytes front by omega,
      show (256 * ofBytes front + b.toNat) % 256 = b.toNat by omega, ih hfront, UInt8.ofNat_toNat]

theorem ofBytes_lt (bs : Bytes) : ofBytes bs < 256 ^ bs.length := by
  induction hn : bs.length generalizing bs with
  | zero => rw [List.eq_nil_of_length_eq_zero hn]; decide
  | succ width ih =>
    have hne : bs ≠ [] := List.ne_nil_of_length_eq_add_one hn
    obtain ⟨front, b, rfl⟩ : ∃ front b, bs = front ++ [b] :=
      ⟨bs.dropLast, bs.getLast hne, (List.dropLast_concat_getLast hne).symm⟩
    rw [List.length_append, List.length_singleton] at hn
    have hfront := ih front (by omega)
    have hb := b.toNat_lt
    rw [ofBytes_concat, Nat.pow_succ]
    omega

end Number

namespace Writer

/-- A number is written in as many bytes as it is wide, and they stand for it. -/
theorem uint_eq_ok_iff {width n : Nat} {bs : Bytes} :
    uint (8 * width) n = .ok bs ↔ bs.length = width ∧ Number.ofBytes bs = n := by
  have hpow : (Nat.pow 2 (8 * width) : Int) = ((256 ^ width : Nat) : Int) := by
    show ((2 ^ (8 * width) : Nat) : Int) = _
    rw [Nat.pow_mul]
  unfold uint
  rw [hpow, Nat.mul_div_cancel_left width (by decide), Int.toNat_natCast]
  constructor
  · intro h
    split at h
    · cases h
    · cases h
      exact ⟨Number.length_toBytes width n, Number.ofBytes_toBytes (show n < 256 ^ width by omega)⟩
  · rintro ⟨hlen, rfl⟩
    have hlt := Number.ofBytes_lt bs
    rw [hlen] at hlt
    rw [if_neg (by omega), Number.toBytes_ofBytes hlen]

/-- A canonical text is written as the bytes that it is the text of. -/
theorem address_eq_ok_iff {token : String} {bs : Bytes} :
    address token = .ok bs ↔
      bs.length = Address.size ∧ Address.canonical "address" token = .ok (Address.ofBytes bs) := by
  rw [address, Outcome.ofHex_eq_ok_iff, Address.toBytes_eq_ok_iff]

end Writer

/-! ### Readers -/

/-- The reader takes a value off exactly the fronts that are written for it and leaves what stands
behind; everything else it refuses. -/
structure Codes {α : Type} (r : Reader α) (written : α → Bytes → Prop) : Prop where
  reads : ∀ bs a rest, r.run.run bs = (.ok a, rest) ↔ ∃ front, written a front ∧ bs = front ++ rest
  refuses : ∀ bs, FailsWithin InvalidArguments (r.run.run bs).1

section Rules

variable {α β : Type} {r : Reader α} {f : α → Reader β} {written : α → Bytes → Prop}
  {writtenNext : α → β → Bytes → Prop}

theorem codes_pure (a : α) : Codes (pure a : Reader α) fun b front => b = a ∧ front = [] where
  reads bs b rest := by
    show ((Except.ok a, bs) : Except Fault α × Bytes) = _ ↔ _
    constructor
    · intro h
      cases h
      exact ⟨[], ⟨rfl, rfl⟩, rfl⟩
    · rintro ⟨_, ⟨rfl, rfl⟩, rfl⟩
      rfl
  refuses bs := failsWithin_ok

theorem run_bind (r : Reader α) (f : α → Reader β) (bs : Bytes) :
    (r >>= f).run.run bs = match r.run.run bs with
      | (.ok a, rest) => (f a).run.run rest
      | (.error e, rest) => (.error e, rest) := by
  show (ExceptT.bindCont f (r.run.run bs).1).run (r.run.run bs).2 = _
  rcases r.run.run bs with ⟨e | a, rest⟩ <;> rfl

/-- What is written for two readers in turn is what is written for the one and then for the
other. -/
theorem Codes.bind (hr : Codes r written) (hf : ∀ a, Codes (f a) (writtenNext a)) :
    Codes (r >>= f) fun b front => ∃ a x y, written a x ∧ writtenNext a b y ∧ front = x ++ y where
  reads bs b rest := by
    rw [run_bind]
    rcases hrun : r.run.run bs with ⟨e | a, left⟩
    · constructor
      · intro h
        cases h
      · rintro ⟨_, ⟨a, x, y, hx, -, rfl⟩, hbs⟩
        have hread := (hr.reads bs a (y ++ rest)).2 ⟨x, hx, by rw [hbs, List.append_assoc]⟩
        rw [hrun] at hread
        cases hread
    · dsimp only
      rw [(hf a).reads]
      constructor
      · rintro ⟨y, hy, rfl⟩
        obtain ⟨x, hx, rfl⟩ := (hr.reads bs a (y ++ rest)).1 hrun
        exact ⟨x ++ y, ⟨a, x, y, hx, hy, rfl⟩, (List.append_assoc ..).symm⟩
      · rintro ⟨_, ⟨a', x, y, hx, hy, rfl⟩, hbs⟩
        have hread := (hr.reads bs a' (y ++ rest)).2 ⟨x, hx, by rw [hbs, List.append_assoc]⟩
        rw [hrun] at hread
        cases hread
        exact ⟨y, hy, rfl⟩
  refuses bs := by
    rw [run_bind]
    have hrefuses := hr.refuses bs
    rcases hrun : r.run.run bs with ⟨e | a, left⟩
    · rw [hrun] at hrefuses
      exact failsWithin_error (hrefuses e rfl)
    · exact (hf a).refuses left

/-- Different values are written differently. -/
theorem Codes.inj (hr : Codes r written) {a b : α} {front : Bytes} (ha : written a front)
    (hb : written b front) : a = b := by
  have hread := (hr.reads front a []).2 ⟨front, ha, (List.append_nil _).symm⟩
  rw [(hr.reads front b []).2 ⟨front, hb, (List.append_nil _).symm⟩] at hread
  cases hread
  rfl

/-- What is written may be told in other words. -/
theorem Codes.congr (hr : Codes r written) {written' : α → Bytes → Prop}
    (h : ∀ a front, written a front ↔ written' a front) : Codes r written' where
  reads bs a rest := by
    rw [hr.reads]
    exact exists_congr fun front => and_congr_left fun _ => h a front
  refuses := hr.refuses

/-- A value that is changed after it has been read. -/
theorem Codes.map (hr : Codes r written) (g : α → β) :
    Codes (r >>= fun a => pure (g a)) fun b front => ∃ a, written a front ∧ b = g a := by
  refine (hr.bind fun a => codes_pure (g a)).congr fun b front => ?_
  constructor
  · rintro ⟨a, x, _, hx, ⟨rfl, rfl⟩, rfl⟩
    exact ⟨a, by rwa [List.append_nil], rfl⟩
  · rintro ⟨a, hfront, rfl⟩
    exact ⟨a, front, [], hfront, ⟨rfl, rfl⟩, (List.append_nil _).symm⟩

/-- A reader that refuses some values that it has read. -/
theorem Codes.unless {c : Prop} [Decidable c] {e : Fault} (he : InvalidArguments e)
    (hr : Codes r written) :
    Codes (if c then throw e else r) fun a front => ¬ c ∧ written a front := by
  by_cases hc : c
  · rw [if_pos hc]
    constructor
    · intro bs a rest
      constructor
      · intro h
        cases h
      · rintro ⟨_, ⟨hnot, -⟩, -⟩
        exact absurd hc hnot
    · exact fun _ => failsWithin_error he
  · rw [if_neg hc]
    exact hr.congr fun a front => (and_iff_right hc).symm

end Rules

/-! ### Fields -/

theorem Reader.run_take (count : Nat) (what : String) (bs : Bytes) :
    (Reader.take count what).run.run bs =
      if bs.length < count then (.error (.block (.truncated what count bs.length)), bs)
      else (.ok (bs.take count), bs.drop count) := by
  show (if bs.length < count then _ else _ : Reader Bytes).run.run bs = _
  split <;> rfl

theorem codes_take (count : Nat) (what : String) :
    Codes (Reader.take count what) fun bs front => bs = front ∧ front.length = count := by
  constructor
  · intro bs a rest
    rw [Reader.run_take]
    constructor
    · intro h
      split at h
      · cases h
      · cases h
        exact ⟨bs.take count, ⟨rfl, by rw [List.length_take]; omega⟩,
          (List.take_append_drop count bs).symm⟩
    · rintro ⟨front, ⟨rfl, rfl⟩, rfl⟩
      rw [if_neg (by rw [List.length_append]; omega), List.take_left, List.drop_left]
  · intro bs
    rw [Reader.run_take]
    split
    · exact failsWithin_error rfl
    · exact failsWithin_ok

theorem codes_uint (bits : Nat) (hbits : 8 ∣ bits) :
    Codes (Reader.uint bits) fun n front => Writer.uint bits n = .ok front := by
  obtain ⟨width, rfl⟩ := hbits
  refine ((codes_take _ _).map _).congr fun n front => ?_
  rw [Writer.uint_eq_ok_iff, Nat.mul_div_cancel_left width (by decide)]
  constructor
  · rintro ⟨_, ⟨rfl, hlen⟩, rfl⟩
    exact ⟨hlen, rfl⟩
  · rintro ⟨hlen, rfl⟩
    exact ⟨front, ⟨rfl, hlen⟩, rfl⟩

/-- The text is canonical and written as these bytes. -/
def WritesAddress (token : String) (front : Bytes) : Prop :=
  Address.canonical "address" token = .ok token ∧ Writer.address token = .ok front

theorem writesAddress_iff {token : String} {front : Bytes} :
    WritesAddress token front ↔ front.length = Address.size ∧ token = Address.ofBytes front := by
  rw [WritesAddress, Writer.address_eq_ok_iff]
  constructor
  · rintro ⟨hself, hlen, hc⟩
    rw [hself] at hc
    exact ⟨hlen, Except.ok.inj hc⟩
  · rintro ⟨hlen, rfl⟩
    have hc := Address.canonical_ofBytes hlen "address"
    exact ⟨hc, hlen, hc⟩

theorem codes_address : Codes Reader.address WritesAddress := by
  refine ((codes_take _ _).map _).congr fun token front => ?_
  rw [writesAddress_iff]
  constructor
  · rintro ⟨_, ⟨rfl, hlen⟩, rfl⟩
    exact ⟨hlen, rfl⟩
  · rintro ⟨hlen, rfl⟩
    exact ⟨front, ⟨rfl, hlen⟩, rfl⟩

/-! ### Lists of balances -/

/-- Amounts as they are written. -/
def amounts (es : List (String × Nat)) : List (String × Int) := es.map fun e => (e.1, (e.2 : Int))

/-- The tokens are canonical and all different. -/
structure Distinct (es : List (String × Nat)) : Prop where
  canonical : ∀ e ∈ es, Address.canonical "address" e.1 = .ok e.1
  nodup : (es.map Prod.fst).Nodup

theorem distinct_cons {e : String × Nat} {es : List (String × Nat)} :
    Distinct (e :: es) ↔
      Address.canonical "address" e.1 = .ok e.1 ∧ e.1 ∉ es.map Prod.fst ∧ Distinct es := by
  constructor
  · rintro ⟨hc, hn⟩
    rw [List.map_cons, List.nodup_cons] at hn
    exact ⟨hc e (List.mem_cons_self ..), hn.1, fun d hd => hc d (List.mem_cons_of_mem _ hd), hn.2⟩
  · rintro ⟨he, hnot, hc, hn⟩
    refine ⟨List.forall_mem_cons.2 ⟨he, hc⟩, ?_⟩
    rw [List.map_cons, List.nodup_cons]
    exact ⟨hnot, hn⟩

theorem entries_cons_eq_ok {token : String} {amount : Int} {es : List (String × Int)}
    {front : Bytes} : Writer.entries ((token, amount) :: es) = .ok front ↔
      ∃ x y z, Writer.address token = .ok x ∧ Writer.uint 256 amount = .ok y ∧
        Writer.entries es = .ok z ∧ front = x ++ (y ++ z) := by
  simp only [Writer.entries, Outcome.bind_eq_ok, Outcome.pure_eq_ok]
  constructor
  · rintro ⟨x, hx, y, hy, z, hz, rfl⟩
    exact ⟨x, y, z, hx, hy, hz, List.append_assoc ..⟩
  · rintro ⟨x, y, z, hx, hy, hz, rfl⟩
    exact ⟨x, hx, y, hy, z, hz, List.append_assoc ..⟩

/-- The pairs are as many, their tokens are distinct and not among those seen, and they are written
as these bytes. -/
structure WritesPairs (count : Nat) (seen : List String) (es : List (String × Nat))
    (front : Bytes) : Prop where
  length : es.length = count
  distinct : Distinct es
  unseen : ∀ e ∈ es, e.1 ∉ seen
  written : Writer.entries (amounts es) = .ok front

theorem writesPairs_zero {seen : List String} {es : List (String × Nat)} {front : Bytes} :
    WritesPairs 0 seen es front ↔ es = [] ∧ front = [] := by
  constructor
  · rintro ⟨hlen, -, -, hw⟩
    obtain rfl := List.eq_nil_of_length_eq_zero hlen
    cases hw
    exact ⟨rfl, rfl⟩
  · rintro ⟨rfl, rfl⟩
    exact ⟨rfl, ⟨fun _ h => absurd h List.not_mem_nil, List.nodup_nil⟩,
      fun _ h => absurd h List.not_mem_nil, rfl⟩

theorem writesPairs_succ {count : Nat} {seen : List String} {es : List (String × Nat)}
    {front : Bytes} : WritesPairs (count + 1) seen es front ↔
      ∃ token x y, WritesAddress token x ∧ (¬ seen.contains token = true ∧
        ∃ amount u v, Writer.uint 256 (amount : Nat) = .ok u ∧
          (∃ es', WritesPairs count (token :: seen) es' v ∧ es = (token, amount) :: es') ∧
          y = u ++ v) ∧ front = x ++ y := by
  simp only [List.contains_iff_mem]
  constructor
  · rintro ⟨hlen, hd, hunseen, hw⟩
    match es, hlen with
    | (token, amount) :: es, hlen =>
      obtain ⟨hc, hnot, hd⟩ := distinct_cons.1 hd
      obtain ⟨hns, hunseen⟩ := List.forall_mem_cons.1 hunseen
      obtain ⟨x, u, v, hx, hu, hv, rfl⟩ := entries_cons_eq_ok.1 hw
      refine ⟨token, x, u ++ v, ⟨hc, hx⟩, ⟨hns, amount, u, v, hu, ⟨es, ?_, rfl⟩, rfl⟩, rfl⟩
      refine ⟨Nat.succ.inj hlen, hd, fun e he hmem => ?_, hv⟩
      rcases List.mem_cons.1 hmem with heq | hmem
      · exact hnot (List.mem_map.2 ⟨e, he, heq⟩)
      · exact hunseen e he hmem
  · rintro ⟨token, x, _, ⟨hc, hx⟩, ⟨hns, amount, u, v, hu, ⟨es, h, rfl⟩, rfl⟩, rfl⟩
    refine ⟨congrArg _ h.length, distinct_cons.2 ⟨hc, ?_, h.distinct⟩, ?_,
      entries_cons_eq_ok.2 ⟨x, u, v, hx, hu, h.written, rfl⟩⟩
    · intro hmem
      obtain ⟨e, he, heq⟩ := List.mem_map.1 hmem
      exact h.unseen e he (heq ▸ List.mem_cons_self ..)
    · exact List.forall_mem_cons.2
        ⟨hns, fun e he hmem => h.unseen e he (List.mem_cons_of_mem _ hmem)⟩

theorem codes_pairs (count : Nat) (seen : List String) :
    Codes (pairs Reader.address (Reader.uint 256) count seen) (WritesPairs count seen) := by
  induction count generalizing seen with
  | zero => exact (codes_pure []).congr fun es front => writesPairs_zero.symm
  | succ count ih =>
    have hrest : ∀ token, Codes _ _ := fun token =>
      ((codes_uint 256 (by decide)).bind fun amount =>
        (ih (token :: seen)).map fun es => (token, amount) :: es).unless
          (c := seen.contains token = true) (e := .block (.duplicateToken token)) rfl
    refine (codes_address.bind hrest).congr fun es front => writesPairs_succ.symm

/-- Amounts that are written fit in 256 bits. -/
theorem amount_lt_of_entries {es : List (String × Nat)} {front : Bytes}
    (h : Writer.entries (amounts es) = .ok front) : ∀ e ∈ es, e.2 < 256 ^ 32 := by
  induction es generalizing front with
  | nil => nofun
  | cons e es ih =>
    obtain ⟨x, y, z, -, hy, hz, -⟩ := entries_cons_eq_ok.1 h
    intro e' he'
    rcases List.mem_cons.1 he' with rfl | he'
    · obtain ⟨hlength, hvalue⟩ := (Writer.uint_eq_ok_iff : Writer.uint (8 * 32) e'.2 = _ ↔ _).1 hy
      rw [← hvalue, ← hlength]
      exact Number.ofBytes_lt y
    · exact ih hz e' he'

/-- A list that is written as these bytes, its tokens canonical and distinct. -/
def WritesBalances (es : List (String × Nat)) (front : Bytes) : Prop :=
  Distinct es ∧ Writer.balances (amounts es) = .ok front

theorem codes_balances : Codes Reader.balances WritesBalances := by
  refine ((codes_uint 8 (by decide)).bind fun count => codes_pairs count []).congr
    fun es front => ?_
  simp only [WritesBalances, Writer.balances, Outcome.bind_eq_ok, Outcome.pure_eq_ok]
  rw [amounts, List.length_map, ← amounts]
  constructor
  · rintro ⟨count, x, y, hx, ⟨rfl, hd, -, hy⟩, rfl⟩
    exact ⟨hd, x, hx, y, hy, rfl⟩
  · rintro ⟨hd, x, hx, y, hy, rfl⟩
    exact ⟨es.length, x, y, hx, ⟨rfl, hd, fun _ _ => List.not_mem_nil, hy⟩, rfl⟩

/-! ### Blocks -/

variable {α : Type} {r : Reader α} {written : α → Bytes → Prop} {block : Bytes}

theorem run_finish (bs : Bytes) : Reader.finish.run.run bs =
    if bs.length ≠ 0 then (.error (.block (.trailing bs.length)), bs) else (.ok (), bs) := by
  rw [Reader.finish, run_bind]
  show (if bs.length ≠ 0 then _ else _ : Reader Unit).run.run bs = _
  split <;> rfl

theorem whole_eq (r : Reader α) (block : Bytes) :
    Reader.whole r block = (match r.run.run block with
      | (.ok a, rest) =>
        if rest.length ≠ 0 then .error (.block (.trailing rest.length)) else .ok a
      | (.error e, _) => .error e) := by
  show ((r >>= fun a => Reader.finish >>= fun _ => pure a).run.run block).1 = _
  rw [run_bind]
  rcases r.run.run block with ⟨e | a, rest⟩
  · rfl
  · dsimp only
    rw [run_bind, run_finish]
    by_cases hlen : rest.length ≠ 0
    · rw [if_pos hlen, if_pos hlen]
    · rw [if_neg hlen, if_neg hlen]
      rfl

/-- **A reader of blocks** reads exactly the blocks that are written for a value. -/
theorem Codes.whole_eq_ok_iff (h : Codes r written) {a : α} :
    Reader.whole r block = .ok a ↔ written a block := by
  have hreads := h.reads block a []
  rw [whole_eq]
  constructor
  · intro hok
    rcases hrun : r.run.run block with ⟨e | b, rest⟩
    · rw [hrun] at hok; cases hok
    · rw [hrun] at hok
      dsimp only at hok
      split at hok
      · cases hok
      · next hlen =>
        cases hok
        rw [ne_eq, Decidable.not_not] at hlen
        obtain rfl := List.eq_nil_of_length_eq_zero hlen
        obtain ⟨front, hfront, hblock⟩ := hreads.1 hrun
        rwa [hblock, List.append_nil]
  · intro hw
    rw [hreads.2 ⟨block, hw, (List.append_nil _).symm⟩]
    rfl

/-- Every other block is refused. -/
theorem Codes.failsWithin_whole (h : Codes r written) (block : Bytes) :
    FailsWithin InvalidArguments (Reader.whole r block) := by
  have hrefuses := h.refuses block
  rw [whole_eq]
  rcases hrun : r.run.run block with ⟨e | a, rest⟩
  · rw [hrun] at hrefuses
    exact failsWithin_error (hrefuses e rfl)
  · exact .ite (fun _ => failsWithin_error rfl) fun _ => failsWithin_ok

end Block

end SwapMachine
