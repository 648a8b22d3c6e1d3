import SwapMachine.Proofs.AddressText
import SwapMachine.Proofs.CanonicalText
import SwapMachine.Proofs.Isolation

/-!
# SwapMachine.Proofs.OrderIdentity — orders are what they contain

* `Order.preimage_inj`: the bytes that are hashed tell orders apart.
* `Order.Content`, `Order.make_eq_ok_iff`: the orders that are made are those of contents, each
  spelled by the data given.
* `Order.Shares`: what an engine keeps for one order it keeps for another one too, or it does not.
* `Order.identity_is_content`: orders are identified by their content, however it was spelled.
-/

namespace SwapMachine.Order

open Canonical Engine

/-! ### The bytes that are hashed -/

/-- How those keys of an order compare that sorting looks at. -/
theorem compare_keys : decide ("token0" < "maker") = false ∧ decide ("token1" < "maker") = false ∧
    decide ("token1" < "token0") = false ∧ decide ("flags" < "program") = true ∧
    decide ("flags" < "maker") = true ∧ decide ("program" < "maker") = false ∧
    decide ("program" < "token0") = true := by
  decide

/-- The members of an order by rising key. -/
theorem sorted_members (maker token0 token1 program flags : List Char) :
    sorted [("maker", maker), ("token0", token0), ("token1", token1), ("program", program),
      ("flags", flags)] = [("flags", flags), ("maker", maker), ("program", program),
        ("token0", token0), ("token1", token1)] := by
  obtain ⟨h1, h2, h3, h4, h5, h6, h7⟩ := compare_keys
  simp only [sorted, List.mergeSort, List.MergeSort.Internal.splitInTwo_fst,
    List.MergeSort.Internal.splitInTwo_snd, List.length_cons, List.length_nil,
    List.take_succ_cons, List.take_zero, List.drop_succ_cons, List.drop_zero, Nat.reduceAdd,
    Nat.reduceDiv, List.cons_merge_cons, List.nil_merge, List.merge_right, h1, h2, h3, h4, h5, h6,
    h7, Bool.not_false, Bool.not_true, if_true, Bool.false_eq_true, if_false]

theorem render_content (o : Order) : render o.content =
    '\x7b' :: (quote "flags" ++ ':' :: (Text.Decimal.digits o.flags ++ ',' ::
      (quote "maker" ++ ':' :: (quote o.maker ++ ',' ::
        (quote "program" ++ ':' :: (quote (Address.ofBytes o.program) ++ ',' ::
          (quote "token0" ++ ':' :: (quote o.token0 ++ ',' ::
            (quote "token1" ++ ':' :: (quote o.token1 ++ ['\x7d'])))))))))) := by
  simp only [content, render_dict, renderEntries_cons, renderEntries_nil, render_text, render_int,
    sorted_members, List.map_cons, List.map_nil, joined, List.cons_append, List.append_assoc]
  rfl

/-- The text of an order tells all its parts. -/
theorem render_content_inj {o o' : Order} (h : render o.content = render o'.content) : o = o' := by
  rw [render_content, render_content] at h
  -- keys and texts end at their own marks and the flags at a comma, so members come off in turn
  replace h := (quote_append_inj (List.cons.inj h).2).2
  obtain ⟨hflags, h⟩ := append_separator_inj (Text.Decimal.comma_notMem_digits _)
    (Text.Decimal.comma_notMem_digits _) (List.cons.inj h).2
  replace h := (quote_append_inj h).2
  obtain ⟨hmaker, h⟩ := quote_append_inj (List.cons.inj h).2
  replace h := (quote_append_inj (List.cons.inj h).2).2
  obtain ⟨hprogram, h⟩ := quote_append_inj (List.cons.inj h).2
  replace h := (quote_append_inj (List.cons.inj h).2).2
  obtain ⟨htoken0, h⟩ := quote_append_inj (List.cons.inj h).2
  replace h := (quote_append_inj (List.cons.inj h).2).2
  obtain ⟨htoken1, -⟩ := quote_append_inj (List.cons.inj h).2
  obtain ⟨maker, token0, token1, program, flags⟩ := o
  obtain ⟨maker', token0', token1', program', flags'⟩ := o'
  obtain rfl : maker = maker' := hmaker
  obtain rfl : token0 = token0' := htoken0
  obtain rfl : token1 = token1' := htoken1
  obtain rfl : program = program' := Address.ofBytes_inj hprogram
  obtain rfl : flags = flags' := Text.Decimal.digits_inj hflags
  rfl

/-- **What is hashed** tells orders apart. -/
theorem preimage_inj {o o' : Order} : o.preimage = o'.preimage ↔ o = o' := by
  constructor
  · intro h
    have htext := utf8_inj (List.append_cancel_left h)
    exact render_content_inj (String.ofList_injective htext)
  · exact fun h => by rw [h]

/-! ### Content -/

/-- What an order is about, however it is spelled: three addresses, a program and flags. -/
structure Content where
  maker : Bytes
  token0 : Bytes
  token1 : Bytes
  program : Bytes
  flags : Nat
  maker_size : maker.length = Address.size
  token0_size : token0.length = Address.size
  token1_size : token1.length = Address.size
  tokens_ne : token0 ≠ token1

/-- The data that an order is made from spell the content. -/
structure Content.SpelledBy (c : Content) (maker token0 token1 program flags : Datum) : Prop where
  maker : Address.Holds maker c.maker
  token0 : Address.Holds token0 c.token0
  token1 : Address.Holds token1 c.token1
  program : program = .bytes c.program
  flags : flags = .int c.flags

/-- The order of a content, its addresses in canonical form. -/
def Content.order (c : Content) : Order :=
  ⟨Address.ofBytes c.maker, Address.ofBytes c.token0, Address.ofBytes c.token1, c.program, c.flags⟩

theorem Content.order_inj {c c' : Content} : c.order = c'.order ↔ c = c' := by
  constructor
  · intro h
    obtain ⟨maker, token0, token1, program, flags⟩ := c
    obtain ⟨maker', token0', token1', program', flags'⟩ := c'
    obtain ⟨hmaker, htoken0, htoken1, hprogram, hflags⟩ := Order.mk.inj h
    obtain rfl : maker = maker' := Address.ofBytes_inj hmaker
    obtain rfl : token0 = token0' := Address.ofBytes_inj htoken0
    obtain rfl : token1 = token1' := Address.ofBytes_inj htoken1
    obtain rfl : program = program' := hprogram
    obtain rfl : flags = flags' := hflags
    rfl
  · exact fun h => by rw [h]

theorem programOf_eq_ok_iff {d : Datum} {bs : Bytes} : programOf d = .ok bs ↔ d = .bytes bs := by
  constructor
  · intro h
    unfold programOf at h
    split at h
    · cases h; rfl
    · cases h
  · rintro rfl
    rfl

theorem flagsOf_eq_ok_iff {d : Datum} {n : Nat} : flagsOf d = .ok n ↔ d = .int n := by
  constructor
  · intro h
    unfold flagsOf at h
    split at h
    · next z =>
      split at h
      · next hz =>
        cases h
        rw [Int.toNat_of_nonneg hz]
      · cases h
    · cases h
  · rintro rfl
    rw [flagsOf, if_pos (Int.natCast_nonneg n), Int.toNat_natCast]

/-- **The orders that are made** are those of the contents that data spell. -/
theorem make_eq_ok_iff {maker token0 token1 program flags : Datum} {o : Order} :
    make maker token0 token1 program flags = .ok o ↔
      ∃ c : Content, c.SpelledBy maker token0 token1 program flags ∧ o = c.order := by
  unfold make
  simp only [Outcome.bind_eq_ok, Outcome.ofHex_eq_ok_iff, Address.ofDatum_eq_ok_iff]
  constructor
  · rintro ⟨_, ⟨m, hm, rfl⟩, _, ⟨a, ha, rfl⟩, _, ⟨b, hb, rfl⟩, h⟩
    split at h
    · cases h
    · next hne =>
      obtain ⟨p, hp, h⟩ := Outcome.bind_eq_ok.1 h
      obtain ⟨f, hf, h⟩ := Outcome.bind_eq_ok.1 h
      cases h
      exact ⟨⟨m, a, b, p, f, hm.1, ha.1, hb.1, fun heq => hne (by rw [heq])⟩,
        ⟨hm, ha, hb, programOf_eq_ok_iff.1 hp, flagsOf_eq_ok_iff.1 hf⟩, rfl⟩
  · rintro ⟨c, hc, rfl⟩
    refine ⟨_, ⟨_, hc.maker, rfl⟩, _, ⟨_, hc.token0, rfl⟩, _, ⟨_, hc.token1, rfl⟩, ?_⟩
    rw [if_neg fun heq => c.tokens_ne (Address.ofBytes_inj heq), programOf_eq_ok_iff.2 hc.program,
      flagsOf_eq_ok_iff.2 hc.flags]
    rfl

/-! ### State and registration -/

variable {o o' : Order} {e : Engine}

/-- What an engine keeps for one order it keeps for the other one too, exactly if they are the same:
both have one hash, and one is registered with the other; writes for one are read for the other, and
where the orders differ no calls on one have an effect on the other. -/
structure Shares (o o' : Order) (same : Prop) : Prop where
  hash : o.hash = o'.hash ↔ same
  registered : ∀ e h, (register e o).1.outcome = .ok h →
    ((register e o).2.isRegistered o' = true ↔ same ∨ e.isRegistered o' = true)
  written : same → ∀ e c w, c.order = o → published e c = some w → w.isDirty = true →
    (serve e c).store.snapshot o'.hash = w.result
  apart : ¬ same → ∀ e calls, (∀ c ∈ calls, c.order = o) →
    (run e calls).store.snapshot o'.hash = e.store.snapshot o'.hash ∧
      ∀ d : Call, d.order = o' → (run e calls).answer d = e.answer d

/-- Registering an order registers those with its hash. -/
theorem isRegistered_register {h : String} (hok : (e.register o).1.outcome = .ok h) :
    (e.register o).2.isRegistered o' = true ↔ o.hash = o'.hash ∨ e.isRegistered o' = true := by
  unfold register at hok ⊢
  split at hok
  · cases hok
  · rw [isRegistered, List.contains_cons, Bool.or_eq_true, beq_iff_eq, eq_comm]
    rfl

/-- What a call writes is stored under the hash of its order. -/
theorem snapshot_serve_of_published {c : Call} {w : Overlay} (h : e.published c = some w)
    (hd : w.isDirty = true) : (e.serve c).store.snapshot c.order.hash = w.result := by
  rw [serve_eq, h, ← order_of_published h]
  dsimp only
  rw [Store.publish_of_dirty hd, Store.snapshot_insert, if_pos rfl]

/-- Calls on orders of other hashes change nothing for an order. -/
theorem run_of_ne {calls : List Call} (h : ∀ c ∈ calls, c.order.hash ≠ o'.hash) :
    (e.run calls).store.snapshot o'.hash = e.store.snapshot o'.hash ∧
      ∀ d : Call, d.order = o' → (e.run calls).answer d = e.answer d := by
  induction calls generalizing e with
  | nil => exact ⟨rfl, fun _ _ => rfl⟩
  | cons c calls ih =>
    have hne := h c (List.mem_cons_self ..)
    obtain ⟨hsnapshot, hanswer⟩ := ih (e := e.serve c) fun d hd => h d (List.mem_cons_of_mem _ hd)
    refine ⟨hsnapshot.trans (snapshot_serve_of_ne hne.symm), fun d hd => ?_⟩
    rw [run_cons, hanswer d hd, answer_serve]
    rw [hd]
    exact hne.symm

/-- Orders share what is kept for them exactly if they have one hash. -/
theorem Shares.of_hash {same : Prop} (h : o.hash = o'.hash ↔ same) : Shares o o' same := by
  refine ⟨h, fun e k hok => ?_, fun hsame e c w hc hw hd => ?_, fun hne e calls hcalls => ?_⟩
  · rw [isRegistered_register hok, h]
  · rw [← h.2 hsame, ← hc]
    exact snapshot_serve_of_published hw hd
  · refine run_of_ne fun c hc heq => hne (h.1 ?_)
    rwa [hcalls c hc] at heq

/-- **Orders are their content**: of two orders that are made, the bytes that are hashed are equal
exactly if the data spell one content, which is the addresses in any of their spellings, the program
and the flags; and where the hash tells these bytes apart, the orders share state and registration
exactly if they have one content. -/
theorem identity_is_content {maker token0 token1 program flags : Datum}
    {maker' token0' token1' program' flags' : Datum} {o o' : Order}
    (h : make maker token0 token1 program flags = .ok o)
    (h' : make maker' token0' token1' program' flags' = .ok o') :
    ∃ c c' : Content, c.SpelledBy maker token0 token1 program flags ∧
      c'.SpelledBy maker' token0' token1' program' flags' ∧
      (o.preimage = o'.preimage ↔ c = c') ∧
      ((Sha256.text o.preimage = Sha256.text o'.preimage → o.preimage = o'.preimage) →
        Shares o o' (c = c')) := by
  obtain ⟨c, hc, rfl⟩ := make_eq_ok_iff.1 h
  obtain ⟨c', hc', rfl⟩ := make_eq_ok_iff.1 h'
  have hbytes : c.order.preimage = c'.order.preimage ↔ c = c' :=
    preimage_inj.trans Content.order_inj
  refine ⟨c, c', hc, hc', hbytes, fun hinj => Shares.of_hash ?_⟩
  rw [← hbytes]
  exact ⟨hinj, fun heq => congrArg Sha256.text heq⟩

/-- An address of equal digits in upper case, without mark and between blanks. -/
def looseText (digit : Char) : Datum :=
  .text (String.ofList (' ' :: ' ' :: List.replicate 40 digit ++ ['\n']))

/-- The pool with a fee is one order for canonical addresses and for others between blanks, in upper
case and without mark; with a flag it is hashed from other bytes. -/
theorem identity_is_content_feePoolOrder :
    Shares feePoolOrder feePoolOrder True ∧
    (∃ c : Content, c.order = feePoolOrder ∧
      c.SpelledBy (.text (addressOf 'c')) (.text (addressOf 'a')) (.text (addressOf 'b'))
        (.bytes feePool) (.int 0) ∧
      c.SpelledBy (looseText 'C') (looseText 'A') (looseText 'B') (.bytes feePool) (.int 0)) ∧
    feePoolOrder.preimage ≠ { feePoolOrder with flags := 1 }.preimage := by
  have hcanonical : make (.text (addressOf 'c')) (.text (addressOf 'a')) (.text (addressOf 'b'))
      (.bytes feePool) (.int 0) = .ok feePoolOrder := rfl
  have hloose : make (looseText 'C') (looseText 'A') (looseText 'B') (.bytes feePool) (.int 0) =
      .ok feePoolOrder := rfl
  have hflag : make (.text (addressOf 'c')) (.text (addressOf 'a')) (.text (addressOf 'b'))
      (.bytes feePool) (.int 1) = .ok { feePoolOrder with flags := 1 } := rfl
  obtain ⟨c, c', hc, hc', hbytes, hshares⟩ := identity_is_content hcanonical hloose
  obtain rfl := hbytes.1 rfl
  obtain ⟨d, d', hd, hd', hother, -⟩ := identity_is_content hcanonical hflag
  refine ⟨by simpa only [eq_self] using hshares fun _ => rfl, ⟨c, ?_, hc, hc'⟩, fun heq => ?_⟩
  · have hmade := make_eq_ok_iff.2 ⟨c, hc, rfl⟩
    exact Except.ok.inj (hmade.symm.trans hcanonical)
  · obtain rfl := hother.1 heq
    have hflags : Datum.int 0 = .int 1 := hd.flags.trans hd'.flags.symm
    cases hflags

end SwapMachine.Order
