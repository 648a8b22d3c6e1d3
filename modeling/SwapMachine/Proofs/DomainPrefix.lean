import SwapMachine.Identity.Domain
import SwapMachine.Proofs.CanonicalText

/-!
# SwapMachine.Proofs.DomainPrefix — where a prefix ends, and what it names

A prefix ends at the first NUL, since labels hold none, whatever stands behind it. Within a prefix
the version is the digits after the last `v`, even where a label has the looks of a prefix itself.

* `Domain.IsLabel`, `Domain.separator_eq_ok_iff`: the labels and versions that have a prefix.
* `Domain.named_inj`: a label and a version from what stands before the NUL.
* `Domain.separator_append_inj`: label, version and payload from all bytes together.
-/

namespace SwapMachine.Domain

/-! ### Labels and versions that are accepted -/

/-- A label that a prefix may hold. -/
structure IsLabel (s : String) : Prop where
  nonempty : s.isEmpty = false
  ascii : ∀ c ∈ s.toList, c.toNat < 0x80
  noNul : Char.ofNat 0 ∉ s.toList

theorem label_eq_ok_iff {d : Datum} {s : String} : label d = .ok s ↔ d = .text s ∧ IsLabel s := by
  have hascii : ∀ t : String, (t.toList.any fun c => decide (0x80 ≤ c.toNat)) = false ↔
      ∀ c ∈ t.toList, c.toNat < 0x80 := by
    intro t
    simp only [List.any_eq_false, decide_eq_true_eq, Nat.not_le]
  constructor
  · intro h
    unfold label at h
    split at h
    · next t =>
      split at h
      · cases h
      · next hempty =>
        split at h
        · cases h
        · next hnul =>
          split at h
          · cases h
          · next hany =>
            cases h
            exact ⟨rfl, Bool.eq_false_iff.2 hempty, (hascii _).1 (Bool.eq_false_iff.2 hany),
              fun hmem => hnul (List.contains_iff_mem.2 hmem)⟩
    · cases h
    · cases h
  · rintro ⟨rfl, hlabel⟩
    have hnul : s.toList.contains (Char.ofNat 0) = false :=
      Bool.eq_false_iff.2 fun h => hlabel.noNul (List.contains_iff_mem.1 h)
    simp only [label, hlabel.nonempty, hnul, (hascii s).2 hlabel.ascii, Bool.false_eq_true,
      if_false]

theorem version_eq_ok_iff {d : Datum} {n : Nat} : version d = .ok n ↔ d = .int n ∧ 0 < n := by
  constructor
  · intro h
    unfold version at h
    split at h
    · split at h
      · next hz =>
        cases h
        exact ⟨by rw [Int.toNat_of_nonneg (Int.le_of_lt hz)], by omega⟩
      · cases h
    · cases h
  · rintro ⟨rfl, hn⟩
    rw [version, if_pos (by omega), Int.toNat_natCast]

/-- What a prefix holds before its NUL. -/
def named (label : String) (version : Nat) : List Char :=
  "swapvm:".toList ++ (label.toList ++ ':' :: 'v' :: Text.Decimal.digits version)

/-- Labels and versions that have a prefix, and the prefix they have. -/
theorem separator_eq_ok_iff {l v : Datum} {bs : Bytes} :
    separator l v = .ok bs ↔ ∃ (s : String) (n : Nat), (l = .text s ∧ IsLabel s) ∧
      (v = .int n ∧ 0 < n) ∧ bs = (named s n).map asciiByte ++ [0] := by
  have hprefix : ∀ s n, (prefixText s n).map asciiByte = (named s n).map asciiByte ++ [0] := by
    intro s n
    have htext : prefixText s n = named s n ++ [Char.ofNat 0] := by
      unfold prefixText named
      generalize "swapvm:".toList = start
      simp only [List.append_assoc, List.cons_append]
    have hnul : [Char.ofNat 0].map asciiByte = [0] := rfl
    rw [htext, List.map_append, hnul]
  simp only [← label_eq_ok_iff, ← version_eq_ok_iff, ← hprefix]
  unfold separator
  cases hl : label l with
  | error f => exact iff_of_false nofun fun ⟨_, _, h, _⟩ => nomatch h
  | ok s =>
    cases hv : version v with
    | error f => exact iff_of_false nofun fun ⟨_, _, _, h, _⟩ => nomatch h
    | ok n =>
      constructor
      · intro h
        cases h
        exact ⟨s, n, rfl, rfl, rfl⟩
      · rintro ⟨s', n', hs, hn, rfl⟩
        cases hs
        cases hn
        rfl

/-! ### Reading a prefix -/

theorem ascii_named {s : String} (hs : IsLabel s) (n : Nat) :
    ∀ c ∈ named s n, 0 < c.toNat ∧ c.toNat < 0x80 := by
  have hdigit : ∀ d < 10, 0 < (Text.Decimal.digit d).toNat ∧
      (Text.Decimal.digit d).toNat < 0x80 := by
    decide
  have hstart : ("swapvm:".toList.all fun c => decide (0 < c.toNat ∧ c.toNat < 0x80)) = true :=
    rfl
  intro c hc
  rcases List.mem_append.1 hc with hc | hc
  · exact of_decide_eq_true (List.all_eq_true.1 hstart c hc)
  rcases List.mem_append.1 hc with hc | hc
  · refine ⟨Nat.pos_of_ne_zero fun hzero => hs.noNul ?_, hs.ascii c hc⟩
    rwa [← hzero, Char.ofNat_toNat]
  · rw [List.mem_cons, List.mem_cons] at hc
    rcases hc with rfl | rfl | hc
    · decide
    · decide
    · obtain ⟨d, hd, rfl⟩ := Text.Decimal.of_mem_digits hc
      exact hdigit d hd

theorem toNat_asciiByte {c : Char} (h : c.toNat < 0x80) : (asciiByte c).toNat = c.toNat :=
  UInt8.toNat_ofNat_of_lt' (show c.toNat < 256 by omega)

/-- ASCII characters are read back from their bytes. -/
theorem map_asciiByte_inj {cs ds : List Char} (hcs : ∀ c ∈ cs, c.toNat < 0x80)
    (hds : ∀ c ∈ ds, c.toNat < 0x80) (h : cs.map asciiByte = ds.map asciiByte) : cs = ds := by
  have hread : ∀ es : List Char, (∀ c ∈ es, c.toNat < 0x80) →
      (es.map asciiByte).map (fun b => Char.ofNat b.toNat) = es := by
    intro es hes
    rw [List.map_map]
    refine (List.map_congr_left fun c hc => ?_).trans (List.map_id es)
    rw [Function.comp_apply, toNat_asciiByte (hes c hc), Char.ofNat_toNat, id]
  rw [← hread cs hcs, h, hread ds hds]

/-- The version is what stands after the last `v`, and all before it is the label. -/
theorem named_inj {s t : String} {m n : Nat} (h : named s m = named t n) : s = t ∧ m = n := by
  -- from the end, the digits run up to the `v`, and labels with a `v` of their own come later
  have hlast : (Text.Decimal.digits m).reverse ++ ('v' :: ':' :: s.toList.reverse) =
      (Text.Decimal.digits n).reverse ++ ('v' :: ':' :: t.toList.reverse) := by
    have hreverse := congrArg List.reverse (List.append_cancel_left h)
    simpa only [List.reverse_append, List.reverse_cons, List.append_assoc, List.cons_append,
      List.nil_append] using hreverse
  have hdigit : ∀ k, ∀ c ∈ (Text.Decimal.digits k).reverse, c.isDigit = true :=
    fun k c hc => Text.Decimal.isDigit_of_mem_digits (List.mem_reverse.1 hc)
  have hv : ∀ cs : List Char, ∀ c ∈ ('v' :: cs).head?, c.isDigit = false := by
    intro cs c hc
    cases hc
    rfl
  obtain ⟨hversion, hlabel⟩ := append_run_inj (hdigit m) (hdigit n) (hv _) (hv _) hlast
  refine ⟨String.toList_inj.1 (List.reverse_inj.1 ?_),
    Text.Decimal.digits_inj (List.reverse_inj.1 hversion)⟩
  exact (List.cons.inj (List.cons.inj hlabel).2).2

/-- **Prefix and payload together** tell the label, the version and the payload. -/
theorem separator_append_inj {l v l' v' : Datum} {pre pre' payload payload' : Bytes}
    (h : separator l v = .ok pre) (h' : separator l' v' = .ok pre') :
    pre ++ payload = pre' ++ payload' ↔ l = l' ∧ v = v' ∧ payload = payload' := by
  constructor
  · intro heq
    obtain ⟨s, m, ⟨rfl, hs⟩, ⟨rfl, -⟩, rfl⟩ := separator_eq_ok_iff.1 h
    obtain ⟨t, n, ⟨rfl, ht⟩, ⟨rfl, -⟩, rfl⟩ := separator_eq_ok_iff.1 h'
    have hnul : ∀ {t : String} {n : Nat}, IsLabel t → (0 : UInt8) ∉ (named t n).map asciiByte := by
      intro t n ht hmem
      obtain ⟨c, hc, hzero⟩ := List.mem_map.1 hmem
      obtain ⟨hpos, hlt⟩ := ascii_named ht n c hc
      rw [← toNat_asciiByte hlt, hzero] at hpos
      exact Nat.lt_irrefl 0 hpos
    rw [List.append_assoc, List.append_assoc] at heq
    obtain ⟨hnamed, hpayload⟩ := append_separator_inj (hnul hs) (hnul ht) heq
    obtain ⟨rfl, rfl⟩ := named_inj (map_asciiByte_inj (fun c hc => (ascii_named hs m c hc).2)
      (fun c hc => (ascii_named ht n c hc).2) hnamed)
    exact ⟨rfl, rfl, hpayload⟩
  · rintro ⟨rfl, rfl, rfl⟩
    rw [Except.ok.inj (h.symm.trans h')]

/-- A label that looks like a prefix with a version is kept apart from that version. -/
theorem separator_append_inj_nested :
    ∃ pre pre', separator (.text "order") (.int 1) = .ok pre ∧
      separator (.text "order:v1") (.int 2) = .ok pre' ∧
      ∀ payload payload', pre ++ 0 :: payload ≠ pre' ++ payload' := by
  have hascii : ∀ t : String, (t.toList.all fun c => decide (c.toNat < 0x80)) = true →
      ∀ c ∈ t.toList, c.toNat < 0x80 :=
    fun t h c hc => of_decide_eq_true (List.all_eq_true.1 h c hc)
  have horder : IsLabel "order" := ⟨by decide, hascii _ rfl, by decide⟩
  have hnested : IsLabel "order:v1" := ⟨by decide, hascii _ rfl, by decide⟩
  have h := separator_eq_ok_iff.2 ⟨_, 1, ⟨rfl, horder⟩, ⟨rfl, Nat.one_pos⟩, rfl⟩
  have h' := separator_eq_ok_iff.2 ⟨_, 2, ⟨rfl, hnested⟩, ⟨rfl, Nat.two_pos⟩, rfl⟩
  refine ⟨_, _, h, h', fun payload payload' heq => ?_⟩
  obtain ⟨hlabel, -, -⟩ := (separator_append_inj h h').1 heq
  exact absurd (Datum.text.inj hlabel) (by decide)

end SwapMachine.Domain
