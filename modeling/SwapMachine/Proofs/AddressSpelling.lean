import SwapMachine.Intake.Field
import SwapMachine.Proofs.AddressText

/-!
# SwapMachine.Proofs.AddressSpelling — which texts are addresses, and which are the same address

The texts that are accepted are forty digits of either case, between any blanks and behind an
optional mark. Two of them have one canonical text where they stand for the same bytes.

* `Datum.IsText`: a text by its characters, among all those that may have other code points.
* `Address.IsSpelling`: forty digits as they may be written.
* `Address.ofDatum_eq_ok_iff_spelling`: the values that are accepted, and the text that each has.
* `Address.canonical_collapses_spellings`: texts and bytes of an address, in both directions.
-/

namespace SwapMachine

/-! ### Digits and characters -/

namespace Text.Hex

/-- A hexadecimal digit as it is written. -/
def IsWritten (c : Char) : Prop := ('0' ≤ c ∧ c ≤ '9') ∨ ('a' ≤ c ∧ c ≤ 'f')

/-- A hexadecimal digit as it is read. -/
def IsRead (c : Char) : Prop := IsWritten c ∨ ('A' ≤ c ∧ c ≤ 'F')

theorem isDigit_iff {c : Char} : isDigit c = true ↔ IsRead c := by
  simp only [isDigit, digitValue?, IsRead, IsWritten, Bool.and_eq_true, decide_eq_true_eq]
  split
  · next h => exact iff_of_true rfl (.inl (.inl h))
  · next hnumber =>
    split
    · next h => exact iff_of_true rfl (.inl (.inr h))
    · next hlower =>
      split
      · next h => exact iff_of_true rfl (.inr h)
      · next hupper =>
        refine iff_of_false Bool.false_ne_true ?_
        rintro ((h | h) | h)
        · exact hnumber h
        · exact hlower h
        · exact hupper h

theorem isWritten_of_mem_ofBytes {bs : List UInt8} {c : Char} (h : c ∈ ofBytes bs) :
    IsWritten c := by
  have hcheck : ∀ d < 16, ('0' ≤ Quoted.hexDigit d ∧ Quoted.hexDigit d ≤ '9') ∨
      ('a' ≤ Quoted.hexDigit d ∧ Quoted.hexDigit d ≤ 'f') := by
    decide
  obtain ⟨b, -, hc⟩ := List.mem_flatMap.1 h
  have hb := b.toNat_lt
  simp only [ofByte, List.mem_cons, List.not_mem_nil, or_false] at hc
  rcases hc with rfl | rfl
  · exact hcheck _ (by omega)
  · exact hcheck _ (by omega)

end Text.Hex

namespace Datum

/-- The value is a text of the characters. -/
def IsText (d : Datum) (cs : List Char) : Prop := d.points? = some (cs.map Char.toNat)

/-- A code point that is not read as a NUL is that of the character read. -/
theorem toNat_ofNat_of_ne {n : Nat} (h : Char.ofNat n ≠ Char.ofNat 0) :
    (Char.ofNat n).toNat = n := by
  by_cases hvalid : n.isValidChar
  · rw [Char.ofNat, dif_pos hvalid]
    rfl
  · refine absurd ?_ h
    rw [Char.ofNat, dif_neg hvalid]
    rfl

/-- Where no NUL stands, the text has these characters and no other code points. -/
theorem text?_eq_some_iff {d : Datum} {cs : List Char} (hnul : Char.ofNat 0 ∉ cs) :
    d.text? = some (String.ofList cs) ↔ d.IsText cs := by
  unfold IsText
  cases d with
  | text s =>
    simp only [text?, points?, Option.some.injEq]
    rw [List.map_inj_right fun c c' => Char.toNat_inj.1, ← String.toList_inj, String.toList_ofList]
  | loose points =>
    simp only [text?, points?, Option.some.injEq]
    constructor
    · intro h
      have hchars : points.map Char.ofNat = cs := String.ofList_injective h
      rw [← hchars, List.map_map]
      refine ((List.map_congr_left fun n hn => ?_).trans (List.map_id points)).symm
      refine toNat_ofNat_of_ne fun heq => hnul ?_
      rw [← hchars, ← heq]
      exact List.mem_map_of_mem hn
    · rintro rfl
      rw [List.map_map]
      congr 1
      refine (List.map_congr_left fun c _ => ?_).trans (List.map_id cs)
      exact Char.ofNat_toNat c
  | _ => exact iff_of_false nofun nofun

end Datum

namespace Address

open Text

/-! ### Spellings -/

/-- Forty digits of either case, behind an optional mark and between blanks. -/
def IsSpelling (cs ds : List Char) : Prop :=
  ∃ before mark after, cs = before ++ (mark ++ ds ++ after) ∧
    (∀ c ∈ before, isBlank c = true) ∧ mark ∈ marks ∧ (∀ c ∈ after, isBlank c = true) ∧
    ds.length = 2 * size ∧ ∀ c ∈ ds, Hex.IsRead c

theorem IsSpelling.nul_notMem {cs ds : List Char} (h : IsSpelling cs ds) : Char.ofNat 0 ∉ cs := by
  obtain ⟨before, mark, after, rfl, hbefore, hmark, hafter, -, hdigits⟩ := h
  have hblank : isBlank (Char.ofNat 0) = false := by decide
  have hdigit : Text.Hex.isDigit (Char.ofNat 0) = false := by decide
  have hmarks : marks.all (fun m => !m.contains (Char.ofNat 0)) = true := rfl
  simp only [List.mem_append]
  rintro (h | (h | h) | h)
  · rw [hbefore _ h] at hblank
    cases hblank
  · have hnone := List.all_eq_true.1 hmarks mark hmark
    rw [List.contains_iff_mem.2 h] at hnone
    cases hnone
  · rw [Hex.isDigit_iff.2 (hdigits _ h)] at hdigit
    cases hdigit
  · rw [hafter _ h] at hblank
    cases hblank

/-- The texts that hold an address are its spellings. -/
theorem holds_iff {d : Datum} {bs : Bytes} :
    Holds d bs ↔ ∃ cs ds, d.IsText cs ∧ IsSpelling cs ds ∧ Hex.toBytes? ds = some bs := by
  constructor
  · rintro ⟨hsize, s, hs, before, mark, ds, after, hsplit, hbefore, hmark, hds, hafter⟩
    have hread := Hex.toBytes?_eq_some_iff.2 hds
    have hdigits := List.all_eq_true.1 (Hex.all_isDigit_of_toBytes? hread)
    have hspelling : IsSpelling s.toList ds :=
      ⟨before, mark, after, hsplit, hbefore, hmark, hafter,
        by rw [Hex.length_of_toBytes? hread, hsize], fun c hc => Hex.isDigit_iff.1 (hdigits c hc)⟩
    refine ⟨s.toList, ds, ?_, hspelling, hread⟩
    rwa [← Datum.text?_eq_some_iff hspelling.nul_notMem, String.ofList_toList]
  · rintro ⟨cs, ds, htext, hspelling, hread⟩
    have hs := (Datum.text?_eq_some_iff hspelling.nul_notMem).2 htext
    obtain ⟨before, mark, after, hsplit, hbefore, hmark, hafter, hlength, -⟩ := hspelling
    have hsize := Hex.length_of_toBytes? hread
    refine ⟨by omega, _, hs, before, mark, ds, after, ?_, hbefore, hmark,
      Hex.toBytes?_eq_some_iff.1 hread, hafter⟩
    rw [String.toList_ofList, hsplit]

/-- **The values that are accepted** as an address are its spellings, and the text that one has is
its digits in lower case behind the mark. -/
theorem ofDatum_eq_ok_iff_spelling {field : String} {d : Datum} {t : String} :
    ofDatum field d = .ok t ↔ ∃ cs ds, d.IsText cs ∧ IsSpelling cs ds ∧
      t = String.ofList ('0' :: 'x' :: ds.map Char.toLower) := by
  rw [ofDatum_eq_ok_iff]
  constructor
  · rintro ⟨bs, hholds, rfl⟩
    obtain ⟨cs, ds, htext, hspelling, hread⟩ := holds_iff.1 hholds
    exact ⟨cs, ds, htext, hspelling, by rw [ofBytes, Hex.ofBytes_of_toBytes? hread]⟩
  · rintro ⟨cs, ds, htext, hspelling, rfl⟩
    obtain ⟨-, -, -, -, -, -, -, hlength, hdigits⟩ := id hspelling
    obtain ⟨bs, hread⟩ := Hex.exists_toBytes? hlength
      (List.all_eq_true.2 fun c hc => Hex.isDigit_iff.2 (hdigits c hc))
    exact ⟨bs, holds_iff.2 ⟨cs, ds, htext, hspelling, hread⟩,
      by rw [ofBytes, Hex.ofBytes_of_toBytes? hread]⟩

/-! ### Texts and bytes -/

/-- A mark and forty digits in lower case. -/
def IsCanonical (t : String) : Prop :=
  ∃ ds, t.toList = '0' :: 'x' :: ds ∧ ds.length = 2 * size ∧ ∀ c ∈ ds, Hex.IsWritten c

theorem isCanonical_ofBytes {bs : Bytes} (h : bs.length = size) : IsCanonical (ofBytes bs) :=
  ⟨Hex.ofBytes bs, String.toList_ofList, by rw [Hex.length_ofBytes, h],
    fun c => Hex.isWritten_of_mem_ofBytes⟩

theorem datumBytes_eq_ok_iff {d : Datum} {bs : Bytes} :
    datumBytes d = .ok bs ↔ bs.length = size ∧ ofDatum "address" d = .ok (ofBytes bs) := by
  unfold datumBytes ofDatum
  cases d.text? with
  | none => exact iff_of_false nofun nofun
  | some s => exact toBytes_eq_ok_iff

theorem datumBytes_of_error {d : Datum} {f : HexFault} (h : ofDatum "address" d = .error f) :
    datumBytes d = .error f := by
  unfold ofDatum at h
  unfold datumBytes
  split at h
  · rw [toBytes, h]
    rfl
  · cases h
    rfl

/-- What is accepted has bytes, and its text is theirs. -/
theorem exists_datumBytes {d : Datum} {t : String} (h : ofDatum "address" d = .ok t) :
    ∃ bs, bs.length = size ∧ datumBytes d = .ok bs ∧ t = ofBytes bs := by
  obtain ⟨bs, hholds, rfl⟩ := ofDatum_eq_ok_iff.1 h
  exact ⟨bs, hholds.1, datumBytes_eq_ok_iff.2 ⟨hholds.1, h⟩, rfl⟩

theorem addressText_bytes {bs : Bytes} (h : bs.length = size) :
    Intake.addressText (.bytes bs) = .ok (ofBytes bs) := by
  have hsize : Intake.size (.bytes bs) = .ok bs.length := rfl
  have hraw : Intake.rawField (.bytes bs) = .ok bs := rfl
  unfold Intake.addressText
  rw [hsize, hraw]
  dsimp only [bind, Except.bind]
  rw [if_neg fun hne => hne h]
  rfl

/-- **Canonical texts of addresses** are one for all spellings of the same bytes, and no two for
them: what is accepted, the form of the text, which texts agree, and the way from bytes to the text
and back. -/
theorem canonical_collapses_spellings :
    (∀ field d t, ofDatum field d = .ok t ↔ ∃ cs ds, d.IsText cs ∧ IsSpelling cs ds ∧
      t = String.ofList ('0' :: 'x' :: ds.map Char.toLower)) ∧
    (∀ field d t, ofDatum field d = .ok t →
      IsCanonical t ∧ ∀ field', ofDatum field' (.text t) = .ok t) ∧
    (∀ d d' t t', ofDatum "address" d = .ok t → ofDatum "address" d' = .ok t' →
      ∃ bs bs', (bs.length = size ∧ datumBytes d = .ok bs) ∧
        (bs'.length = size ∧ datumBytes d' = .ok bs') ∧ (t = t' ↔ bs = bs')) ∧
    (∀ bs : Bytes, bs.length = size → ∃ t, Intake.addressText (.bytes bs) = .ok t ∧
      datumBytes (.text t) = .ok bs) ∧
    ∀ d, (do
      let bs ← Outcome.ofHex (datumBytes d)
      Intake.addressText (.bytes bs)) = Outcome.ofHex (ofDatum "address" d) := by
  refine ⟨fun field d t => ofDatum_eq_ok_iff_spelling, ?_, ?_, ?_, ?_⟩
  · intro field d t h
    obtain ⟨bs, hholds, rfl⟩ := ofDatum_eq_ok_iff.1 h
    exact ⟨isCanonical_ofBytes hholds.1, fun field' => canonical_ofBytes hholds.1 field'⟩
  · intro d d' t t' h h'
    obtain ⟨bs, hsize, hbytes, rfl⟩ := exists_datumBytes h
    obtain ⟨bs', hsize', hbytes', rfl⟩ := exists_datumBytes h'
    exact ⟨bs, bs', ⟨hsize, hbytes⟩, ⟨hsize', hbytes'⟩, ofBytes_inj, congrArg ofBytes⟩
  · intro bs h
    exact ⟨_, addressText_bytes h, datumBytes_eq_ok_iff.2 ⟨h, canonical_ofBytes h "address"⟩⟩
  · intro d
    cases h : ofDatum "address" d with
    | error f =>
      rw [datumBytes_of_error h]
      rfl
    | ok t =>
      obtain ⟨bs, hsize, hbytes, rfl⟩ := exists_datumBytes h
      rw [hbytes]
      exact addressText_bytes hsize

/-- Forty letters, in upper case behind a mark and between blanks, or in lower case alone. -/
theorem canonical_collapses_spellings_letters :
    ∃ t bs, ofDatum "address" (.text (String.ofList
        ('\t' :: '0' :: 'X' :: (List.replicate 40 'A' ++ ['\n'])))) = .ok t ∧
      ofDatum "address" (.text (String.ofList (List.replicate 40 'a'))) = .ok t ∧
      datumBytes (.text (String.ofList (List.replicate 40 'a'))) = .ok bs ∧
      datumBytes (.text t) = .ok bs := by
  obtain ⟨haccepts, hform, hagree, -, -⟩ := canonical_collapses_spellings
  have htext : ∀ cs, (Datum.text (String.ofList cs)).IsText cs := by
    intro cs
    rw [Datum.IsText, Datum.points?, String.toList_ofList]
  have hspells : IsSpelling ('\t' :: '0' :: 'X' :: (List.replicate 40 'A' ++ ['\n']))
      (List.replicate 40 'A') :=
    ⟨['\t'], ['0', 'X'], ['\n'], rfl, List.forall_mem_singleton.2 rfl, by simp [marks],
      List.forall_mem_singleton.2 rfl, List.length_replicate,
      fun c hc => List.eq_of_mem_replicate hc ▸ .inr (by decide)⟩
  have hspells' : IsSpelling (List.replicate 40 'a') (List.replicate 40 'a') :=
    ⟨[], [], [], (List.append_nil _).symm, fun c hc => absurd hc List.not_mem_nil, by simp [marks],
      fun c hc => absurd hc List.not_mem_nil, List.length_replicate,
      fun c hc => List.eq_of_mem_replicate hc ▸ .inl (.inr (by decide))⟩
  have hloud := (haccepts "address" _ _).2 ⟨_, _, htext _, hspells, rfl⟩
  have hquiet := (haccepts "address" _ _).2 ⟨_, _, htext _, hspells', rfl⟩
  rw [List.map_replicate] at hloud hquiet
  obtain ⟨bs, bs', ⟨-, hbytes⟩, ⟨-, hbytes'⟩, hiff⟩ :=
    hagree _ _ _ _ hquiet ((hform _ _ _ hquiet).2 "address")
  obtain rfl := hiff.1 rfl
  exact ⟨_, bs, hloud, hquiet, hbytes, hbytes'⟩

end Address

end SwapMachine
