import Mathlib.Data.List.TakeWhile
import SwapMachine.Identity.Address

/-!
# SwapMachine.Proofs.AddressText — the texts of an address and its bytes

Pairs of digits stand for bytes, and writing these in lower case gives the digits back.  So all
texts of an address have one canonical text, which is that of its bytes.

* `Text.Hex.toBytes?_eq_some_iff`: digits of either case stand for the bytes that they are written
  for.
* `Address.Spells`: digits of either case, behind an optional mark and between blanks.
* `Address.canonical_eq_ok_iff`, `Address.toBytes_eq_ok_iff`, `Address.ofDatum_eq_ok_iff`: the texts
  that are accepted are those that spell twenty bytes, and these are the result.
-/

namespace SwapMachine

/-! ### Digits -/

namespace Text.Hex

/-- The characters below 128, among which all digits are. -/
theorem digits_check : ∀ n < 128, digitValue? (Char.ofNat n) = none ∨
    ∃ d < 16, digitValue? (Char.ofNat n) = some d ∧
      (Char.ofNat n).toLower = Quoted.hexDigit d := by
  decide +kernel

theorem digitValue?_eq_none {c : Char} (h : 128 ≤ c.toNat) : digitValue? c = none := by
  have hle : ∀ d : Char, d.toNat < 128 → ¬ c ≤ d := by
    intro d hd hcd
    have : c.toNat ≤ d.toNat := hcd
    omega
  unfold digitValue?
  simp only [hle '9' (by decide), hle 'f' (by decide), hle 'F' (by decide), decide_false,
    Bool.and_false, Bool.false_eq_true, if_false]

/-- A digit in lower case is the one that is written for its value. -/
theorem of_digitValue? {c : Char} {d : Nat} (h : digitValue? c = some d) :
    d < 16 ∧ c.toLower = Quoted.hexDigit d := by
  by_cases hc : c.toNat < 128
  · have hcheck := digits_check c.toNat hc
    rw [Char.ofNat_toNat] at hcheck
    rcases hcheck with hnone | ⟨d', hlt, hsome, hlower⟩
    · rw [hnone] at h; cases h
    · rw [hsome] at h
      cases h
      exact ⟨hlt, hlower⟩
  · rw [digitValue?_eq_none (Nat.le_of_not_lt hc)] at h
    cases h

theorem digitValue?_hexDigit {d : Nat} (h : d < 16) : digitValue? (Quoted.hexDigit d) = some d := by
  revert d
  decide

/-! ### Bytes -/

@[simp] theorem length_ofBytes (bs : List UInt8) : (ofBytes bs).length = 2 * bs.length := by
  induction bs with
  | nil => rfl
  | cons b bs ih =>
    rw [ofBytes, List.flatMap_cons, List.length_append, ← ofBytes, ih]
    simp only [ofByte, List.length_cons, List.length_nil]
    omega

theorem toBytes?_ofBytes (bs : List UInt8) : toBytes? (ofBytes bs) = some bs := by
  induction bs with
  | nil => rfl
  | cons b bs ih =>
    have hb := b.toNat_lt
    have hvalue : 16 * (b.toNat / 16) + b.toNat % 16 = b.toNat := by omega
    rw [ofBytes, List.flatMap_cons, ← ofBytes, ofByte]
    simp only [List.cons_append, List.nil_append, toBytes?,
      digitValue?_hexDigit (show b.toNat / 16 < 16 by omega),
      digitValue?_hexDigit (show b.toNat % 16 < 16 by omega), ih, hvalue, UInt8.ofNat_toNat]

theorem ofBytes_inj {bs bs' : List UInt8} (h : ofBytes bs = ofBytes bs') : bs = bs' := by
  have hread := toBytes?_ofBytes bs
  rw [h, toBytes?_ofBytes] at hread
  exact (Option.some.inj hread).symm

/-- Digits that stand for bytes are, in lower case, the digits of these bytes. -/
theorem ofBytes_of_toBytes? {cs : List Char} {bs : List UInt8} (h : toBytes? cs = some bs) :
    ofBytes bs = cs.map Char.toLower := by
  fun_induction toBytes? cs generalizing bs with
  | case1 => cases h; rfl
  | case2 => cases h
  | case3 high low cs x y bs' hbs hx hy ih =>
    cases h
    obtain ⟨hx16, hhigh⟩ := of_digitValue? hx
    obtain ⟨hy16, hlow⟩ := of_digitValue? hy
    have hb : (UInt8.ofNat (16 * x + y)).toNat = 16 * x + y := UInt8.toNat_ofNat_of_lt' (by
      show 16 * x + y < 256
      omega)
    rw [ofBytes, List.flatMap_cons, ← ofBytes, ih hbs, ofByte, hb,
      show (16 * x + y) / 16 = x by omega, show (16 * x + y) % 16 = y by omega]
    simp only [List.map_cons, hhigh, hlow, List.cons_append, List.nil_append]
  | case4 => cases h

theorem length_of_toBytes? {cs : List Char} {bs : List UInt8} (h : toBytes? cs = some bs) :
    cs.length = 2 * bs.length := by
  rw [← length_ofBytes, ofBytes_of_toBytes? h, List.length_map]

theorem digitValue?_toLower (c : Char) : digitValue? c.toLower = digitValue? c := by
  by_cases hc : c.toNat < 128
  · have hcheck : ∀ n < 128,
        digitValue? (Char.ofNat n).toLower = digitValue? (Char.ofNat n) := by
      decide +kernel
    have h := hcheck c.toNat hc
    rwa [Char.ofNat_toNat] at h
  · have hsame : c.toLower = c := by
      have hval : ¬ c.val.toNat < 128 := hc
      have hupper : ¬ c.val ≤ 'Z'.val := by
        intro h
        have hle : c.val.toNat ≤ 90 := h
        omega
      exact dif_neg fun h => hupper h.2
    rw [hsame]

theorem toBytes?_map_toLower (cs : List Char) : toBytes? (cs.map Char.toLower) = toBytes? cs := by
  fun_induction toBytes? cs with
  | case1 => rfl
  | case2 => rfl
  | case3 high low cs x y bs hbs hx hy ih =>
    simp only [List.map_cons, toBytes?, digitValue?_toLower, hx, hy, ih, hbs]
  | case4 high low cs hnot ih =>
    simp only [List.map_cons, toBytes?, digitValue?_toLower, ih]

/-- Digits of either case stand for the bytes that they are written for in lower case. -/
theorem toBytes?_eq_some_iff {cs : List Char} {bs : List UInt8} :
    toBytes? cs = some bs ↔ cs.map Char.toLower = ofBytes bs := by
  constructor
  · exact fun h => (ofBytes_of_toBytes? h).symm
  · intro h
    rw [← toBytes?_map_toLower, h, toBytes?_ofBytes]

theorem all_isDigit_of_toBytes? {cs : List Char} {bs : List UInt8} (h : toBytes? cs = some bs) :
    cs.all isDigit = true := by
  fun_induction toBytes? cs generalizing bs with
  | case1 => rfl
  | case2 => cases h
  | case3 high low cs x y bs' hbs hx hy ih =>
    simp only [List.all_cons, isDigit, hx, hy, Option.isSome_some, Bool.true_and]
    exact ih hbs
  | case4 => cases h

theorem isBlank_of_isDigit {c : Char} (h : isDigit c = true) : isBlank c = false := by
  have hcheck : ∀ n < 128, isDigit (Char.ofNat n) = true → isBlank (Char.ofNat n) = false := by
    decide +kernel
  by_cases hc : c.toNat < 128
  · have hc := hcheck c.toNat hc
    rw [Char.ofNat_toNat] at hc
    exact hc h
  · rw [isDigit, digitValue?_eq_none (Nat.le_of_not_lt hc)] at h
    cases h

/-- Pairs of digits stand for bytes. -/
theorem exists_toBytes? {n : Nat} {cs : List Char} (hlen : cs.length = 2 * n)
    (hdigits : cs.all isDigit = true) : ∃ bs, toBytes? cs = some bs := by
  induction n generalizing cs with
  | zero =>
    rw [List.eq_nil_of_length_eq_zero hlen]
    exact ⟨[], rfl⟩
  | succ n ih =>
    match cs, hlen with
    | high :: low :: cs, hlen =>
      simp only [List.all_cons, Bool.and_eq_true] at hdigits
      obtain ⟨x, hx⟩ := Option.isSome_iff_exists.1 hdigits.1
      obtain ⟨y, hy⟩ := Option.isSome_iff_exists.1 hdigits.2.1
      rw [List.length_cons, List.length_cons] at hlen
      obtain ⟨bs, hbs⟩ := ih (by omega) hdigits.2.2
      exact ⟨UInt8.ofNat (16 * x + y) :: bs, by simp only [toBytes?, hx, hy, hbs]⟩

end Text.Hex

/-! ### Addresses -/

namespace Text

theorem dropWhile_isBlank {cs : List Char} (h : ∀ c ∈ cs, isBlank c = false) :
    cs.dropWhile isBlank = cs := by
  cases cs with
  | nil => rfl
  | cons c cs => rw [List.dropWhile_cons, h c (List.mem_cons_self ..)]; rfl

/-- Blanks are stripped off, and nothing else. -/
theorem strip_append {before cs after : List Char} (hbefore : ∀ c ∈ before, isBlank c = true)
    (h : ∀ c ∈ cs, isBlank c = false) (hafter : ∀ c ∈ after, isBlank c = true) :
    strip (before ++ (cs ++ after)) = cs := by
  rw [strip, List.dropWhile_append_of_pos hbefore]
  cases cs with
  | nil =>
    have hnone : ([] ++ after).dropWhile isBlank = [] := List.dropWhile_eq_nil_iff.2 hafter
    rw [hnone]
    rfl
  | cons c cs =>
    have hfront : (c :: cs ++ after).dropWhile isBlank = c :: cs ++ after := by
      rw [List.cons_append, List.dropWhile_cons, h c (List.mem_cons_self ..)]
      rfl
    rw [hfront, List.reverse_append,
      List.dropWhile_append_of_pos fun c hc => hafter c (List.mem_reverse.1 hc),
      dropWhile_isBlank fun c hc => h c (List.mem_reverse.1 hc), List.reverse_reverse]

theorem exists_strip (cs : List Char) : ∃ before after, cs = before ++ (strip cs ++ after) ∧
    (∀ c ∈ before, isBlank c = true) ∧ ∀ c ∈ after, isBlank c = true := by
  have hsplit := List.takeWhile_append_dropWhile (p := isBlank) (l := cs)
  have hrest := List.takeWhile_append_dropWhile (p := isBlank) (l := (cs.dropWhile isBlank).reverse)
  refine ⟨cs.takeWhile isBlank, ((cs.dropWhile isBlank).reverse.takeWhile isBlank).reverse, ?_,
    fun c hc => List.mem_takeWhile_imp hc,
    fun c hc => List.mem_takeWhile_imp (List.mem_reverse.1 hc)⟩
  rw [strip, ← List.reverse_append, hrest, List.reverse_reverse, hsplit]

end Text

namespace Address

open Text

/-- The marks that hexadecimal digits can stand behind, if any. -/
def marks : List (List Char) := [[], ['0', 'x'], ['0', 'X']]

/-- The digits of a text between blanks and behind a mark. -/
def digitsOf (s : String) : List Char := unprefixed (strip s.toList)

theorem ofBytes_inj {bs bs' : Bytes} (h : ofBytes bs = ofBytes bs') : bs = bs' := by
  have hchars := String.ofList_injective h
  exact Hex.ofBytes_inj (List.cons.inj (List.cons.inj hchars).2).2

theorem isBlank_of_mem_marks {mark : List Char} {c : Char} (hmark : mark ∈ marks) (hc : c ∈ mark) :
    isBlank c = false := by
  have hcheck : marks.all (fun m => m.all fun c => !isBlank c) = true := rfl
  have hall := List.all_eq_true.1 (List.all_eq_true.1 hcheck mark hmark) c hc
  rwa [Bool.not_eq_true'] at hall

theorem unprefixed_mark {mark ds : List Char} (hmark : mark ∈ marks)
    (hdigits : ds.all Hex.isDigit = true) : unprefixed (mark ++ ds) = ds := by
  have hx : Hex.isDigit 'x' = false ∧ Hex.isDigit 'X' = false := by decide
  simp only [marks, List.mem_cons, List.not_mem_nil, or_false] at hmark
  rcases hmark with rfl | rfl | rfl
  · rw [List.nil_append]
    unfold unprefixed
    split
    · simp only [List.all_cons, hx.1, Bool.false_and, Bool.and_false, Bool.false_eq_true] at hdigits
    · simp only [List.all_cons, hx.2, Bool.false_and, Bool.and_false, Bool.false_eq_true] at hdigits
    · rfl
  · rfl
  · rfl

theorem exists_mark (cs : List Char) :
    ∃ mark ∈ marks, cs = mark ++ unprefixed cs := by
  unfold unprefixed
  split
  · exact ⟨['0', 'x'], by simp [marks], rfl⟩
  · exact ⟨['0', 'X'], by simp [marks], rfl⟩
  · exact ⟨[], by simp [marks], rfl⟩

/-- The text spells the bytes of an address: their digits, of either case, stand behind an optional
mark and between blanks. -/
def Spells (s : String) (bs : Bytes) : Prop :=
  ∃ before mark ds after, s.toList = before ++ (mark ++ ds ++ after) ∧
    (∀ c ∈ before, isBlank c = true) ∧ mark ∈ marks ∧
    ds.map Char.toLower = Hex.ofBytes bs ∧ ∀ c ∈ after, isBlank c = true

/-- The digits that are found are the ones that spell the bytes. -/
theorem toBytes?_digitsOf_eq_some_iff {s : String} {bs : Bytes} :
    Hex.toBytes? (digitsOf s) = some bs ↔ Spells s bs := by
  constructor
  · intro h
    obtain ⟨before, after, hsplit, hbefore, hafter⟩ := exists_strip s.toList
    obtain ⟨mark, hmark, hstrip⟩ := exists_mark (strip s.toList)
    refine ⟨before, mark, digitsOf s, after, ?_, hbefore, hmark, Hex.toBytes?_eq_some_iff.1 h,
      hafter⟩
    rwa [hstrip] at hsplit
  · rintro ⟨before, mark, ds, after, hs, hbefore, hmark, hds, hafter⟩
    have hread := Hex.toBytes?_eq_some_iff.2 hds
    have hdigits := Hex.all_isDigit_of_toBytes? hread
    have hblank : ∀ c ∈ mark ++ ds, isBlank c = false := by
      intro c hc
      rcases List.mem_append.1 hc with hc | hc
      · exact isBlank_of_mem_marks hmark hc
      · exact Hex.isBlank_of_isDigit (List.all_eq_true.1 hdigits c hc)
    rw [digitsOf, hs, strip_append hbefore hblank hafter, unprefixed_mark hmark hdigits, hread]

theorem spells_ofBytes (bs : Bytes) : Spells (ofBytes bs) bs := by
  refine ⟨[], ['0', 'x'], Hex.ofBytes bs, [], ?_, fun c hc => absurd hc List.not_mem_nil,
    by simp [marks], ?_, fun c hc => absurd hc List.not_mem_nil⟩
  · rw [ofBytes, String.toList_ofList, List.append_nil]
    rfl
  · exact (Hex.ofBytes_of_toBytes? (Hex.toBytes?_ofBytes bs)).symm

/-- **Canonical texts** are those of the twenty bytes that a text spells. -/
theorem canonical_eq_ok_iff {field s t : String} :
    canonical field s = .ok t ↔
      ∃ bs, bs.length = size ∧ Spells s bs ∧ t = ofBytes bs := by
  simp only [← toBytes?_digitsOf_eq_some_iff]
  unfold canonical hexText hexDigits
  rw [← digitsOf]
  dsimp only
  constructor
  · intro h
    split at h
    · cases h
    · next hlen =>
      split at h
      · next hdigits =>
        cases h
        have hlen : (digitsOf s).length = 2 * size := by omega
        obtain ⟨bs, hbs⟩ := Hex.exists_toBytes? hlen hdigits
        have hsize := Hex.length_of_toBytes? hbs
        exact ⟨bs, by omega, hbs, by rw [ofBytes, Hex.ofBytes_of_toBytes? hbs]⟩
      · cases h
  · rintro ⟨bs, hsize, hbs, rfl⟩
    have hlen := Hex.length_of_toBytes? hbs
    rw [if_neg (by omega), if_pos (Hex.all_isDigit_of_toBytes? hbs), ofBytes,
      Hex.ofBytes_of_toBytes? hbs]

/-- The canonical text of an address is its own canonical text. -/
theorem canonical_ofBytes {bs : Bytes} (h : bs.length = size) (field : String) :
    canonical field (ofBytes bs) = .ok (ofBytes bs) :=
  canonical_eq_ok_iff.2 ⟨bs, h, spells_ofBytes bs, rfl⟩

/-- **Reading a text** as an address gives the bytes whose canonical text it has. -/
theorem toBytes_eq_ok_iff {s : String} {bs : Bytes} :
    toBytes s = .ok bs ↔ bs.length = size ∧ canonical "address" s = .ok (ofBytes bs) := by
  have hread : ∀ bs', Hex.toBytes? (unprefixed (ofBytes bs').toList) = some bs' := by
    intro bs'
    rw [ofBytes, String.toList_ofList]
    exact Hex.toBytes?_ofBytes bs'
  unfold toBytes
  cases hc : canonical "address" s with
  | error f => exact iff_of_false (fun h => by cases h) fun h => by cases h.2
  | ok t =>
    obtain ⟨bs', hsize, -, rfl⟩ := canonical_eq_ok_iff.1 hc
    dsimp only [bind, Except.bind]
    rw [hread bs']
    constructor
    · intro h
      cases h
      exact ⟨hsize, rfl⟩
    · rintro ⟨-, h⟩
      rw [ofBytes_inj (Except.ok.inj h)]

/-- A field holds a text that spells an address. -/
def Holds (d : Datum) (bs : Bytes) : Prop := bs.length = size ∧ ∃ s, d.text? = some s ∧ Spells s bs

/-- The canonical text of an address that a field holds is that of its bytes. -/
theorem ofDatum_eq_ok_iff {field : String} {d : Datum} {t : String} :
    ofDatum field d = .ok t ↔ ∃ bs, Holds d bs ∧ t = ofBytes bs := by
  unfold ofDatum Holds
  cases d.text? with
  | none => exact iff_of_false (fun h => by cases h) fun ⟨_, ⟨_, _, h, _⟩, _⟩ => by cases h
  | some s =>
    dsimp only
    rw [canonical_eq_ok_iff]
    constructor
    · rintro ⟨bs, hsize, hs, ht⟩
      exact ⟨bs, ⟨hsize, s, rfl, hs⟩, ht⟩
    · rintro ⟨bs, ⟨hsize, s', hs', hs⟩, ht⟩
      cases hs'
      exact ⟨bs, hsize, hs, ht⟩

theorem length_of_datumBytes {d : Datum} {bs : Bytes} (h : datumBytes d = .ok bs) :
    bs.length = size := by
  unfold datumBytes at h
  split at h
  · exact (toBytes_eq_ok_iff.1 h).1
  · cases h

end Address

theorem Outcome.ofHex_eq_ok_iff {α : Type} {x : Except HexFault α} {a : α} :
    Outcome.ofHex x = .ok a ↔ x = .ok a := by
  cases x with
  | error f => exact iff_of_false (fun h => by cases h) fun h => by cases h
  | ok b => exact ⟨fun h => congrArg _ (Except.ok.inj h), fun h => congrArg _ (Except.ok.inj h)⟩

end SwapMachine
