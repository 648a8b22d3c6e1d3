import SwapMachine.Identity.Canonical

/-!
# SwapMachine.Proofs.CanonicalText — what canonical text tells apart

* `Text.Decimal.digits_append_inj`: digits, and where a row of them ends at another character.
* `Canonical.quote_append_inj`: a quoted text, and where it ends.
* `Canonical.utf8_inj`: the bytes of a text.
-/

namespace SwapMachine

/-- A row that ends at the first separator. -/
theorem append_separator_inj {α : Type} {sep : α} {xs ys rest rest' : List α} (hx : sep ∉ xs)
    (hy : sep ∉ ys) (h : xs ++ sep :: rest = ys ++ sep :: rest') : xs = ys ∧ rest = rest' := by
  induction xs generalizing ys with
  | nil =>
    cases ys with
    | nil => exact ⟨rfl, (List.cons.inj h).2⟩
    | cons y ys => exact absurd (List.cons.inj h).1 fun heq => hy (heq ▸ List.mem_cons_self ..)
  | cons x xs ih =>
    cases ys with
    | nil => exact absurd (List.cons.inj h).1 fun heq => hx (heq ▸ List.mem_cons_self ..)
    | cons y ys =>
      obtain ⟨rfl, htail⟩ := List.cons.inj h
      rw [List.mem_cons, not_or] at hx hy
      obtain ⟨rfl, hrest⟩ := ih hx.2 hy.2 htail
      exact ⟨rfl, hrest⟩

/-- A row of things of one sort, and where it ends. -/
theorem append_run_inj {α : Type} {p : α → Bool} {u v xs ys : List α} (hu : ∀ a ∈ u, p a = true)
    (hv : ∀ a ∈ v, p a = true) (hx : ∀ a ∈ xs.head?, p a = false)
    (hy : ∀ a ∈ ys.head?, p a = false) (h : u ++ xs = v ++ ys) : u = v ∧ xs = ys := by
  have hnone : ∀ zs : List α, (∀ a ∈ zs.head?, p a = false) → zs.takeWhile p = [] := by
    intro zs hz
    cases zs with
    | nil => rfl
    | cons z zs => rw [List.takeWhile_cons, hz z rfl]; rfl
  have htake := congrArg (List.takeWhile p) h
  rw [List.takeWhile_append_of_pos hu, List.takeWhile_append_of_pos hv, hnone xs hx, hnone ys hy,
    List.append_nil, List.append_nil] at htake
  exact ⟨htake, List.append_cancel_left (htake ▸ h)⟩

namespace Text.Decimal

theorem toNat_digit {d : Nat} (h : d < 10) : (digit d).toNat - 0x30 = d := by
  revert d
  decide

theorem value_concat (ds : List Nat) (d : Nat) : value (ds ++ [d]) = 10 * value ds + d := by
  simp only [value, List.foldl_append, List.foldl_cons, List.foldl_nil]

/-- The digits of a number stand for it. -/
theorem value_digits (n : Nat) : value ((digits n).map fun c => c.toNat - 0x30) = n := by
  fun_induction digits n with
  | case1 n h =>
    simp only [List.map_cons, List.map_nil, toNat_digit h]
    exact Nat.zero_add n
  | case2 n h ih =>
    rw [List.map_append, List.map_cons, List.map_nil, value_concat, ih, toNat_digit (by omega)]
    omega

theorem digits_inj {m n : Nat} (h : digits m = digits n) : m = n := by
  have hm := value_digits m
  rwa [h, value_digits, eq_comm] at hm

theorem of_mem_digits {n : Nat} {c : Char} (h : c ∈ digits n) : ∃ d < 10, c = digit d := by
  fun_induction digits n with
  | case1 n hn => exact ⟨n, hn, List.mem_singleton.1 h⟩
  | case2 n hn ih =>
    rcases List.mem_append.1 h with h | h
    · exact ih h
    · exact ⟨n % 10, Nat.mod_lt _ (by decide), List.mem_singleton.1 h⟩

theorem isDigit_of_mem_digits {n : Nat} {c : Char} (h : c ∈ digits n) : c.isDigit = true := by
  have hcheck : ∀ d < 10, (digit d).isDigit = true := by decide
  obtain ⟨d, hd, rfl⟩ := of_mem_digits h
  exact hcheck d hd

theorem comma_notMem_digits (n : Nat) : ',' ∉ digits n := by
  have hcheck : ∀ d < 10, ',' ≠ digit d := by decide
  intro h
  obtain ⟨d, hd, hc⟩ := of_mem_digits h
  exact hcheck d hd hc

end Text.Decimal

namespace Canonical

/-! ### Quoted texts -/

/-- The character that a short escape stands for. -/
def unescape : Char → Char
  | 'n' => '\n'
  | 'r' => '\r'
  | 't' => '\t'
  | 'b' => Char.ofNat 0x08
  | 'f' => Char.ofNat 0x0c
  | c => c

/-- The three forms in which a character of a text is written. -/
inductive Escaped (c : Char) : List Char → Prop
  | plain (hquote : c ≠ '"') (hslash : c ≠ '\\') : Escaped c [c]
  | short (d : Char) (hd : d ≠ 'u') (hc : c = unescape d) : Escaped c ['\\', d]
  | long (h : c.toNat < 0x20) : Escaped c ('\\' :: 'u' :: Text.Quoted.hexDigits 4 c.toNat)

theorem escaped_escape (c : Char) : Escaped c (escape c) := by
  have hpoint : ∀ n, (c.toNat == n) = true → c = Char.ofNat n := by
    intro n h
    rw [← beq_iff_eq.1 h, Char.ofNat_toNat]
  unfold escape
  split
  · next h => exact .short '"' (by decide) (beq_iff_eq.1 h)
  · next hquote =>
    split
    · next h => exact .short '\\' (by decide) (beq_iff_eq.1 h)
    · next hslash =>
      split
      · next h => exact .short 'n' (by decide) (beq_iff_eq.1 h)
      · split
        · next h => exact .short 'r' (by decide) (beq_iff_eq.1 h)
        · split
          · next h => exact .short 't' (by decide) (beq_iff_eq.1 h)
          · split
            · next h => exact .short 'b' (by decide) (hpoint _ h)
            · split
              · next h => exact .short 'f' (by decide) (hpoint _ h)
              · split
                · next h => exact .long h
                · exact .plain (fun h => hquote (beq_iff_eq.2 h)) fun h => hslash (beq_iff_eq.2 h)

@[simp] theorem length_hexDigits (width n : Nat) :
    (Text.Quoted.hexDigits width n).length = width := by
  induction width generalizing n with
  | zero => rfl
  | succ width ih => rw [Text.Quoted.hexDigits, List.length_append, ih, List.length_singleton]

/-- Control characters have different digits. -/
theorem hexDigits_inj {m n : Nat} (hm : m < 0x20) (hn : n < 0x20)
    (h : Text.Quoted.hexDigits 4 m = Text.Quoted.hexDigits 4 n) : m = n := by
  have hread : ∀ n < 0x20,
      Text.Hex.toBytes? (Text.Quoted.hexDigits 4 n) = some [0, UInt8.ofNat n] := by
    decide +kernel
  have hbytes := hread m hm
  rw [h, hread n hn] at hbytes
  have hbyte : UInt8.ofNat n = UInt8.ofNat m := by
    injection hbytes with hlist
    exact (List.cons.inj (List.cons.inj hlist).2).1
  have hvalue := congrArg UInt8.toNat hbyte
  rw [UInt8.toNat_ofNat_of_lt' (show n < 256 by omega),
    UInt8.toNat_ofNat_of_lt' (show m < 256 by omega)] at hvalue
  exact hvalue.symm

theorem Escaped.append_ne {c : Char} {u : List Char} (h : Escaped c u) (xs ys : List Char) :
    u ++ xs ≠ '"' :: ys := by
  cases h with
  | plain hquote => exact fun h => hquote (List.cons.inj h).1
  | short => exact fun h => absurd (List.cons.inj h).1 (by decide)
  | long => exact fun h => absurd (List.cons.inj h).1 (by decide)

/-- What a character is written as tells which it is, and where it ends. -/
theorem Escaped.append_inj {c d : Char} {u v xs ys : List Char} (hc : Escaped c u)
    (hd : Escaped d v) (h : u ++ xs = v ++ ys) : c = d ∧ xs = ys := by
  cases hc with
  | plain hquote hslash =>
    cases hd with
    | plain => exact List.cons.inj h
    | short => exact absurd (List.cons.inj h).1 hslash
    | long => exact absurd (List.cons.inj h).1 hslash
  | short k hk hck =>
    cases hd with
    | plain _ hslash => exact absurd (List.cons.inj h).1.symm hslash
    | short l hl hdl =>
      obtain ⟨rfl, htail⟩ := List.cons.inj (List.cons.inj h).2
      exact ⟨hck.trans hdl.symm, htail⟩
    | long => exact absurd (List.cons.inj (List.cons.inj h).2).1 hk
  | long hlt =>
    cases hd with
    | plain _ hslash => exact absurd (List.cons.inj h).1.symm hslash
    | short l hl => exact absurd (List.cons.inj (List.cons.inj h).2).1.symm hl
    | long hlt' =>
      obtain ⟨hdigits, htail⟩ := List.append_inj (List.cons.inj (List.cons.inj h).2).2
        ((length_hexDigits 4 _).trans (length_hexDigits 4 _).symm)
      have hn := hexDigits_inj hlt hlt' hdigits
      rw [← Char.ofNat_toNat c, hn, Char.ofNat_toNat]
      exact ⟨rfl, htail⟩

theorem escapes_append_inj {cs ds : List Char} {xs ys : List Char}
    (h : cs.flatMap escape ++ '"' :: xs = ds.flatMap escape ++ '"' :: ys) : cs = ds ∧ xs = ys := by
  induction cs generalizing ds with
  | nil =>
    cases ds with
    | nil => exact ⟨rfl, (List.cons.inj h).2⟩
    | cons d ds =>
      rw [List.flatMap_cons, List.append_assoc] at h
      exact absurd h.symm ((escaped_escape d).append_ne _ _)
  | cons c cs ih =>
    cases ds with
    | nil =>
      rw [List.flatMap_cons, List.append_assoc] at h
      exact absurd h ((escaped_escape c).append_ne _ _)
    | cons d ds =>
      rw [List.flatMap_cons, List.flatMap_cons, List.append_assoc, List.append_assoc] at h
      obtain ⟨rfl, htail⟩ := (escaped_escape c).append_inj (escaped_escape d) h
      obtain ⟨rfl, hrest⟩ := ih htail
      exact ⟨rfl, hrest⟩

/-- **Quoted texts** tell where they end and what they are. -/
theorem quote_append_inj {s t : String} {xs ys : List Char} (h : quote s ++ xs = quote t ++ ys) :
    s = t ∧ xs = ys := by
  simp only [quote, List.cons_append, List.append_assoc, List.nil_append, List.cons.injEq,
    true_and] at h
  obtain ⟨hchars, hrest⟩ := escapes_append_inj h
  exact ⟨String.toList_inj.1 hchars, hrest⟩

/-! ### Values -/

theorem render_text (s : String) : render (.text s) = quote s := rfl

theorem render_int (z : Int) : render (.int z) = Text.Decimal.signed z := rfl

theorem render_dict (entries : List (Datum × Datum)) : render (.dict entries) =
    '\x7b' :: joined ((sorted (renderEntries entries)).map fun m => quote m.1 ++ ':' :: m.2) ++
      ['\x7d'] := rfl

theorem renderEntries_nil : renderEntries [] = [] := rfl

theorem renderEntries_cons (k : String) (v : Datum) (entries : List (Datum × Datum)) :
    renderEntries ((.text k, v) :: entries) = (k, render v) :: renderEntries entries := rfl

/-! ### Bytes of a text -/

theorem toList_loop (b : ByteArray) (i : Nat) (r : List UInt8) :
    ByteArray.toList.loop b i r = r.reverse ++ b.data.toList.drop i := by
  induction hn : b.size - i generalizing i r with
  | zero =>
    have hle : b.data.toList.length ≤ i := by
      rw [Array.length_toList, ByteArray.size_data]
      omega
    rw [ByteArray.toList.loop, if_neg (by omega), List.drop_eq_nil_of_le hle, List.append_nil]
  | succ n ih =>
    have hlt : i < b.data.toList.length := by
      rw [Array.length_toList, ByteArray.size_data]
      omega
    have hget : b.get! i = b.data.toList[i] := getElem!_pos b.data i hlt
    rw [ByteArray.toList.loop, if_pos (by omega), ih _ _ (by omega), List.drop_eq_getElem_cons hlt,
      hget, List.reverse_cons, List.append_assoc]
    rfl

/-- Different texts have different bytes. -/
theorem utf8_inj {s t : String} (h : utf8 s = utf8 t) : s = t := by
  have hdata : ∀ u : String, utf8 u = u.toUTF8.data.toList := fun u => toList_loop _ 0 []
  rw [hdata, hdata] at h
  exact String.toByteArray_inj.1 (ByteArray.ext (Array.toList_inj.1 h))

end Canonical

end SwapMachine
