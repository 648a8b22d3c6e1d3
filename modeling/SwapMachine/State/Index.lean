/-!
# SwapMachine.State.Index — one value for each of some keys, in the order of the keys

* `insert` puts a value at a key, over the one that is there.
* `overlay` puts all values of one index over those of another.
* `get?` is the view: `get?_insert`, `get?_erase` and `get?_overlay` say what each operation does to
  it.
-/

namespace SwapMachine

/-- A list of keys and values, sorted by rising key. -/
structure Index (κ ν : Type) where
  entries : List (κ × ν)

namespace Index

variable {κ ν : Type} [DecidableEq κ]

/-- No key at all. -/
def empty : Index κ ν := ⟨[]⟩

/-- The value at a key in a list of entries. -/
def find? (k : κ) : List (κ × ν) → Option ν
  | [] => none
  | e :: es => if k = e.1 then some e.2 else find? k es

/-- The value at a key. -/
def get? (t : Index κ ν) (k : κ) : Option ν := find? k t.entries

/-- The key has a value. -/
def contains (t : Index κ ν) (k : κ) : Bool := (t.get? k).isSome

/-- The keys, rising. -/
def keys (t : Index κ ν) : List κ := t.entries.map Prod.fst

/-- No key has a value. -/
def isEmpty (t : Index κ ν) : Bool := t.entries.isEmpty

/-- The entries with a value put at a key. -/
def place [Ord κ] (k : κ) (v : ν) : List (κ × ν) → List (κ × ν)
  | [] => [(k, v)]
  | e :: es =>
    if k = e.1 then (k, v) :: es
    else if compare k e.1 = .lt then (k, v) :: e :: es
    else e :: place k v es

/-- The index with a value put at a key. -/
def insert [Ord κ] (t : Index κ ν) (k : κ) (v : ν) : Index κ ν := ⟨place k v t.entries⟩

/-- The index without a key. -/
def erase (t : Index κ ν) (k : κ) : Index κ ν := ⟨t.entries.filter fun e => e.1 ≠ k⟩

/-- The index with all values of another put in. -/
def overlay [Ord κ] (t upper : Index κ ν) : Index κ ν :=
  upper.entries.foldr (fun e acc => acc.insert e.1 e.2) t

/-- The index of a list of entries; of two for one key the later one counts. -/
def ofList [Ord κ] (es : List (κ × ν)) : Index κ ν :=
  es.foldl (fun acc e => acc.insert e.1 e.2) empty

@[simp] theorem get?_empty (k : κ) : (empty : Index κ ν).get? k = none := rfl

theorem find?_place [Ord κ] (k a : κ) (v : ν) (es : List (κ × ν)) :
    find? a (place k v es) = if a = k then some v else find? a es := by
  induction es with
  | nil => simp [place, find?]
  | cons e es ih =>
    unfold place
    split
    · rename_i hk; subst hk
      by_cases ha : a = e.1 <;> simp [find?, ha]
    · rename_i hk
      split
      · simp [find?]
      · simp only [find?, ih]
        by_cases ha : a = e.1
        · have hne : a ≠ k := fun h => hk (h ▸ ha)
          rw [if_pos ha, if_neg hne, if_pos ha]
        · simp [ha]

@[simp] theorem get?_insert [Ord κ] (t : Index κ ν) (k a : κ) (v : ν) :
    (t.insert k v).get? a = if a = k then some v else t.get? a :=
  find?_place k a v t.entries

@[simp] theorem get?_erase (t : Index κ ν) (k a : κ) :
    (t.erase k).get? a = if a = k then none else t.get? a := by
  unfold erase get?
  induction t.entries with
  | nil => simp [find?]
  | cons e es ih =>
    by_cases hk : e.1 = k
    · simp only [List.filter_cons, hk, ne_eq, not_true_eq_false, decide_false, Bool.false_eq_true,
        if_false, ih]
      by_cases ha : a = k <;> simp [find?, hk, ha]
    · simp only [List.filter_cons, hk, ne_eq, not_false_eq_true, decide_true, if_true, find?, ih]
      by_cases ha : a = e.1
      · have hne : a ≠ k := fun h => hk (ha.symm.trans h)
        simp [ha, hk]
      · simp [ha]

@[simp] theorem get?_overlay [Ord κ] (t upper : Index κ ν) (a : κ) :
    (t.overlay upper).get? a = (upper.get? a).or (t.get? a) := by
  unfold overlay get?
  induction upper.entries with
  | nil => simp [find?]
  | cons e es ih =>
    rw [List.foldr_cons]
    refine (find?_place e.1 a e.2 _).trans ?_
    rw [ih, find?]
    by_cases ha : a = e.1 <;> simp [ha]

end Index

end SwapMachine
