import SwapMachine.Markup.Token

/-!
# SwapMachine.Markup.Node — how a markup text is nested

Lists and mappings are nested by indentation: what belongs to an entry stands in a column behind it,
or is a list in the column of the mapping that it is a value of. Between brackets the columns do not
matter. A node that is left out is an unquoted scalar without characters.

* `Node.ofText?` gives the node of a text, or nothing if the text is not well formed.
* The readers take tokens from a cursor. Each call of one reader by another is counted against
  `fuel`, of which `Node.ofText?` provides more than the characters can use up.
-/

namespace SwapMachine.Markup

/-- A part of a markup text: a scalar, a list, or a mapping with its pairs as they are written. -/
inductive Node where
  | plain (text : List Char)
  | quoted (points : List Nat)
  | list (items : List Node)
  | map (pairs : List (Node × Node))

namespace Node

/-- What is left out. -/
def absent : Node := plain []

/-! ### Between brackets -/

mutual

/-- A node between brackets. -/
def bracketed? (fuel : Nat) (c : Cursor) : Option (Node × Cursor) :=
  match fuel with
  | 0 => none
  | fuel + 1 =>
    match c.token? true (-1) with
    | some (⟨_, .openList⟩, c) => (items? fuel c).map fun r => (list r.1, r.2)
    | some (⟨_, .openMap⟩, c) => (pairs? fuel c).map fun r => (map r.1, r.2)
    | some (⟨_, .plain text⟩, c) => some (plain text, c)
    | some (⟨_, .quoted points⟩, c) => some (quoted points, c)
    | _ => none

/-- The value behind a key between brackets; without a colon or in front of a sign it is left
out. -/
def value? (fuel : Nat) (c : Cursor) : Option (Option Node × Cursor) :=
  match fuel with
  | 0 => none
  | fuel + 1 =>
    match c.token? true (-1) with
    | some (⟨_, .value⟩, c) =>
      match c.token? true (-1) with
      | some (⟨_, .comma⟩, _) | some (⟨_, .closeMap⟩, _) | some (⟨_, .closeList⟩, _) =>
        some (some absent, c)
      | _ => (bracketed? fuel c).map fun r => (some r.1, r.2)
    | _ => some (none, c)

/-- The items of a list up to its closing bracket; an item with a colon is a mapping of one key. -/
def items? (fuel : Nat) (c : Cursor) : Option (List Node × Cursor) :=
  match fuel with
  | 0 => none
  | fuel + 1 =>
    match c.token? true (-1) with
    | some (⟨_, .closeList⟩, c) => some ([], c)
    | _ => do
      let (key, c) ← bracketed? fuel c
      let (value, c) ← value? fuel c
      let item :=
        match value with
        | some v => map [(key, v)]
        | none => key
      match c.token? true (-1) with
      | some (⟨_, .comma⟩, c) => (items? fuel c).map fun r => (item :: r.1, r.2)
      | some (⟨_, .closeList⟩, c) => some ([item], c)
      | _ => none

/-- The pairs of a mapping up to its closing bracket. -/
def pairs? (fuel : Nat) (c : Cursor) : Option (List (Node × Node) × Cursor) :=
  match fuel with
  | 0 => none
  | fuel + 1 =>
    match c.token? true (-1) with
    | some (⟨_, .closeMap⟩, c) => some ([], c)
    | _ => do
      let (key, c) ← bracketed? fuel c
      let (value, c) ← value? fuel c
      let pair := (key, value.getD absent)
      match c.token? true (-1) with
      | some (⟨_, .comma⟩, c) => (pairs? fuel c).map fun r => (pair :: r.1, r.2)
      | some (⟨_, .closeMap⟩, c) => some ([pair], c)
      | _ => none

end

/-! ### By indentation -/

/-- A scalar. -/
def scalar? (t : Token) : Option Node :=
  match t.kind with
  | .plain text => some (plain text)
  | .quoted points => some (quoted points)
  | _ => none

/-- The key that the cursor is at, if a scalar stands in the column and a colon behind it on its
line, and the cursor behind the colon. -/
def key? (column : Nat) (c : Cursor) : Option (Node × Cursor) :=
  match c.token? false column with
  | none => none
  | some (t, c) =>
    match scalar? t, c.token? false column with
    | some key, some (⟨p, .value⟩, c) =>
      if t.place.column = column ∧ p.line = t.place.line then some (key, c) else none
    | _, _ => none

/-- The next token stands behind a column and belongs to the document. -/
def isInside (column : Nat) (c : Cursor) : Bool :=
  match c.token? false column with
  | none | some (⟨_, .documentStart⟩, _) | some (⟨_, .documentEnd⟩, _)
  | some (⟨_, .textEnd⟩, _) => false
  | some (t, _) => column < t.place.column

/-- The cursor behind the sign of a list's entry, if the next token is one in the column. -/
def item? (column : Nat) (c : Cursor) : Option Cursor :=
  match c.token? false column with
  | some (⟨p, .entry⟩, c) => if p.column = column then some c else none
  | _ => none

mutual

/-- The node that the cursor is at, in which lines stand behind the column `indent`. -/
def block? (fuel : Nat) (indent : Int) (c : Cursor) : Option (Node × Cursor) :=
  match fuel with
  | 0 => none
  | fuel + 1 =>
    match c.token? false indent with
    | none => none
    | some (t, after) =>
      let column := t.place.column
      if t.kind = .entry then (entries? fuel column c).map fun r => (list r.1, r.2)
      else if (key? column c).isSome then (fields? fuel column c).map fun r => (map r.1, r.2)
      else if t.kind = .openList ∨ t.kind = .openMap then bracketed? fuel c
      else (scalar? t).map fun n => (n, after)

/-- The entries of a list in a column. -/
def entries? (fuel : Nat) (column : Nat) (c : Cursor) : Option (List Node × Cursor) :=
  match fuel with
  | 0 => none
  | fuel + 1 =>
    match item? column c with
    | none => some ([], c)
    | some c => do
      let (item, c) ← if isInside column c then block? fuel column c else some (absent, c)
      (entries? fuel column c).map fun r => (item :: r.1, r.2)

/-- The pairs of a mapping in a column. -/
def fields? (fuel : Nat) (column : Nat) (c : Cursor) : Option (List (Node × Node) × Cursor) :=
  match fuel with
  | 0 => none
  | fuel + 1 =>
    match key? column c with
    | none => some ([], c)
    | some (key, c) => do
      let (value, c) ←
        if isInside column c then block? fuel column c
        else if (item? column c).isSome then
          (entries? fuel column c).map fun r => (list r.1, r.2)
        else some (absent, c)
      (fields? fuel column c).map fun r => ((key, value) :: r.1, r.2)

end

/-! ### Documents -/

/-- Nothing follows but marks of the document's end, of which there are `marks` at most. -/
def isFinished (marks : Nat) (c : Cursor) : Bool :=
  match marks, c.token? false (-1) with
  | _, some (⟨_, .textEnd⟩, _) => true
  | marks + 1, some (⟨_, .documentEnd⟩, c) => isFinished marks c
  | _, _ => false

/-- The cursor behind the mark that a document starts with, if there is one. -/
def afterStart (c : Cursor) : Cursor :=
  match c.token? false (-1) with
  | some (⟨_, .documentStart⟩, c) => c
  | _ => c

/-- The node of a text; a document without content leaves it out. -/
def ofText? (text : String) : Option Node :=
  let size := text.toList.length
  let c := afterStart (Cursor.ofText text.toList)
  if isFinished size c then some absent
  else
    match block? (4 * size + 4) (-1) c with
    | some (node, c) => if isFinished size c then some node else none
    | none => none

end Node

end SwapMachine.Markup
