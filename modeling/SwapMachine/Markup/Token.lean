import SwapMachine.Text.Hex

/-!
# SwapMachine.Markup.Token — the next token of markup

A markup text consists of scalars and of signs that build lists and mappings from them, either by
indentation or between brackets. Blanks, line breaks and comments separate tokens; where a token
starts tells how deep it is nested.

* `Cursor.token?` gives the next token and what is behind it, or nothing if some character can start
  none. How far an unquoted scalar goes on depends on where it stands: between brackets up to the
  next sign, elsewhere through all lines that are indented by more than what it belongs to.
* Texts in quotation marks are given by code points, because an escape can name a code point that is
  no character.
-/

namespace SwapMachine.Markup

/-- A line and a column, both counted from zero. -/
structure Place where
  line : Nat
  column : Nat
  deriving DecidableEq

/-- What is left of a text, and the place where that starts. -/
structure Cursor where
  place : Place
  rest : List Char

/-- What a token is. -/
inductive TokenKind where
  | plain (text : List Char)
  | quoted (points : List Nat)
  | entry
  | value
  | comma
  | openList
  | closeList
  | openMap
  | closeMap
  | documentStart
  | documentEnd
  | textEnd
  deriving DecidableEq

/-- A token and where it starts. -/
structure Token where
  place : Place
  kind : TokenKind
  deriving DecidableEq

/-! ### Characters -/

/-- A character that ends a line. -/
def isBreak (c : Char) : Bool :=
  c == '\n' || c == '\r' || c == '\u0085' || c == '\u2028' || c == '\u2029'

/-- A blank on a line. -/
def isBlankOrTab (c : Char) : Bool := c == ' ' || c == '\t'

/-- Nothing, a blank or the end of the line comes next. -/
def endsWord (cs : List Char) : Bool :=
  match cs with
  | [] => true
  | c :: _ => isBlankOrTab c || isBreak c

/-- A character that separates tokens between brackets. -/
def isBracketSign (c : Char) : Bool :=
  c == ',' || c == '[' || c == ']' || c == '\x7b' || c == '\x7d'

/-- The text with all line ends of one or two control characters written in one way. -/
def unifyBreaks : List Char → List Char
  | '\r' :: '\n' :: cs => '\n' :: unifyBreaks cs
  | '\r' :: cs => '\n' :: unifyBreaks cs
  | c :: cs => c :: unifyBreaks cs
  | [] => []

/-- The place behind a character. -/
def Place.next (p : Place) (c : Char) : Place :=
  if isBreak c then ⟨p.line + 1, 0⟩ else ⟨p.line, p.column + 1⟩

/-- The place behind some characters. -/
def Place.behind (p : Place) (cs : List Char) : Place := cs.foldl Place.next p

/-- The cursor before a rest of its text. -/
def Cursor.to (c : Cursor) (rest : List Char) : Cursor :=
  ⟨c.place.behind (c.rest.take (c.rest.length - rest.length)), rest⟩

/-- The mark of a document's start or end, which stands at the beginning of a line. -/
def documentMark? (p : Place) (cs : List Char) : Option TokenKind :=
  if p.column ≠ 0 then none
  else
    match cs with
    | '-' :: '-' :: '-' :: rest => if endsWord rest then some .documentStart else none
    | '.' :: '.' :: '.' :: rest => if endsWord rest then some .documentEnd else none
    | _ => none

/-! ### Line ends inside scalars -/

/-- What a line end is in a text: the separators of lines and paragraphs stay, others are one. -/
def breakChar (c : Char) : Char := if c == '\u2028' || c == '\u2029' then c else '\n'

/-- Splits line ends and the blanks around them off the front. -/
def lineEnds (isBlank : Char → Bool) : List Char → List Char × List Char
  | [] => ([], [])
  | c :: cs =>
    if isBreak c then
      let (ends, rest) := lineEnds isBlank cs
      (breakChar c :: ends, rest)
    else if isBlank c then lineEnds isBlank cs
    else ([], c :: cs)

theorem lineEnds_length_le (isBlank : Char → Bool) (cs : List Char) :
    (lineEnds isBlank cs).2.length ≤ cs.length := by
  induction cs with
  | nil => exact Nat.le_refl _
  | cons c cs ih =>
    unfold lineEnds
    split
    · exact Nat.le_succ_of_le ih
    · split
      · exact Nat.le_succ_of_le ih
      · exact Nat.le_refl _

/-- What line ends make of a text: a single one is a blank, and of more the first does not count. -/
def folded : List Char → List Char
  | [] => []
  | c :: ends => if c ≠ '\n' then c :: ends else if ends.isEmpty then [' '] else ends

/-! ### Unquoted scalars -/

/-- A colon that ends an unquoted scalar. -/
def isColon (inBrackets : Bool) (cs : List Char) : Bool :=
  match cs with
  | ':' :: rest => endsWord rest || (inBrackets && rest.head?.any isBracketSign)
  | _ => false

/-- The characters of an unquoted scalar on its line; a comment starts behind a blank. -/
def plainLine (inBrackets : Bool) (before : Char) : List Char → List Char
  | [] => []
  | c :: cs =>
    if isBreak c || c == '\t' || isColon inBrackets (c :: cs) || (c == '#' && before == ' ')
      || (inBrackets && (isBracketSign c || c == '?'))
    then []
    else c :: plainLine inBrackets c cs

/-- The characters without the blanks behind them. -/
def trimEnd (cs : List Char) : List Char := (cs.reverse.dropWhile (· == ' ')).reverse

/-- An unquoted scalar may start here. -/
def startsPlain (inBrackets : Bool) (cs : List Char) : Bool :=
  match cs with
  | [] => false
  | c :: rest =>
    if c == '-' then !endsWord rest
    else if c == '?' || c == ':' then !inBrackets && !endsWord rest
    else !(endsWord cs || "[]\x7b\x7d,#&*!|>'\"%@".toList.contains c || c.toNat == 0x60)

/-- An unquoted scalar does not go on at a place: a document starts or ends there, or, outside of
brackets, it is not behind the column `indent`. -/
def stopsPlain (inBrackets : Bool) (indent : Int) (p : Place) (cs : List Char) : Bool :=
  (documentMark? p cs).isSome || (!inBrackets && decide ((p.column : Int) ≤ indent))

/-- The text of an unquoted scalar and what is behind it. The scalar goes on over following lines,
whatever they start with, as long as there are characters that do not stop it. -/
def plainText (inBrackets : Bool) (indent : Int) (p : Place) (cs : List Char) :
    List Char × List Char :=
  let line := trimEnd (plainLine inBrackets ' ' cs)
  if _h : cs.length = 0 ∨ line.length = 0 then ([], cs)
  else
    let behind := cs.drop line.length
    let split := lineEnds (· == ' ') behind
    have : split.2.length ≤ behind.length := lineEnds_length_le _ _
    let q := p.behind (cs.take (cs.length - split.2.length))
    if split.1.isEmpty || stopsPlain inBrackets indent q split.2 then (line, behind)
    else
      let more := plainText inBrackets indent q split.2
      if more.1.isEmpty then (line, behind) else (line ++ folded split.1 ++ more.1, more.2)
termination_by cs.length
decreasing_by
  have hb : behind.length < cs.length := by
    have : behind.length = cs.length - line.length := List.length_drop
    omega
  exact Nat.lt_of_le_of_lt this hb

/-! ### Quoted scalars -/

/-- The code points of characters. -/
def codes (cs : List Char) : List Nat := cs.map Char.toNat

/-- What blanks and line ends in a quoted scalar become, and the rest behind them. -/
def quotedSpace (cs : List Char) : List Char × List Char :=
  let (ends, rest) := lineEnds isBlankOrTab cs
  if ends.isEmpty then (cs.takeWhile isBlankOrTab, rest) else (folded ends, rest)

theorem quotedSpace_length_le {c : Char} {cs : List Char} (h : endsWord (c :: cs) = true) :
    (quotedSpace (c :: cs)).2.length ≤ cs.length := by
  have hrest : (quotedSpace (c :: cs)).2 = (lineEnds isBlankOrTab (c :: cs)).2 := by
    unfold quotedSpace
    split
    rename_i ends rest heq
    by_cases he : ends.isEmpty <;> simp [he, heq]
  rw [hrest]
  unfold lineEnds
  split
  · exact lineEnds_length_le _ _
  · rename_i hb
    split
    · exact lineEnds_length_le _ _
    · rename_i hs
      simp [endsWord, hb] at h
      simp_all

/-- The code points that characters stand for behind a backslash. -/
def escapes : List (Char × Nat) :=
  [('0', 0x00), ('a', 0x07), ('b', 0x08), ('t', 0x09), ('\t', 0x09), ('n', 0x0a), ('v', 0x0b),
    ('f', 0x0c), ('r', 0x0d), ('e', 0x1b), (' ', 0x20), ('"', 0x22), ('\\', 0x5c), ('/', 0x2f),
    ('N', 0x85), ('_', 0xa0), ('L', 0x2028), ('P', 0x2029)]

/-- How many hexadecimal digits follow a letter behind a backslash. -/
def escapeWidth? (c : Char) : Option Nat :=
  if c == 'x' then some 2 else if c == 'u' then some 4 else if c == 'U' then some 8 else none

/-- The code point of hexadecimal digits. -/
def codePoint? (cs : List Char) : Option Nat :=
  match cs.mapM Text.Hex.digitValue? with
  | some ds => some (ds.foldl (fun n d => 16 * n + d) 0)
  | none => none

/-- The text in single quotation marks up to the closing one, and what is behind it. A mark inside
is written twice. -/
def singleQuoted? (cs : List Char) : Option (List Nat × List Char) :=
  match cs with
  | [] => none
  | '\'' :: '\'' :: rest => (singleQuoted? rest).map fun r => (0x27 :: r.1, r.2)
  | '\'' :: rest => some ([], rest)
  | c :: rest =>
    if h : endsWord (c :: rest) then
      have := quotedSpace_length_le h
      (singleQuoted? (quotedSpace (c :: rest)).2).map fun r =>
        (codes (quotedSpace (c :: rest)).1 ++ r.1, r.2)
    else (singleQuoted? rest).map fun r => (c.toNat :: r.1, r.2)
termination_by cs.length
decreasing_by
  all_goals
    simp only [List.length_cons]
    omega

/-- The text in double quotation marks up to the closing one, and what is behind it. A backslash
gives the character behind it another meaning, and takes a line end away. -/
def doubleQuoted? (cs : List Char) : Option (List Nat × List Char) :=
  match cs with
  | [] => none
  | '"' :: rest => some ([], rest)
  | '\\' :: c :: rest =>
    if isBreak c then
      have := lineEnds_length_le isBlankOrTab rest
      (doubleQuoted? (lineEnds isBlankOrTab rest).2).map fun r =>
        (codes (lineEnds isBlankOrTab rest).1 ++ r.1, r.2)
    else
      match escapes.lookup c with
      | some n => (doubleQuoted? rest).map fun r => (n :: r.1, r.2)
      | none =>
        match escapeWidth? c with
        | none => none
        | some width =>
          match codePoint? (rest.take width) with
          | none => none
          | some n => (doubleQuoted? (rest.drop width)).map fun r => (n :: r.1, r.2)
  | c :: rest =>
    if h : endsWord (c :: rest) then
      have := quotedSpace_length_le h
      (doubleQuoted? (quotedSpace (c :: rest)).2).map fun r =>
        (codes (quotedSpace (c :: rest)).1 ++ r.1, r.2)
    else (doubleQuoted? rest).map fun r => (c.toNat :: r.1, r.2)
termination_by cs.length
decreasing_by
  all_goals
    simp only [List.length_cons, List.length_drop]
    omega

/-! ### All tokens -/

namespace Cursor

/-- The cursor behind blanks, line ends and comments. -/
def skipFrom (inComment : Bool) (p : Place) : List Char → Cursor
  | [] => ⟨p, []⟩
  | c :: cs =>
    if isBreak c then skipFrom false (p.next c) cs
    else if inComment || c == ' ' then skipFrom inComment (p.next c) cs
    else if c == '#' then skipFrom true (p.next c) cs
    else ⟨p, c :: cs⟩

/-- The cursor before the next token. -/
def skip (c : Cursor) : Cursor := skipFrom false c.place c.rest

/-- The kind of a token that is a single character. -/
def sign? (inBrackets : Bool) (cs : List Char) : Option TokenKind :=
  match cs with
  | '[' :: _ => some .openList
  | ']' :: _ => some .closeList
  | '\x7b' :: _ => some .openMap
  | '\x7d' :: _ => some .closeMap
  | ',' :: _ => some .comma
  | '-' :: rest => if endsWord rest then some .entry else none
  | ':' :: rest => if inBrackets || endsWord rest then some .value else none
  | _ => none

/-- The token that starts at the cursor, and what is behind it. -/
def first? (inBrackets : Bool) (indent : Int) (c : Cursor) : Option (TokenKind × List Char) :=
  match documentMark? c.place c.rest, sign? inBrackets c.rest with
  | some kind, _ => some (kind, c.rest.drop 3)
  | none, some kind => some (kind, c.rest.drop 1)
  | none, none =>
    match c.rest with
    | [] => some (.textEnd, [])
    | '\'' :: rest => (singleQuoted? rest).map fun r => (.quoted r.1, r.2)
    | '"' :: rest => (doubleQuoted? rest).map fun r => (.quoted r.1, r.2)
    | cs =>
      if startsPlain inBrackets cs then
        let r := plainText inBrackets indent c.place cs
        some (.plain r.1, r.2)
      else none

/-- The next token and the cursor behind it. Outside of brackets an unquoted scalar takes only lines
behind the column `indent`. -/
def token? (inBrackets : Bool) (indent : Int) (c : Cursor) : Option (Token × Cursor) :=
  let start := c.skip
  (first? inBrackets indent start).map fun r => (⟨start.place, r.1⟩, start.to r.2)

/-- The cursor at the beginning of a text; a byte-order mark at its front does not count. -/
def ofText (text : List Char) : Cursor :=
  match text with
  | '\ufeff' :: cs => ⟨⟨0, 0⟩, unifyBreaks cs⟩
  | cs => ⟨⟨0, 0⟩, unifyBreaks cs⟩

end Cursor

end SwapMachine.Markup
