/-!
# SwapMachine.Text.Blank — the blank characters of Unicode

`isBlank` holds of the separators and of the control characters that act as such; the zero-width
space and the byte-order mark are not among them.
-/

namespace SwapMachine.Text

/-- The ranges of blank characters, each by its first and last code point. -/
def blankRanges : List (Nat × Nat) :=
  [(0x09, 0x0d), (0x1c, 0x20), (0x85, 0x85), (0xa0, 0xa0), (0x1680, 0x1680), (0x2000, 0x200a),
    (0x2028, 0x2029), (0x202f, 0x202f), (0x205f, 0x205f), (0x3000, 0x3000)]

/-- A blank character. -/
def isBlank (c : Char) : Bool := blankRanges.any fun r => r.1 ≤ c.toNat && c.toNat ≤ r.2

/-- The characters between the blanks at both ends. -/
def strip (cs : List Char) : List Char :=
  ((cs.dropWhile isBlank).reverse.dropWhile isBlank).reverse

/-- The characters that are not blank. -/
def squeeze (cs : List Char) : List Char := cs.filter fun c => !isBlank c

end SwapMachine.Text
