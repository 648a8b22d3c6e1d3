import SwapMachine.Markup.Timestamp
import SwapMachine.Number.Fraction
import SwapMachine.Number.Rounded

/-!
# SwapMachine.Markup.Scalar — what an unquoted word of markup stands for

An unquoted scalar is nothing, a truth value, a whole number, a fraction, a date or a moment or, if
it has the form of none of these, a text.

* `whole?` reads whole numbers in base two, eight, ten, sixteen and sixty.
* `fraction?` reads fractions in base ten and sixty; they always have a point.
* In numbers low lines between or behind digits do not count.
-/

namespace SwapMachine.Markup.Scalar

open Number (Binary64)

/-- The words for nothing. -/
def nothingWords : List String := ["", "~", "null", "Null", "NULL"]

/-- The words for truth. -/
def trueWords : List String := ["yes", "Yes", "YES", "true", "True", "TRUE", "on", "On", "ON"]

/-- The words for falsehood. -/
def falseWords : List String := ["no", "No", "NO", "false", "False", "FALSE", "off", "Off", "OFF"]

/-! ### Whole numbers -/

/-- The number that digits of a base spell; there has to be one digit at least. -/
def inBase? (base : Nat) (cs : List Char) : Option Nat :=
  let digit? (c : Char) : Option Nat := (Text.Hex.digitValue? c).filter (· < base)
  match (cs.filter (· != '_')).mapM digit? with
  | none | some [] => none
  | some ds => some (ds.foldl (fun n d => base * n + d) 0)

/-- A place of a number in base sixty behind the first: below sixty, in one or two digits. -/
def sixtieth? (cs : List Char) : Option Nat :=
  match inBase? 10 cs with
  | some n => if cs.length ≤ 2 ∧ cs.all Char.isDigit ∧ n < 60 then some n else none
  | none => none

/-- The number of a row of places in base sixty. -/
def inSixties? (head : Nat) (places : List (List Char)) : Option Nat :=
  (places.mapM sixtieth?).map fun ps => ps.foldl (fun n p => 60 * n + p) head

/-- The parts of a text between colons. -/
def parts (cs : List Char) : List (List Char) :=
  ((String.ofList cs).splitOn ":").map String.toList

/-- A whole number without sign. -/
def unsigned? (cs : List Char) : Option Nat :=
  match cs with
  | '0' :: 'b' :: ds => inBase? 2 ds
  | '0' :: 'x' :: ds => inBase? 16 ds
  | '0' :: _ => inBase? 8 cs
  | c :: _ =>
    if c.isDigit then
      match parts cs with
      | [] => none
      | head :: places => (inBase? 10 head).bind fun n => inSixties? n places
    else none
  | [] => none

/-- A whole number with an optional sign. -/
def whole? (cs : List Char) : Option Int :=
  match cs with
  | '-' :: ds => (unsigned? ds).map fun n => -(n : Int)
  | '+' :: ds => (unsigned? ds).map fun n => (n : Int)
  | ds => (unsigned? ds).map fun n => (n : Int)

/-! ### Fractions -/

/-- A digit or a low line. -/
def isDigitOrLow (c : Char) : Bool := c.isDigit || c == '_'

/-- Nothing, or a power of ten with its sign. -/
def isPower (cs : List Char) : Bool :=
  match cs with
  | [] => true
  | e :: sign :: ds =>
    (e == 'e' || e == 'E') && (sign == '-' || sign == '+') && !ds.isEmpty && ds.all Char.isDigit
  | _ => false

/-- A point, digits and perhaps a power of ten. -/
def isPointed (cs : List Char) : Bool :=
  match cs with
  | '.' :: ds => isPower (ds.dropWhile isDigitOrLow)
  | _ => false

/-- A fraction with digits before the point. -/
def isLong (cs : List Char) : Bool :=
  match cs with
  | c :: _ => c.isDigit && isPointed (cs.dropWhile isDigitOrLow)
  | [] => false

/-- A fraction that starts with the point. -/
def isShort (cs : List Char) : Bool :=
  match cs with
  | '.' :: c :: _ => c.isDigit && isPointed cs
  | _ => false

/-- The characters behind a sign, if there is one. -/
def unsignedPart (cs : List Char) : List Char :=
  match cs with
  | '-' :: ds => ds
  | '+' :: ds => ds
  | ds => ds

/-- The name of an infinity. -/
def isInfinity (cs : List Char) : Bool := [".inf", ".Inf", ".INF"].contains (String.ofList cs)

/-- The name of no number. -/
def isNan (cs : List Char) : Bool := [".nan", ".NaN", ".NAN"].contains (String.ofList cs)

/-- The last place of a fraction in base sixty: one or two digits below sixty, a point, digits. -/
def isLastPlace (cs : List Char) : Bool :=
  match cs.dropWhile (· != '.') with
  | '.' :: ds => (sixtieth? (cs.takeWhile (· != '.'))).isSome && ds.all isDigitOrLow
  | _ => false

/-- The places of a fraction in base sixty, of which there are two at least. -/
def sixties? (cs : List Char) : Option (List (List Char)) :=
  match parts cs with
  | (c :: head) :: p :: ps =>
    let middle := (p :: ps).dropLast
    if c.isDigit && head.all isDigitOrLow && middle.all (fun m => (sixtieth? m).isSome)
      && isLastPlace ((p :: ps).getLastD []) then some ((c :: head) :: p :: ps)
    else none
  | _ => none

/-- The sum of the places of a fraction in base sixty, taken from the last place on; each product
and each sum is rounded. -/
def sumSixties? (places : List (List Char)) : Option Binary64 :=
  let add (sum : Binary64 × Nat) (digit : Binary64) : Binary64 × Nat :=
    (sum.1.add (digit.mul (.ofInt sum.2)), 60 * sum.2)
  (places.reverse.mapM fun p => Number.Fraction.read? (p.filter (· != '_'))).map fun ds =>
    (ds.foldl add (.ofInt 0, 1)).1

/-- A fraction in base sixty with an optional sign. -/
def inSixtiesFraction? (cs : List Char) : Option Binary64 :=
  match (sixties? (unsignedPart cs)).bind sumSixties? with
  | some x => some (if cs.head? == some '-' then x.negate else x)
  | none => none

/-- A fraction. -/
def fraction? (cs : List Char) : Option Binary64 :=
  if isLong (unsignedPart cs) || isShort cs then Number.Fraction.read? (cs.filter (· != '_'))
  else if cs.contains ':' then inSixtiesFraction? cs
  else if isInfinity (unsignedPart cs) then some (.infinite (cs.head? == some '-'))
  else if isNan cs then some .nan
  else none

/-! ### All scalars -/

/-- The value of an unquoted scalar. -/
def resolve (cs : List Char) : Outcome Datum :=
  let word := String.ofList cs
  if nothingWords.contains word then .ok .nothing
  else if trueWords.contains word then .ok (.bool true)
  else if falseWords.contains word then .ok (.bool false)
  else
    match whole? cs, fraction? cs, Timestamp.read? cs with
    | some z, _, _ => .ok (.int z)
    | none, some x, _ => .ok (.float x)
    | none, none, some r => r
    | none, none, none => .ok (.text word)

end SwapMachine.Markup.Scalar
