import SwapMachine.Calendar
import SwapMachine.Number.Quantity
import SwapMachine.Number.Rounded
import SwapMachine.Text.Quoted

/-!
# SwapMachine.Datum — values of any sort, as callers and collaborators hand them over

A request, a settings file or a collaborator may give a value of the wrong sort where a number or a
text is wanted. A `Datum` is such a value before it has been looked at.

* `written` shows a value so that its sort can be told: texts stand in quotation marks.
* `plain` shows a text as it is and everything else as `written` does.
* `wordFault?` tells why a value cannot be shown, if that is so.
* `compare?` orders values of one sort, numbers and truth values counting as one; values that cannot
  be compared have no order.
* `dict` data come from `Datum.ofEntries`: a repeated key keeps its first place and its last value.
-/

namespace SwapMachine

open Number (Binary64 Quantity)

/-- Why something cannot be put into words: a number in it has too many digits, or a thing in it
fails when it is to be shown. -/
inductive WordFault where
  | tooManyDigits
  | unshown
  deriving DecidableEq

/-- A value of any sort. A text some code points of which are no characters, such as the halves of a
surrogate pair, is `loose`. A `thing` is a value of a sort of its own: no more is known of it than
the text that shows it, if there is one. -/
inductive Datum where
  | nothing
  | bool (b : Bool)
  | int (z : Int)
  | float (x : Binary64)
  | text (s : String)
  | loose (points : List Nat)
  | bytes (bs : List UInt8)
  | date (d : Calendar.Date)
  | moment (m : Calendar.Moment)
  | list (items : List Datum)
  | dict (entries : List (Datum × Datum))
  | thing (shown : Option String)

namespace Datum

mutual

/-- The value shown with its sort. -/
def written : Datum → List Char
  | nothing => "None".toList
  | bool true => "True".toList
  | bool false => "False".toList
  | int z => Text.Decimal.signed z
  | float x => x.write
  | text s => Text.Quoted.text s.toList
  | loose points => Text.Quoted.points points
  | bytes bs => Text.Quoted.bytes bs
  | date d => d.written.toList
  | moment m => m.written.toList
  | list items => '[' :: writtenItems items ++ [']']
  | dict entries => '\x7b' :: writtenEntries entries ++ ['\x7d']
  | thing shown => (shown.getD "").toList

/-- The values of a list, separated by commas. -/
def writtenItems : List Datum → List Char
  | [] => []
  | [d] => written d
  | d :: ds => written d ++ ',' :: ' ' :: writtenItems ds

/-- The entries of a dictionary, separated by commas. -/
def writtenEntries : List (Datum × Datum) → List Char
  | [] => []
  | [(k, v)] => written k ++ ':' :: ' ' :: written v
  | (k, v) :: es => written k ++ ':' :: ' ' :: written v ++ ',' :: ' ' :: writtenEntries es

end

/-- The value shown with its sort, as a text. -/
def display (d : Datum) : String := String.ofList d.written

/-- The value shown plainly. -/
def plain : Datum → String
  | text s => s
  | d => d.display

mutual

/-- What keeps a value from being shown, the first that is met. -/
def wordFault? : Datum → Option WordFault
  | int z => if Text.Decimal.isWritable z then none else some .tooManyDigits
  | thing none => some .unshown
  | list items => itemsFault? items
  | dict entries => entriesFault? entries
  | _ => none

/-- What keeps the values of a list from being shown. -/
def itemsFault? : List Datum → Option WordFault
  | [] => none
  | d :: ds => (wordFault? d).or (itemsFault? ds)

/-- What keeps the entries of a dictionary from being shown. -/
def entriesFault? : List (Datum × Datum) → Option WordFault
  | [] => none
  | (k, v) :: es => ((wordFault? k).or (wordFault? v)).or (entriesFault? es)

end

/-- The whole number that a number or a truth value amounts to. -/
def whole? : Datum → Option Int
  | bool b => some (if b then 1 else 0)
  | int z => some z
  | float x => x.toInt?
  | _ => none

/-- The text of code points. -/
def ofPoints (points : List Nat) : Datum :=
  if points.all fun n => decide n.isValidChar then .text (String.ofList (points.map Char.ofNat))
  else .loose points

/-- The text that a value is, a code point that is no character counting as a NUL. -/
def text? : Datum → Option String
  | text s => some s
  | loose points => some (String.ofList (points.map Char.ofNat))
  | _ => none

/-- The value added to itself: numbers are doubled, texts and lists repeated. -/
def doubled : Datum → Datum
  | bool b => int (if b then 2 else 0)
  | int z => int (2 * z)
  | float x => float (x.add x)
  | text s => text (s ++ s)
  | loose points => loose (points ++ points)
  | bytes bs => bytes (bs ++ bs)
  | list items => list (items ++ items)
  | d => d

/-! ### Order -/

/-- The number that a number or a truth value is. -/
def quantity? : Datum → Option Quantity
  | bool b => some (.whole (if b then 1 else 0))
  | int z => some (.whole z)
  | float x => some (.fraction x)
  | _ => none

/-- A number as a value. -/
def ofQuantity : Quantity → Datum
  | .whole z => int z
  | .fraction x => float x

/-- The code points of a text. -/
def points? : Datum → Option (List Nat)
  | text s => some (s.toList.map Char.toNat)
  | loose points => some points
  | _ => none

/-- The order of two values, if they can be compared: texts by code points, the rest by value. -/
def compare? (a b : Datum) : Option Ordering :=
  match a, b with
  | bytes s, bytes t => some (List.compareLex (fun x y => compare x.toNat y.toNat) s t)
  | date d, date e => some (d.compare e)
  | moment m, moment n => m.compare? n
  | a, b =>
    match a.quantity?, b.quantity? with
    | some x, some y => x.compare? y
    | _, _ =>
      match a.points?, b.points? with
      | some s, some t => some (List.compareLex compare s t)
      | _, _ => none

/-- The first of two values that can be compared is less than the second. -/
def isBelow (a b : Datum) : Bool := a.compare? b == some .lt

/-- The first of two numbers is less than the second or equal to it. -/
def isAtMost (a b : Datum) : Bool :=
  match a.quantity?, b.quantity? with
  | some x, some y => x.isAtMost y
  | _, _ => false

theorem isBelow_int (a b : Int) : (int a).isBelow (int b) = decide (a < b) :=
  Quantity.isBelow_whole a b

theorem isAtMost_int (a b : Int) : (int a).isAtMost (int b) = decide (a ≤ b) :=
  Quantity.isAtMost_whole a b

/-! ### Dictionaries -/

/-- Two scalars are the same key of a dictionary; numbers are compared by value. -/
def sameKey (a b : Datum) : Bool :=
  match a, b with
  | nothing, nothing => true
  | text s, text t => s == t
  | a, b => a.compare? b == some .eq

/-- Puts a value at a key: in place of the value that the same key has, or at the end. -/
def put (same : Datum → Datum → Bool) (entries : List (Datum × Datum)) (key value : Datum) :
    List (Datum × Datum) :=
  match entries with
  | [] => [(key, value)]
  | e :: es => if same e.1 key then (e.1, value) :: es else e :: put same es key value

/-- The entries of a dictionary filled with the pairs in turn. -/
def ofEntries (pairs : List (Datum × Datum)) : List (Datum × Datum) :=
  pairs.foldl (fun es p => put sameKey es p.1 p.2) []

end Datum

end SwapMachine
