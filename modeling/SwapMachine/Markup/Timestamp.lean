import SwapMachine.Fault

/-!
# SwapMachine.Markup.Timestamp — dates and moments as unquoted scalars

A date is a year of four digits, a month and a day of two digits each. A moment has a date, in which
one digit of month and day may be left out, then `T` or blanks, hours, minutes and seconds, and
perhaps a fraction of the second and the offset of the clock: `Z` or hours with a sign, and minutes.

* `read?` tells whether a scalar has one of these forms, and if so what it stands for; a scalar of
  that form with a part out of range stands for nothing.
-/

namespace SwapMachine.Markup.Timestamp

open Calendar (Date Moment)

/-! ### Parts -/

/-- The number of a row of digits. -/
def numberOf (ds : List Char) : Nat := Text.Decimal.value (ds.map fun c => c.toNat - 0x30)

/-- The number of the digits at the front, at least `least` and at most `most` of them, and what is
behind them. -/
def digits? (least most : Nat) (cs : List Char) : Option (Nat × List Char) :=
  let ds := (cs.take most).takeWhile Char.isDigit
  if ds.length < least then none else some (numberOf ds, cs.drop ds.length)

/-- What is behind a sign. -/
def behind? (sign : Char) : List Char → Option (List Char)
  | [] => none
  | c :: cs => if c = sign then some cs else none

/-- A date with months and days of at least so many digits, and what is behind it. -/
def date? (least : Nat) (cs : List Char) : Option (Date × List Char) := do
  let (year, cs) ← digits? 4 4 cs
  let (month, cs) ← digits? least 2 (← behind? '-' cs)
  let (day, cs) ← digits? least 2 (← behind? '-' cs)
  return (⟨year, month, day⟩, cs)

/-- What is behind the blanks at the front. -/
def skipBlanks (cs : List Char) : List Char := cs.dropWhile fun c => c == ' ' || c == '\t'

/-- What is behind the separator of date and time. -/
def behindSeparator? : List Char → Option (List Char)
  | [] => none
  | c :: cs =>
    if c == 'T' || c == 't' then some cs
    else if c == ' ' || c == '\t' then some (skipBlanks cs)
    else none

/-- The microseconds of a fraction, of which six digits count, and what is behind it. -/
def fraction : List Char → Nat × List Char
  | '.' :: cs =>
    let ds := cs.takeWhile Char.isDigit
    (numberOf ((ds ++ List.replicate 6 '0').take 6), cs.drop ds.length)
  | cs => (0, cs)

/-- The seconds of hours and perhaps minutes, which end the text. -/
def span? (cs : List Char) : Option Nat := do
  let (hours, cs) ← digits? 1 2 cs
  match cs with
  | [] => some (3600 * hours)
  | cs =>
    let (minutes, cs) ← digits? 2 2 (← behind? ':' cs)
    if cs.isEmpty then some (3600 * hours + 60 * minutes) else none

/-- The offset at the end of a moment, which may be left out. -/
def offset? (cs : List Char) : Option (Option Int) :=
  if cs.isEmpty then some none
  else
    match skipBlanks cs with
    | ['Z'] => some (some 0)
    | '+' :: cs => (span? cs).map fun n => some (n : Int)
    | '-' :: cs => (span? cs).map fun n => some (-(n : Int))
    | _ => none

/-- A moment. -/
def moment? (cs : List Char) : Option Moment := do
  let (date, cs) ← date? 1 cs
  let (hour, cs) ← digits? 1 2 (← behindSeparator? cs)
  let (minute, cs) ← digits? 2 2 (← behind? ':' cs)
  let (second, cs) ← digits? 2 2 (← behind? ':' cs)
  let (micro, cs) := fraction cs
  return ⟨date, hour, minute, second, micro, ← offset? cs⟩

/-! ### Ranges -/

/-- Refuses a date that the calendar does not have. -/
def checkDate (d : Date) : Outcome Unit :=
  if d.year = 0 then .error (.markup (.yearRange d.year))
  else if ¬ (1 ≤ d.month ∧ d.month ≤ 12) then .error (.markup .monthRange)
  else if ¬ (1 ≤ d.day ∧ d.day ≤ Calendar.monthLength d.year d.month) then
    .error (.markup .dayRange)
  else .ok ()

/-- Refuses a moment that no clock shows, and an offset of a day or more. -/
def checkMoment (m : Moment) : Outcome Unit := do
  if Calendar.daySeconds ≤ (m.offset?.getD 0).natAbs then throw (.markup .malformed)
  checkDate m.date
  if 23 < m.hour then .error (.markup .hourRange)
  else if 59 < m.minute then .error (.markup .minuteRange)
  else if 59 < m.second then .error (.markup .secondRange)
  else .ok ()

/-- What a scalar in the form of a date or a moment stands for. -/
def read? (cs : List Char) : Option (Outcome Datum) :=
  match date? 2 cs, moment? cs with
  | some (date, []), _ => some (do checkDate date; return .date date)
  | _, some moment => some (do checkMoment moment; return .moment moment)
  | _, none => none

end SwapMachine.Markup.Timestamp
