import SwapMachine.Number.Rounding
import SwapMachine.Text.Decimal

/-!
# SwapMachine.Calendar — dates, and times of a day on a date

A moment is a time of a day; it may tell how far its clock is ahead of universal time. Moments that
do tell are compared by when they happen, so the same instant can be written in several ways; those
that do not are compared as they are written, and the two sorts cannot be compared with each other.

* `ordinal` counts days through leap years.
* `written` shows a value with all its parts.
-/

namespace SwapMachine.Calendar

/-- A day of the calendar. -/
structure Date where
  year : Nat
  month : Nat
  day : Nat

/-- A time on a day, in microseconds at most; the offset is in seconds. -/
structure Moment where
  date : Date
  hour : Nat
  minute : Nat
  second : Nat
  micro : Nat
  offset? : Option Int

/-! ### Counting days -/

/-- Every fourth year is a leap year, but of full centuries only every fourth. -/
def isLeap (year : Nat) : Bool := year % 4 == 0 && (year % 100 != 0 || year % 400 == 0)

/-- The number of days in a month. -/
def monthLength (year month : Nat) : Nat :=
  if month == 2 then (if isLeap year then 29 else 28)
  else if month == 4 || month == 6 || month == 9 || month == 11 then 30
  else 31

/-- The days of a year before a month. -/
def daysBefore (year : Nat) : Nat → Nat
  | 0 | 1 => 0
  | month + 1 => daysBefore year month + monthLength year month

/-- How many days have begun by a date since the first of all. -/
def Date.ordinal (d : Date) : Nat :=
  let years := d.year - 1
  365 * years + years / 4 - years / 100 + years / 400 + daysBefore d.year d.month + d.day

/-- The seconds of a day. -/
def daySeconds : Nat := 86400

/-- The microseconds up to a moment, by its own clock. -/
def Moment.clock (m : Moment) : Int :=
  let seconds := daySeconds * m.date.ordinal + 3600 * m.hour + 60 * m.minute + m.second
  ((1000000 * seconds + m.micro : Nat) : Int)

/-- The order of dates. -/
def Date.compare (a b : Date) : Ordering := Ord.compare a.ordinal b.ordinal

/-- The order of moments, if both or neither tell their offset. -/
def Moment.compare? (a b : Moment) : Option Ordering :=
  match a.offset?, b.offset? with
  | none, none => some (Ord.compare a.clock b.clock)
  | some s, some t => some (Ord.compare (a.clock - 1000000 * s) (b.clock - 1000000 * t))
  | _, _ => none

/-! ### Writing -/

/-- Parts between commas. -/
def listed (parts : List String) : String := ", ".intercalate parts

/-- A natural number in digits. -/
def digits (n : Nat) : String := String.ofList (Text.Decimal.digits n)

/-- A whole number in digits. -/
def signedDigits (z : Int) : String := String.ofList (Text.Decimal.signed z)

/-- The date with its parts. -/
def Date.parts (d : Date) : List String := [d.year, d.month, d.day].map digits

/-- The date with its sort. -/
def Date.written (d : Date) : String := "datetime.date(" ++ listed d.parts ++ ")"

/-- An offset as whole days and the seconds that are left of a day; parts of zero are left out. -/
def offsetParts (offset : Int) : List String :=
  let days := Number.floorDiv offset daySeconds
  let seconds := offset - daySeconds * days
  (if days = 0 then [] else ["days=" ++ signedDigits days])
    ++ (if seconds = 0 then [] else ["seconds=" ++ signedDigits seconds])

/-- An offset with its sort. -/
def offsetWritten (offset : Int) : String :=
  if offset = 0 then "datetime.timezone.utc"
  else "datetime.timezone(datetime.timedelta(" ++ listed (offsetParts offset) ++ "))"

/-- The time with its parts; at the end, microseconds of zero and then seconds of zero are left
out. -/
def Moment.timeParts (m : Moment) : List String :=
  let parts :=
    if m.micro ≠ 0 then [m.hour, m.minute, m.second, m.micro]
    else if m.second ≠ 0 then [m.hour, m.minute, m.second]
    else [m.hour, m.minute]
  parts.map digits

/-- The moment with its sort. -/
def Moment.written (m : Moment) : String :=
  let zone :=
    match m.offset? with
    | some offset => ["tzinfo=" ++ offsetWritten offset]
    | none => []
  "datetime.datetime(" ++ listed (m.date.parts ++ m.timeParts ++ zone) ++ ")"

end SwapMachine.Calendar
