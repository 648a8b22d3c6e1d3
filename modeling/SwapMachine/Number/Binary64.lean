import SwapMachine.Text.Decimal

/-!
# SwapMachine.Number.Binary64 — binary fractions of double width, exactly

A value is a sign, a mantissa below `2 ^ 53` and a binary exponent from −1074 to 971.

* `ofDecimal` rounds a decimal fraction to the nearest value, a tie to the even mantissa.
* `shortest?` finds the fewest decimal digits that round back to a value, and among those the
  nearest: for one digit, two digits and so on it tries the two neighbours of the value on that
  decimal grid.
* `write` lays the digits out: positionally from `1e-4` up to below `1e16`, else with an exponent.
-/

namespace SwapMachine.Number

/-- A value of the double-width binary format: `± mantissa · 2 ^ exponent`, an infinity, or none. -/
inductive Binary64 where
  | nan
  | infinite (negative : Bool)
  | finite (negative : Bool) (mantissa : Nat) (exponent : Int)
  deriving DecidableEq

namespace Binary64

/-- A positive fraction `num / den` times a power of a base, as a fraction again. -/
def scaled (base num den : Nat) (power : Int) : Nat × Nat :=
  (num * Nat.pow base power.toNat, den * Nat.pow base (-power).toNat)

/-- The quotient rounded to the nearest natural number, a tie to the even one. -/
def halfEven (num den : Nat) : Nat :=
  let q := num / den
  let twice := 2 * (num % den)
  if twice < den || (twice == den && q % 2 == 0) then q else q + 1

/-- The value nearest to `num / den`. -/
def ofRatio (negative : Bool) (num den : Nat) : Binary64 :=
  if num = 0 then .finite negative 0 (-1074)
  else
    let guess := (num.log2 : Int) - (den.log2 : Int) - 52
    let low := scaled 2 num den (-guess)
    -- The guess is one too high when the scaled fraction is below `2 ^ 52`.
    let exponent := max (-1074) (if low.1 < low.2 * Nat.pow 2 52 then guess - 1 else guess)
    let exact := scaled 2 num den (-exponent)
    let m := halfEven exact.1 exact.2
    if m = Nat.pow 2 53 then
      if exponent + 1 ≤ 971 then .finite negative (Nat.pow 2 52) (exponent + 1)
      else .infinite negative
    else if exponent ≤ 971 then .finite negative m exponent
    else .infinite negative

/-- The value nearest to `significand · 10 ^ power`. -/
def ofDecimal (negative : Bool) (significand : Nat) (power : Int) : Binary64 :=
  let size := ((Text.Decimal.digits significand).length : Int) + power
  if significand = 0 || size < -400 then .finite negative 0 (-1074)
  else if 400 < size then .infinite negative
  else
    let exact := scaled 10 significand 1 power
    ofRatio negative exact.1 exact.2

/-- A natural number with a sign. -/
def signed (negative : Bool) (n : Nat) : Int := if negative then -(n : Int) else n

/-- The whole number that a finite value stands for, if it is one. -/
def toInt? : Binary64 → Option Int
  | .finite negative m e =>
    let exact := scaled 2 m 1 e
    if exact.1 % exact.2 = 0 then some (signed negative (exact.1 / exact.2)) else none
  | _ => none

/-- The whole part of a finite value: its fraction is dropped. -/
def truncate? : Binary64 → Option Int
  | .finite negative m e =>
    let exact := scaled 2 m 1 e
    some (signed negative (exact.1 / exact.2))
  | _ => none

/-- The fraction `num / den` rounds to the value `m · 2 ^ e`: it is within half a step above and
below, the ends included when the mantissa is even. The step below a power of two is half as wide.
-/
def roundsTo (m : Nat) (e : Int) (num den : Nat) : Bool :=
  let narrow := m == Nat.pow 2 52 && decide (-1074 < e)
  let lower := scaled 2 (if narrow then 4 * m - 1 else 4 * m - 2) 4 e
  let upper := scaled 2 (4 * m + 2) 4 e
  if m % 2 == 0 then lower.1 * den ≤ num * lower.2 && num * upper.2 ≤ upper.1 * den
  else lower.1 * den < num * lower.2 && num * upper.2 < upper.1 * den

/-- Of the two neighbours of `m · 2 ^ e` among the multiples of `10 ^ power`, the nearest that
rounds to it; a tie goes to the even multiple. -/
def onGrid? (m : Nat) (e power : Int) : Option Nat :=
  let exact := scaled 2 m 1 e
  let grid := scaled 10 exact.1 exact.2 (-power)
  let below := grid.1 / grid.2
  let fits (d : Nat) : Bool :=
    let candidate := scaled 10 d 1 power
    d != 0 && roundsTo m e candidate.1 candidate.2
  let nearest := halfEven grid.1 grid.2
  if fits nearest then some nearest
  else if fits below then some below
  else if fits (below + 1) then some (below + 1)
  else none

/-- The decimal exponent of the leading digit of `num / den`, searched from a power not below it. -/
def leading (num den : Nat) : Nat → Int → Int
  | 0, power => power
  | fuel + 1, power =>
    let unit := scaled 10 1 1 power
    if unit.1 * den ≤ num * unit.2 then power else leading num den fuel (power - 1)

/-- The first grid, from `width` more digits at most, on which a neighbour rounds back. -/
def search (m : Nat) (e top : Int) : Nat → Int → Option (Nat × Int)
  | 0, _ => none
  | fuel + 1, count =>
    let power := top - count + 1
    match onGrid? m e power with
    | some d => some (d, power)
    | none => search m e top fuel (count + 1)

/-- The fewest digits, with the power of ten of the last one, that round to `m · 2 ^ e`. -/
def shortest? (m : Nat) (e : Int) : Option (Nat × Int) :=
  let exact := scaled 2 m 1 e
  search m e (leading exact.1 exact.2 640 309) 17 1

/-- Digits and the decimal exponent of the first of them, as text. A whole number keeps a zero
behind the point; an exponent has a sign and two digits at least. -/
def layOut (ds : List Char) (top : Int) : List Char :=
  if -4 ≤ top && top < 16 then
    if top < 0 then '0' :: '.' :: (List.replicate (-top - 1).toNat '0' ++ ds)
    else
      let whole := ds.take (top.toNat + 1)
      let fraction := ds.drop (top.toNat + 1)
      whole ++ List.replicate (top.toNat + 1 - ds.length) '0' ++ '.' ::
        (if fraction.isEmpty then ['0'] else fraction)
  else
    let power := Text.Decimal.digits top.natAbs
    ds.take 1 ++ (if ds.length ≤ 1 then [] else '.' :: ds.drop 1) ++
      'e' :: (if top < 0 then '-' else '+') :: (List.replicate (2 - power.length) '0' ++ power)

/-- The digits without the zeros at their end; at least one digit stays. -/
def trimZeros (ds : List Char) : List Char :=
  match (ds.reverse.dropWhile (· == '0')).reverse with
  | [] => ['0']
  | kept => kept

/-- The value as text. -/
def write : Binary64 → List Char
  | .nan => "nan".toList
  | .infinite false => "inf".toList
  | .infinite true => "-inf".toList
  | .finite negative m e =>
    let body :=
      if m = 0 then "0.0".toList
      else
        match shortest? m e with
        | some (d, power) =>
          let ds := Text.Decimal.digits d
          layOut (trimZeros ds) (power + ds.length - 1)
        | none => []
    if negative then '-' :: body else body

end Binary64

end SwapMachine.Number
