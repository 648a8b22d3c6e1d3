import SwapMachine.Number.Binary64

/-!
# SwapMachine.Number.Fraction — decimal fractions as text

`read?` takes a sign, digits with at most one point among them and a power of ten behind `e`, or the
name of an infinity or of no number, and gives the nearest binary fraction.
-/

namespace SwapMachine.Number.Fraction

/-- The values of a row of ASCII digits. -/
def digitRow? (cs : List Char) : Option (List Nat) :=
  if cs.all Char.isDigit then some (cs.map fun c => c.toNat - 0x30) else none

/-- A whole number with an optional sign. -/
def integer? (cs : List Char) : Option Int :=
  let row (ds : List Char) : Option Nat :=
    if ds.isEmpty then none else (digitRow? ds).map Text.Decimal.value
  match cs with
  | '-' :: ds => (row ds).map fun n => -(n : Int)
  | '+' :: ds => (row ds).map fun n => (n : Int)
  | ds => (row ds).map fun n => (n : Int)

/-- Digits around a point, and the power of ten behind them. -/
def unsigned? (cs : List Char) : Option (Nat × Int) :=
  let body := cs.takeWhile fun c => c != 'e' && c != 'E'
  let rest := (cs.drop body.length).drop 1
  let power? : Option Int := if cs.length = body.length then some 0 else integer? rest
  let whole := body.takeWhile (· != '.')
  let fraction := (body.drop whole.length).drop 1
  match power?, digitRow? (whole ++ fraction) with
  | some power, some ds =>
    if ds.isEmpty then none else some (Text.Decimal.value ds, power - (fraction.length : Int))
  | _, _ => none

/-- The value of a text without sign. -/
def magnitude? (negative : Bool) (cs : List Char) : Option Binary64 :=
  let name := String.ofList (cs.map Char.toLower)
  if name == "inf" || name == "infinity" then some (.infinite negative)
  else if name == "nan" then some .nan
  else (unsigned? cs).map fun r => Binary64.ofDecimal negative r.1 r.2

/-- The binary fraction nearest to the number that the text spells. -/
def read? (cs : List Char) : Option Binary64 :=
  match cs with
  | '-' :: ds => magnitude? true ds
  | '+' :: ds => magnitude? false ds
  | ds => magnitude? false ds

end SwapMachine.Number.Fraction
