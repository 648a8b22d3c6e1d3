/-!
# SwapMachine.Text.Decimal — whole numbers in decimal digits

`digits` writes a natural number without leading zeros and `value` reads digits back.
`signed` puts a minus sign before the digits of a negative number. Texts are made only of numbers
that are not too long: `isWritable` tells which are not.
-/

namespace SwapMachine.Text.Decimal

/-- The digit for a number below ten. -/
def digit (d : Nat) : Char := Char.ofNat (0x30 + d)

/-- The decimal digits of `n`, the most significant first. -/
def digits (n : Nat) : List Char :=
  if n < 10 then [digit n] else digits (n / 10) ++ [digit (n % 10)]
termination_by n

/-- The number that a row of digit values stands for. -/
def value (ds : List Nat) : Nat := ds.foldl (fun n d => 10 * n + d) 0

/-- The digits of `z` after a minus sign if it is negative. -/
def signed : Int → List Char
  | .ofNat n => digits n
  | .negSucc n => '-' :: digits (n + 1)

/-- The most digits that a number in a text has. -/
def digitLimit : Nat := 4300

/-- The number has few enough digits to stand in a text. -/
def isWritable (z : Int) : Bool := z.natAbs < Nat.pow 10 digitLimit

end SwapMachine.Text.Decimal
