/-!
# SwapMachine.Number.Rounding — quotients by the way they round, and whole square roots

* `floorDiv` and `ceilDiv` bracket the exact quotient; `truncDiv` cuts toward zero.
* `nearestDiv` rounds to the nearest whole number, a half away from zero.
* `isqrt n` is the largest `r` with `r * r ≤ n`.
-/

namespace SwapMachine.Number

/-- The quotient rounded down, whatever the signs. -/
def floorDiv (a b : Int) : Int := a.fdiv b

/-- The quotient rounded up, whatever the signs. -/
def ceilDiv (a b : Int) : Int := -((-a).fdiv b)

/-- The quotient with its fraction dropped: symmetric about zero. -/
def truncDiv (a b : Int) : Int := a.tdiv b

/-- The quotient by a positive `b` rounded to the nearest whole number, a half away from zero. -/
def nearestDiv (a b : Int) : Int :=
  if 0 ≤ a then floorDiv (2 * a + b) (2 * b) else -floorDiv (-2 * a + b) (2 * b)

/-- The whole square root: a quarter of `n` fixes all but the last binary digit of the root. -/
def isqrt (n : Nat) : Nat :=
  if n = 0 then 0
  else
    let r := 2 * isqrt (n / 4)
    if (r + 1) * (r + 1) ≤ n then r + 1 else r
termination_by n

theorem isqrt_mul_self_le (n : Nat) : isqrt n * isqrt n ≤ n := by
  fun_induction isqrt n with
  | case1 => simp
  | case2 n h r hr => exact hr
  | case3 n h r hr ih =>
    have hq : r * r = 4 * (isqrt (n / 4) * isqrt (n / 4)) := by simp only [r]; grind
    omega

theorem lt_succ_isqrt_mul_self (n : Nat) : n < (isqrt n + 1) * (isqrt n + 1) := by
  fun_induction isqrt n with
  | case1 => simp
  | case2 n h r hr ih =>
    have hq : (r + 1 + 1) * (r + 1 + 1) = 4 * ((isqrt (n / 4) + 1) * (isqrt (n / 4) + 1)) := by
      simp only [r]; grind
    omega
  | case3 n h r hr => omega

end SwapMachine.Number
