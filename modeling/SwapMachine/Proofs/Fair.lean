import SwapMachine.Proofs.Delivery

/-!
# SwapMachine.Proofs.Fair — trades that do not lower the product of two balances

* `Fair x y a b`: the trade of `a` for `b` is one that does not.  It stays fair when its balances
  come from ones that were moved against the taker (`of_moved`), when more is paid (`of_pays_more`)
  and when less is given (`of_gives_less`).
* `fair_of_exactIn`, `fair_of_exactOut`: what the power curve computes at exponent one is fair.
* `Fair.back_le`: what is given can not be traded back for more than was paid.
-/

namespace SwapMachine.Curve

open FixedPoint Number

/-- The trade of `a` for `b` on balances of `x` and `y` pays something, leaves something of `y`, and
gives no more than the share of `y` that `a` has in `x + a`. -/
structure Fair (x y a b : Int) : Prop where
  pays : 0 < a
  gives : 0 ≤ b
  leaves : b < y
  covers : b * (x + a) ≤ y * a

namespace Fair

variable {x y a b : Int}

/-- A fair trade does not lower the product of the balances. -/
theorem mul_le_mul (h : Fair x y a b) : x * y ≤ (x + a) * (y - b) := by
  have hcovers := h.covers
  have hmul : (x + a) * (y - b) = x * y + y * a - b * (x + a) := by grind
  omega

theorem of_moved {p q : Int} (h : Fair (x + p) (y - q) a b) (hp : 0 ≤ p) (hq : 0 ≤ q) :
    Fair x y a b := by
  have hb := h.gives
  have ha := h.pays
  have hleaves := h.leaves
  refine ⟨ha, hb, by omega, ?_⟩
  calc b * (x + a) ≤ b * (x + p + a) := Int.mul_le_mul_of_nonneg_left (by omega) hb
    _ ≤ (y - q) * a := h.covers
    _ ≤ y * a := Int.mul_le_mul_of_nonneg_right (by omega) (by omega)

theorem of_pays_more {a' : Int} (h : Fair x y a b) (ha : a ≤ a') : Fair x y a' b := by
  have hpays := h.pays
  refine ⟨by omega, h.gives, h.leaves, ?_⟩
  have hmore : b * (a' - a) ≤ y * (a' - a) :=
    Int.mul_le_mul_of_nonneg_right (Int.le_of_lt h.leaves) (by omega)
  calc b * (x + a') = b * (x + a) + b * (a' - a) := by grind
    _ ≤ y * a + y * (a' - a) := Int.add_le_add h.covers hmore
    _ = y * a' := by grind

theorem of_gives_less {b' : Int} (h : Fair x y a b) (hx : 0 ≤ x) (hb' : 0 ≤ b') (hb : b' ≤ b) :
    Fair x y a b' := by
  have hpays := h.pays
  have hleaves := h.leaves
  refine ⟨hpays, hb', by omega, ?_⟩
  exact Int.le_trans (Int.mul_le_mul_of_nonneg_right hb (by omega)) h.covers

/-- What a fair trade has given is not traded back for more than was paid. -/
theorem back_le {c : Int} (h : Fair x y a b) (hback : Fair (y - b) (x + a) b c) :
    c ≤ a := by
  have hy : 0 < y := Int.lt_of_le_of_lt h.gives h.leaves
  have h1 := h.mul_le_mul
  have h2 := hback.mul_le_mul
  rw [Int.sub_add_cancel] at h2
  have h3 : x * y ≤ (x + a - c) * y := by
    calc x * y ≤ (x + a) * (y - b) := h1
      _ = (y - b) * (x + a) := Int.mul_comm _ _
      _ ≤ y * (x + a - c) := h2
      _ = (x + a - c) * y := Int.mul_comm _ _
  have := Int.le_of_mul_le_mul_right h3 hy
  omega

end Fair

namespace Power

variable {x y a b : Int}

theorem fair_of_exactIn (h : exactIn x y a one = .ok b) : 0 < x ∧ 0 < y ∧ Fair x y a b := by
  obtain ⟨hx, hy, ha, h⟩ := exactIn_eq_ok h
  unfold outputFor at h
  rw [if_pos rfl] at h
  obtain ⟨⟨-, -, -, hd⟩, rfl, -⟩ := mulDivDown_eq_ok_iff.1 h
  refine ⟨hx, hy, ha, ?_, ?_, floorDiv_mul_le _ hd⟩
  · exact floorDiv_nonneg (Int.mul_nonneg (Int.le_of_lt hy) (Int.le_of_lt ha)) hd
  · exact (floorDiv_lt_iff hd).2 (Int.mul_lt_mul_of_pos_left (by omega) hy)

theorem fair_of_exactOut {limits : Limits} {q : Quote} (h : exactOut x y b one limits = .ok q) :
    0 < x ∧ 0 < y ∧ Fair x y q.amountIn b := by
  obtain ⟨hpos, -, out, hout, hle⟩ := delivers_of_exactOut h
  obtain ⟨hx, hy, hfair⟩ := fair_of_exactIn hout
  exact ⟨hx, hy, hfair.of_gives_less (Int.le_of_lt hx) (Int.le_of_lt hpos) hle⟩

end Power

end SwapMachine.Curve
