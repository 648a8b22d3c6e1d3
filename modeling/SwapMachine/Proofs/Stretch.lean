import Mathlib.Tactic.Ring
import SwapMachine.Proofs.Inverse

/-!
# SwapMachine.Proofs.Stretch — stretches of a density curve in a row

What a stretch costs is an integral of the price, so stretches in a row are together worth what the
whole is.  They are rounded on their own, against the taker.

* `integral_add`, `integral_lt_integral_iff`: integrals add up, and a later stretch is worth more
  unless the price is level.
* `cost_of_parts`: hence two stretches cost as much as the whole, or one more.
* `charge_le_add`: what is charged for stretches is no less than for one that is worth no more.
* `soldAt_sub`: where the position is after an output.  What comes from above the capacity does not
  move it.
* `parts_no_cheaper`: hence an output in two parts is not cheaper than at once, unless some of it
  comes from above the capacity.
-/

namespace SwapMachine.Curve.Density

open FixedPoint Number

variable {c : Density} {balance s s' s'' m m' m'' a b p q w : Int}

/-! ### Powers over a step -/

/-- A power grows by no less over a later step. -/
theorem pow_sub_le_pow_sub (hs : 0 ≤ s) (h : s ≤ s') (hm : 0 ≤ m) (n : Nat) :
    (s + m) ^ n - s ^ n ≤ (s' + m) ^ n - s' ^ n := by
  induction n with
  | zero => simp
  | succ n ih =>
    have hstep (t : Int) : (t + m) ^ (n + 1) - t ^ (n + 1) =
        (t + m) * ((t + m) ^ n - t ^ n) + m * t ^ n := by ring
    have hgrows : 0 ≤ (s + m) ^ n - s ^ n := sub_nonneg.2 (pow_le_pow_left₀ hs (by omega) n)
    rw [hstep, hstep]
    refine Int.add_le_add (mul_le_mul (by omega) ih hgrows (by omega)) ?_
    exact Int.mul_le_mul_of_nonneg_left (pow_le_pow_left₀ hs h n) hm

/-- From the square on it grows by more. -/
theorem pow_sub_lt_pow_sub (hs : 0 ≤ s) (h : s < s') (hm : 0 < m) (n : Nat) :
    (s + m) ^ (n + 2) - s ^ (n + 2) < (s' + m) ^ (n + 2) - s' ^ (n + 2) := by
  have hstep (t : Int) : (t + m) ^ (n + 2) - t ^ (n + 2) =
      (t + m) * ((t + m) ^ (n + 1) - t ^ (n + 1)) + m * t ^ (n + 1) := by ring
  have hgrows : 0 ≤ (s + m) ^ (n + 1) - s ^ (n + 1) :=
    sub_nonneg.2 (pow_le_pow_left₀ hs (by omega) _)
  have hle := pow_sub_le_pow_sub hs (Int.le_of_lt h) (Int.le_of_lt hm) (n + 1)
  have hpow : s ^ (n + 1) < s' ^ (n + 1) := pow_lt_pow_left₀ h hs (by omega)
  rw [hstep, hstep]
  refine Int.add_lt_add_of_le_of_lt ?_ (Int.mul_lt_mul_of_pos_left hpow hm)
  exact mul_le_mul (by omega) hle hgrows (by omega)

/-! ### Integrals of the price -/

/-- Stretches in a row have the integral of the whole. -/
theorem integral_add (c : Density) (s m m' : Int) :
    c.integral s (m + m') = c.integral s m + c.integral (s + m) m' := by
  unfold integral
  rw [← Int.add_assoc s m m']
  ring

/-- The price is the same at every position. -/
def IsLevel (c : Density) : Prop := c.strength = 0 ∨ c.shape = .constant

instance (c : Density) : Decidable c.IsLevel := inferInstanceAs (Decidable (_ ∨ _))

theorem integral_le_integral_of_later (hs : 0 ≤ s) (h : s ≤ s') (hm : 0 ≤ m) :
    c.integral s m ≤ c.integral s' m := by
  have hgrows := pow_sub_le_pow_sub hs h hm (c.shape.degree + 1)
  refine Int.mul_le_mul_of_nonneg_left ?_ (Int.le_of_lt c.basePrice_pos)
  exact Int.add_le_add_left (Int.mul_le_mul_of_nonneg_left hgrows c.strength_nonneg) _

theorem IsLevel.integral_eq (h : c.IsLevel) (s s' m : Int) :
    c.integral s m = c.integral s' m := by
  unfold integral
  rcases h with h | h
  · rw [h, Int.zero_mul, Int.zero_mul]
  · have hline (t : Int) :
        Int.pow (t + m) (c.shape.degree + 1) - Int.pow t (c.shape.degree + 1) = m := by
      rw [h]
      show (t + m) ^ 1 - t ^ 1 = m
      ring
    rw [hline, hline]

/-- A later stretch is worth more, unless the price is level. -/
theorem integral_lt_integral_iff (hs : 0 ≤ s) (h : s ≤ s') (hm : 0 < m) :
    c.integral s m < c.integral s' m ↔ s < s' ∧ ¬ c.IsLevel := by
  constructor
  · intro hlt
    refine ⟨lt_of_le_of_ne h fun heq => ?_, fun hlevel => ?_⟩
    · exact absurd hlt (heq ▸ lt_irrefl _)
    · exact absurd hlt (hlevel.integral_eq s s' m ▸ lt_irrefl _)
  · rintro ⟨hlt, hlevel⟩
    obtain ⟨hstrength, hshape⟩ := not_or.1 hlevel
    have hrises : 0 < c.strength := lt_of_le_of_ne c.strength_nonneg (Ne.symm hstrength)
    obtain ⟨n, hn⟩ : ∃ n, c.shape.degree = n + 1 := by
      cases hc : c.shape with
      | constant => exact absurd hc hshape
      | linear => exact ⟨0, rfl⟩
      | quadratic => exact ⟨1, rfl⟩
      | cubic => exact ⟨2, rfl⟩
    have hgrows : Int.pow (s + m) (c.shape.degree + 1) - Int.pow s (c.shape.degree + 1) <
        Int.pow (s' + m) (c.shape.degree + 1) - Int.pow s' (c.shape.degree + 1) := by
      rw [hn]
      exact pow_sub_lt_pow_sub hs hlt hm n
    refine Int.mul_lt_mul_of_pos_left ?_ c.basePrice_pos
    exact Int.add_lt_add_left (Int.mul_lt_mul_of_pos_left hgrows hrises) _

/-! ### Costs -/

/-- **Costs of stretches**: two in a row cost as much as the whole, or one more; a longer stretch
and a later one cost no less. -/
theorem cost_of_parts (c : Density) (hs : 0 ≤ s) (ha : 0 ≤ a) (hb : 0 ≤ b) :
    ∃ first rest whole, c.cost s a = .ok first ∧ c.cost (s + a) b = .ok rest ∧
      c.cost s (a + b) = .ok whole ∧
      (first + rest - whole = 0 ∨ first + rest - whole = 1) ∧
      (∀ a', a ≤ a' → ∃ longer, c.cost s a' = .ok longer ∧ first ≤ longer) ∧
      ∀ s', s ≤ s' → ∃ later, c.cost s' a = .ok later ∧ first ≤ later := by
  have hunit : 0 < one * one * c.unit := Int.mul_pos (by decide) c.unit_pos
  refine ⟨_, _, _, cost_eq ha, cost_eq hb, cost_eq (Int.add_nonneg ha hb), ?_, fun a' h => ?_,
    fun s' h => ?_⟩
  · have hle := ceilDiv_add_le (c.integral s a) (c.integral (s + a) b) hunit
    have hge := ceilDiv_add_ceilDiv_le (c.integral s a) (c.integral (s + a) b) hunit
    rw [integral_add]
    omega
  · have hmore := integral_le_integral (c := c) hs ha h
    exact ⟨_, cost_eq (Int.le_trans ha h), ceilDiv_le_ceilDiv hunit hmore⟩
  · have hmore := integral_le_integral_of_later (c := c) hs h ha
    exact ⟨_, cost_eq ha, ceilDiv_le_ceilDiv hunit hmore⟩

/-- A curve whose price rises from one to two along a thousand units; a hundredth is added. -/
def rising : Density :=
  ⟨1000, one, one, .linear, 100, by decide, by decide, by decide, by decide, by decide⟩

theorem cost_of_parts_rising :
    (rising.cost 1 2 = .ok 3 ∧ rising.cost (1 + 2) 3 = .ok 4 ∧ rising.cost 1 (2 + 3) = .ok 6 ∧
      ((3 : Int) + 4 - 6 = 0 ∨ (3 : Int) + 4 - 6 = 1)) ∧
    (rising.cost 1 4 = .ok 5 ∧ (3 : Int) ≤ 5) ∧ rising.cost 500 2 = .ok 4 ∧ (3 : Int) ≤ 4 := by
  have hfirst : rising.cost 1 2 = .ok 3 := by rfl
  have hrest : rising.cost (1 + 2) 3 = .ok 4 := by rfl
  have hwhole : rising.cost 1 (2 + 3) = .ok 6 := by rfl
  have hlonger : rising.cost 1 4 = .ok 5 := by rfl
  have hlater : rising.cost 500 2 = .ok 4 := by rfl
  obtain ⟨first, rest, whole, h1, h2, h3, hsplit, hlength, hposition⟩ :=
    cost_of_parts rising (s := 1) (a := 2) (b := 3) (by decide) (by decide) (by decide)
  obtain ⟨longer, h4, hle⟩ := hlength 4 (by decide)
  obtain ⟨later, h5, hle'⟩ := hposition 500 (by decide)
  cases hfirst.symm.trans h1
  cases hrest.symm.trans h2
  cases hwhole.symm.trans h3
  cases hlonger.symm.trans h4
  cases hlater.symm.trans h5
  exact ⟨⟨hfirst, hrest, hwhole, hsplit⟩, ⟨hlonger, hle⟩, hlater, hle'⟩

/-! ### Outputs in two parts -/

/-- What is charged for two stretches is no less than for one that is worth no more than they are
together. -/
theorem charge_le_add (hm : 0 ≤ m) (hm' : 0 ≤ m') (hm'' : 0 ≤ m'')
    (hp : c.charge s m = .ok p) (hq : c.charge s' m' = .ok q) (hw : c.charge s'' m'' = .ok w)
    (h : c.integral s'' m'' ≤ c.integral s m + c.integral s' m') : w ≤ p + q := by
  have hunit : 0 < one * one * c.unit := Int.mul_pos (by decide) c.unit_pos
  obtain ⟨⟨-, hfactor, -⟩, rfl, -⟩ := mulDivUp_eq_ok_iff.1 ((charge_eq_ok_iff hm).1 hp)
  obtain ⟨-, rfl, -⟩ := mulDivUp_eq_ok_iff.1 ((charge_eq_ok_iff hm').1 hq)
  obtain ⟨-, rfl, -⟩ := mulDivUp_eq_ok_iff.1 ((charge_eq_ok_iff hm'').1 hw)
  have hcost : ceilDiv (c.integral s'' m'') (one * one * c.unit) ≤
      ceilDiv (c.integral s m) (one * one * c.unit) +
        ceilDiv (c.integral s' m') (one * one * c.unit) :=
    Int.le_trans (ceilDiv_le_ceilDiv hunit h) (ceilDiv_add_le _ _ hunit)
  have hspread := Int.mul_le_mul_of_nonneg_right hcost hfactor.1
  rw [Int.add_mul] at hspread
  exact Int.le_trans (ceilDiv_le_ceilDiv bpsWhole_pos hspread) (ceilDiv_add_le _ _ bpsWhole_pos)

/-- The units of an output that come from above the capacity. -/
def fromAbove (c : Density) (balance amount : Int) : Int :=
  min amount (max 0 (balance - c.capacity))

/-- An output moves the position by as much as does not come from above the capacity. -/
theorem soldAt_sub (c : Density) (balance : Int) (ha : 0 ≤ a) :
    c.soldAt (balance - a) = c.soldAt balance + (a - c.fromAbove balance a) := by
  unfold soldAt fromAbove
  omega

theorem fromAbove_mem (c : Density) (balance : Int) (ha : 0 ≤ a) :
    0 ≤ c.fromAbove balance a ∧ c.fromAbove balance a ≤ a := by
  unfold fromAbove
  omega

theorem fromAbove_pos_iff (ha : 0 < a) : 0 < c.fromAbove balance a ↔ c.capacity < balance := by
  unfold fromAbove
  omega

/-- Two parts of an output are worth less than the whole exactly if the second one is priced at a
position that the first has not moved to, and the price is not level. -/
theorem integral_parts_lt_iff (ha : 0 < a) (hb : 0 < b) :
    c.integral (c.soldAt balance) a + c.integral (c.soldAt (balance - a)) b <
        c.integral (c.soldAt balance) (a + b) ↔ c.capacity < balance ∧ ¬ c.IsLevel := by
  have hsold : 0 ≤ c.soldAt (balance - a) := Int.le_max_left 0 _
  have hmem := c.fromAbove_mem balance (Int.le_of_lt ha)
  have hmoves := c.soldAt_sub balance (Int.le_of_lt ha)
  have hbehind : c.soldAt (balance - a) < c.soldAt balance + a ↔ c.capacity < balance := by
    rw [← fromAbove_pos_iff ha]
    omega
  rw [integral_add, Int.add_lt_add_iff_left, integral_lt_integral_iff hsold (by omega) hb, hbehind]

/-- Where an output has a price, so have its parts. -/
theorem exists_exactOut_parts (ha : 0 < a) (hb : 0 < b)
    (hw : c.exactOut balance (a + b) = .ok w) :
    (∃ p, c.exactOut balance a = .ok p) ∧ ∃ q, c.exactOut (balance - a) b = .ok q := by
  obtain ⟨-, hbalance, hle, hw⟩ := exactOut_eq_ok_iff.1 hw
  have hsold : 0 ≤ c.soldAt balance := Int.le_max_left 0 _
  have hsold' : 0 ≤ c.soldAt (balance - a) := Int.le_max_left 0 _
  have hmem := c.fromAbove_mem balance (Int.le_of_lt ha)
  have hmoves := c.soldAt_sub balance (Int.le_of_lt ha)
  constructor
  · obtain ⟨p, hp, -⟩ := exists_charge_le hsold (Int.le_of_lt ha) (by omega) hw
    exact ⟨p, exactOut_eq_ok_iff.2 ⟨ha, hbalance, by omega, hp⟩⟩
  · have hworth :
        c.integral (c.soldAt (balance - a)) b ≤ c.integral (c.soldAt balance) (a + b) := by
      have hfirst := integral_nonneg (c := c) hsold (Int.le_of_lt ha)
      have hlater : c.integral (c.soldAt (balance - a)) b ≤ c.integral (c.soldAt balance + a) b :=
        integral_le_integral_of_later hsold' (by omega) (Int.le_of_lt hb)
      rw [integral_add]
      omega
    obtain ⟨q, hq, -⟩ :=
      exists_charge_of_integral_le hsold' (Int.le_of_lt hb) (by omega) hworth hw
    exact ⟨q, exactOut_eq_ok_iff.2 ⟨hb, by omega, by omega, hq⟩⟩

/-- Two parts are not cheaper than the whole where they are not worth less. -/
theorem le_add_of_moves (hp : c.exactOut balance a = .ok p)
    (hq : c.exactOut (balance - a) b = .ok q) (hw : c.exactOut balance (a + b) = .ok w)
    (hmoves : balance ≤ c.capacity ∨ c.IsLevel) : w ≤ p + q := by
  obtain ⟨ha, -, -, hp⟩ := exactOut_eq_ok_iff.1 hp
  obtain ⟨hb, -, -, hq⟩ := exactOut_eq_ok_iff.1 hq
  obtain ⟨hab, -, -, hw⟩ := exactOut_eq_ok_iff.1 hw
  refine charge_le_add (Int.le_of_lt ha) (Int.le_of_lt hb) (Int.le_of_lt hab) hp hq hw ?_
  rw [← Int.not_lt, integral_parts_lt_iff ha hb]
  rintro ⟨habove, hrises⟩
  exact hmoves.elim (Int.not_le.2 habove) hrises

/-- Two parts are not cheaper than the whole without what comes from above the capacity: the second
one begins where that much less of the first ends. -/
theorem exists_exactOut_le_add (hp : c.exactOut balance a = .ok p)
    (hq : c.exactOut (balance - a) b = .ok q) (hw : c.exactOut balance (a + b) = .ok w) :
    ∃ less, c.exactOut balance (a - c.fromAbove balance a + b) = .ok less ∧ less ≤ p + q := by
  obtain ⟨ha, hbalance, -, hp⟩ := exactOut_eq_ok_iff.1 hp
  obtain ⟨hb, -, -, hq⟩ := exactOut_eq_ok_iff.1 hq
  obtain ⟨-, -, hle, hw⟩ := exactOut_eq_ok_iff.1 hw
  have hsold : 0 ≤ c.soldAt balance := Int.le_max_left 0 _
  have hmem := c.fromAbove_mem balance (Int.le_of_lt ha)
  have hpos : 0 < a - c.fromAbove balance a + b := by omega
  obtain ⟨less, hless, -⟩ := exists_charge_le hsold (Int.le_of_lt hpos) (by omega) hw
  refine ⟨less, exactOut_eq_ok_iff.2 ⟨hpos, hbalance, by omega, hless⟩, ?_⟩
  refine charge_le_add (Int.le_of_lt ha) (Int.le_of_lt hb) (Int.le_of_lt hpos) hp hq hless ?_
  rw [integral_add, ← c.soldAt_sub balance (Int.le_of_lt ha)]
  exact Int.add_le_add_right (integral_le_integral hsold (by omega) (by omega)) _

/-- **Outputs in two parts**: where an output has a price, so have its parts.  Together they are not
cheaper, if nothing comes from above the capacity or the price is level; otherwise they are worth
less.  In any case they are not cheaper than the output without what comes from above. -/
theorem parts_no_cheaper (ha : 0 < a) (hb : 0 < b) (hw : c.exactOut balance (a + b) = .ok w) :
    ∃ p q, c.exactOut balance a = .ok p ∧ c.exactOut (balance - a) b = .ok q ∧
      (balance ≤ c.capacity ∨ c.IsLevel → w ≤ p + q) ∧
      (c.integral (c.soldAt balance) a + c.integral (c.soldAt (balance - a)) b <
        c.integral (c.soldAt balance) (a + b) ↔ c.capacity < balance ∧ ¬ c.IsLevel) ∧
      ∃ less, c.exactOut balance (a - c.fromAbove balance a + b) = .ok less ∧ less ≤ p + q := by
  obtain ⟨⟨p, hp⟩, q, hq⟩ := exists_exactOut_parts ha hb hw
  exact ⟨p, q, hp, hq, le_add_of_moves hp hq hw, integral_parts_lt_iff ha hb,
    exists_exactOut_le_add hp hq hw⟩

theorem parts_no_cheaper_rising :
    rising.exactOut 1000 (1 + 1) = .ok 4 ∧ rising.exactOut 1000 1 = .ok 3 ∧
      rising.exactOut (1000 - 1) 1 = .ok 3 ∧ (4 : Int) ≤ 3 + 3 := by
  have hwhole : rising.exactOut 1000 (1 + 1) = .ok 4 := by rfl
  have hfirst : rising.exactOut 1000 1 = .ok 3 := by rfl
  have hrest : rising.exactOut (1000 - 1) 1 = .ok 3 := by rfl
  obtain ⟨p, q, hp, hq, hle, -⟩ := parts_no_cheaper (by decide) (by decide) hwhole
  cases hfirst.symm.trans hp
  cases hrest.symm.trans hq
  exact ⟨hwhole, hfirst, hrest, hle (Or.inl (by decide))⟩

/-- From a balance of twice the capacity, both halves of the capacity are sold at the start of the
curve. -/
theorem parts_cheaper_aboveCapacity :
    rising.available 2000 = .ok (500 + 500) ∧ rising.exactOut 2000 500 = .ok 632 ∧
      rising.exactOut (2000 - 500) 500 = .ok 632 ∧ rising.exactOut 2000 (500 + 500) = .ok 1515 ∧
      ¬ (1515 : Int) ≤ 632 + 632 := by
  refine ⟨by rfl, by rfl, by rfl, by rfl, by decide⟩

end SwapMachine.Curve.Density
