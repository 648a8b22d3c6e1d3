import SwapMachine.Proofs.Commit
import SwapMachine.Proofs.Frame
import SwapMachine.Proofs.Inverse

/-!
# SwapMachine.Proofs.Sound — nothing that a walk works with is negative

Balances, amounts and the scale start out as whole numbers that are not negative.  No effect of an
instruction with valid parameters and no work done later changes that, whatever the program is.

* `Snapshot.IsSound`, `Sheet.IsSound`: nothing that is stored or on the sheet is negative.
* `Acted.isSound`, `Settled.isSound`: what one instruction preserves, in its two halves.
* `isSound_of_run`: what a walk preserves.
-/

namespace SwapMachine

/-! ### Stored state -/

/-- No balance, no fading amount and no scale that is stored is negative. -/
structure Snapshot.IsSound (s : Snapshot) : Prop where
  balances : ∀ token x, s.balances.get? token = some x → 0 ≤ x
  fades : ∀ key fade, s.fades.get? key = some fade → 0 ≤ fade.base
  scale : ∀ x, s.scale = some x → 0 ≤ x

theorem Snapshot.isSound_empty : Snapshot.empty.IsSound := ⟨nofun, nofun, nofun⟩

namespace Overlay

/-- No balance and no scale that is stored or written is negative. -/
structure IsSound (o : Overlay) : Prop where
  balances : ∀ token x, o.balance? token = some x → 0 ≤ x
  scale : ∀ x, o.scale? = some x → 0 ≤ x

variable {o o' : Overlay}

theorem isSound_start {s : Snapshot} (h : s.IsSound) (order : String) : (start order s).IsSound :=
  ⟨h.balances, h.scale⟩

theorem IsSound.result (h : o.IsSound) : o.result.IsSound := by
  refine ⟨fun token x hx => ?_, fun _ fade _ => fade.base_nonneg, h.scale⟩
  rw [get?_result] at hx
  exact h.balances token x hx

theorem IsSound.setBalance {token : String} {amount : Int} (h : o.IsSound)
    (hset : o.setBalance token amount = .ok o') : o'.IsSound := by
  obtain ⟨hnonneg, -, -, hbalance⟩ := setBalance_eq_ok hset
  unfold Overlay.setBalance at hset
  rw [if_neg (Int.not_lt.2 hnonneg)] at hset
  refine ⟨fun other x hx => ?_, ?_⟩
  · rw [hbalance] at hx
    split at hx
    · cases hx
      exact hnonneg
    · exact h.balances other x hx
  · cases hset
    exact h.scale

theorem IsSound.setFade (h : o.IsSound) (token : String) (side : Side) (fade : Fade) :
    (o.setFade token side fade).IsSound :=
  ⟨h.balances, h.scale⟩

theorem IsSound.setScale {scale : Int} (h : o.IsSound) (hset : o.setScale scale = .ok o') :
    o'.IsSound := by
  unfold Overlay.setScale at hset
  split at hset
  · cases hset
  · cases hset
    refine ⟨h.balances, fun x hx => ?_⟩
    cases hx
    omega

theorem IsSound.balance {token : String} {x : Int} (h : o.IsSound) (hx : o.balance token = .ok x) :
    0 ≤ x :=
  h.balances token x (balance_eq_ok_iff.1 hx)

theorem IsSound.initialise {entries : Entries} (h : o.IsSound)
    (hi : Walk.Effect.initialise entries o = .ok o') : o'.IsSound := by
  induction entries generalizing o with
  | nil => cases hi; exact h
  | cons e entries ih =>
    rw [Walk.Effect.initialise] at hi
    split at hi
    · exact ih h hi
    · obtain ⟨o₁, ho₁, hi⟩ := Outcome.bind_eq_ok.1 hi
      exact ih (h.setBalance ho₁) hi

end Overlay

theorem Store.isSound_publish {s : Store} {o : Overlay} (hs : ∀ order, (s.snapshot order).IsSound)
    (ho : o.IsSound) (order : String) : ((s.publish o).snapshot order).IsSound := by
  cases hd : o.isDirty with
  | false =>
    rw [publish_of_clean hd]
    exact hs order
  | true =>
    rw [publish_of_dirty hd, snapshot_insert]
    split
    · exact ho.result
    · exact hs order

/-- A virtual balance only adds to the real one. -/
theorem le_effectiveBalance {balance delta liquidity x : Int} {scale : Option Int}
    (hd : 0 ≤ delta) (hl : 0 < liquidity) (hs : ∀ s, scale = some s → 0 ≤ s)
    (h : effectiveBalance balance delta scale liquidity = .ok x) : balance ≤ x := by
  cases scale with
  | none =>
    cases h
    omega
  | some s =>
    obtain ⟨q, hq, h⟩ := Outcome.bind_eq_ok.1 h
    rw [FixedPoint.divideDown, if_neg (Int.ne_of_gt hl)] at hq
    cases hq
    cases h
    have := Number.floorDiv_nonneg (Int.mul_nonneg hd (hs s rfl)) hl
    omega

theorem effectiveBalance_nonneg {balance delta liquidity x : Int} {scale : Option Int}
    (hb : 0 ≤ balance) (hd : 0 ≤ delta) (hl : 0 < liquidity) (hs : ∀ s, scale = some s → 0 ≤ s)
    (h : effectiveBalance balance delta scale liquidity = .ok x) : 0 ≤ x :=
  Int.le_trans hb (le_effectiveBalance hd hl hs h)

/-! ### Amounts -/

namespace Curve

open FixedPoint

variable {balanceIn balanceOut amount out : Int}

theorem Power.exactIn_nonneg {alpha : Int}
    (h : exactIn balanceIn balanceOut amount alpha = .ok out) : 0 ≤ out := by
  obtain ⟨-, -, -, h⟩ := exactIn_eq_ok h
  unfold outputFor at h
  split at h
  · exact mulDivDown_nonneg h
  · obtain ⟨_, -, h⟩ := Outcome.bind_eq_ok.1 h
    obtain ⟨_, -, h⟩ := Outcome.bind_eq_ok.1 h
    exact mulDivDown_nonneg h

theorem Power.exactOut_pos {alpha : Int} {limits : Limits} {q : Quote}
    (h : exactOut balanceIn balanceOut amount alpha limits = .ok q) : 0 < q.amountIn := by
  obtain ⟨-, -, _, hout, -⟩ := delivers_of_exactOut h
  exact (exactIn_eq_ok hout).2.2.1

theorem Peg.exactIn_nonneg {rate : Int} (h : exactIn balanceOut amount rate = .ok out) :
    0 ≤ out := by
  obtain ⟨_, -, h⟩ := Outcome.bind_eq_ok.1 h
  obtain ⟨_, -, h⟩ := Outcome.bind_eq_ok.1 h
  obtain ⟨_, hout, h⟩ := Outcome.bind_eq_ok.1 h
  obtain ⟨_, -, h⟩ := Outcome.bind_eq_ok.1 h
  cases h
  exact mulDivDown_nonneg hout

theorem Peg.exactOut_nonneg {rate : Int} (h : exactOut balanceOut amount rate = .ok out) :
    0 ≤ out := by
  obtain ⟨_, -, h⟩ := Outcome.bind_eq_ok.1 h
  obtain ⟨_, -, h⟩ := Outcome.bind_eq_ok.1 h
  obtain ⟨_, -, h⟩ := Outcome.bind_eq_ok.1 h
  exact mulDivUp_nonneg h

namespace Density

variable {c : Density}

theorem exactIn_nonneg (h : c.exactIn balanceOut amount = .ok out) : 0 ≤ out := by
  obtain ⟨_, -, h⟩ := Outcome.bind_eq_ok.1 h
  obtain ⟨_, -, h⟩ := Outcome.bind_eq_ok.1 h
  exact (bisect_eq_ok h).1

theorem charge_nonneg {sold : Int} (h : c.charge sold amount = .ok out) : 0 ≤ out := by
  obtain ⟨_, -, h⟩ := Outcome.bind_eq_ok.1 h
  obtain ⟨_, -, h⟩ := Outcome.bind_eq_ok.1 h
  split at h
  · cases h
  · exact mulDivUp_nonneg h

theorem exactOut_nonneg (h : c.exactOut balanceOut amount = .ok out) : 0 ≤ out := by
  obtain ⟨-, -, -, hcharge⟩ := exactOut_eq_ok_iff.1 h
  exact charge_nonneg hcharge

end Density

end Curve

namespace Walk

open Curve FixedPoint

variable {t : Terms} {pc : Nat} {i : Instruction} {s v u : Sheet} {e : Effect} {f : Figures}
  {amount : Int}

theorem outputOf_nonneg (h : outputOf f i = some (.ok amount)) : 0 ≤ amount := by
  cases i with
  | constantProduct => exact Power.exactIn_nonneg (Option.some.inj h)
  | pegged => exact Peg.exactIn_nonneg (Option.some.inj h)
  | density => exact Density.exactIn_nonneg (Option.some.inj h)
  | _ => cases h

theorem inputOf_nonneg {limits : Power.Limits} (h : inputOf limits f i = some (.ok amount)) :
    0 ≤ amount := by
  cases i with
  | constantProduct =>
    obtain ⟨q, hq, h⟩ := Outcome.bind_eq_ok.1 (Option.some.inj h)
    cases h
    exact Int.le_of_lt (Power.exactOut_pos hq)
  | pegged => exact Peg.exactOut_nonneg (Option.some.inj h)
  | density => exact Density.exactOut_nonneg (Option.some.inj h)
  | _ => cases h

theorem virtualBalance_nonneg {c : Concentration} {token : String} {delta : Int}
    (h : Effect.virtualBalance c token = .ok delta) : 0 ≤ delta := by
  unfold Effect.virtualBalance at h
  split at h
  · cases h
    omega
  · split at h
    · cases h
      omega
    · cases h

theorem listed_nonneg {entries : Entries} {token : String} {x : Int}
    (h : Effect.listed entries token = .ok x) : 0 ≤ x := by
  unfold Effect.listed at h
  split at h
  · cases h
    omega
  · cases h

/-! ### Sheets -/

/-- Nothing that a trade is computed from is negative. -/
structure Figures.IsSound (f : Figures) : Prop where
  balanceIn : 0 ≤ f.balanceIn
  balanceOut : 0 ≤ f.balanceOut
  amountIn : 0 ≤ f.amountIn
  amountOut : 0 ≤ f.amountOut

/-- Nothing on the sheet is negative. -/
structure Sheet.IsSound (s : Sheet) : Prop where
  figures : s.figures.IsSound
  overlay : s.overlay.IsSound

/-- The work can be done without anything becoming negative. -/
def Pending.IsSound : Pending → Prop
  | .fade period => 0 < period
  | .scale realIn realOut virtualIn _ => 0 ≤ realIn ∧ 0 ≤ realOut ∧ 0 ≤ virtualIn
  | .restoreIn gross => 0 ≤ gross
  | .restoreOut net => 0 ≤ net
  | _ => True

/-- The new sheet is sound, and so is the work that is left for later. -/
structure Effect.IsSound (e : Effect) : Prop where
  sheet : e.sheet.IsSound
  pending : ∀ p, e.pending = some p → p.IsSound

theorem Effect.IsSound.now (h : s.IsSound) : (Effect.now s).IsSound := ⟨h, nofun⟩

theorem Effect.IsSound.wrapping {p : Pending} (h : s.IsSound) (hp : p.IsSound) :
    (Effect.wrapping s p).IsSound := by
  refine ⟨h, fun p' hp' => ?_⟩
  obtain rfl := Option.some.inj hp'
  exact hp

namespace Sheet.IsSound

theorem withBalances {x y : Int} (h : s.IsSound) (hx : 0 ≤ x) (hy : 0 ≤ y) :
    (s.withBalances x y).IsSound :=
  ⟨⟨hx, hy, h.figures.amountIn, h.figures.amountOut⟩, h.overlay⟩

theorem withAmountIn (h : s.IsSound) (ha : 0 ≤ amount) : (s.withAmountIn amount).IsSound :=
  ⟨⟨h.figures.balanceIn, h.figures.balanceOut, ha, h.figures.amountOut⟩, h.overlay⟩

theorem withAmountOut (h : s.IsSound) (ha : 0 ≤ amount) : (s.withAmountOut amount).IsSound :=
  ⟨⟨h.figures.balanceIn, h.figures.balanceOut, h.figures.amountIn, ha⟩, h.overlay⟩

theorem withNotes (h : s.IsSound) (notes : List Note) : ({ s with notes } : Sheet).IsSound :=
  ⟨h.figures, h.overlay⟩

theorem withOverlay {o : Overlay} (h : s.IsSound) (ho : o.IsSound) :
    ({ s with overlay := o } : Sheet).IsSound :=
  ⟨h.figures, ho⟩

theorem swapped (h : s.IsSound) (pc : Nat) (stop : Bool) : (s.swapped pc stop).IsSound :=
  ⟨h.figures, h.overlay⟩

end Sheet.IsSound

/-- **Effects** of instructions with valid parameters keep sheets sound. -/
theorem Acted.isSound (h : Acted t pc i s e) (hvalid : i.IsValid) (hs : s.IsSound) :
    e.IsSound := by
  have hf := hs.figures
  cases h with
  | quiet => exact .now hs
  | static listedIn listedOut =>
    exact .now (hs.withBalances (listed_nonneg listedIn) (listed_nonneg listedOut))
  | stored initialised storedIn storedOut =>
    have ho := hs.overlay.initialise initialised
    refine .wrapping ?_ trivial
    exact (hs.withOverlay ho).withBalances (ho.balance storedIn) (ho.balance storedOut)
  | decay leftIn leftOut =>
    refine .wrapping (hs.withBalances (Int.add_nonneg hf.balanceIn (fadeLeft_nonneg leftIn)) ?_)
      hvalid
    -- the offset is clamped at the balance
    simp only [withoutOffset]
    omega
  | concentrate ofIn virtualIn ofOut virtualOut =>
    have hl := Int.natCast_pos.2 hvalid.2
    have hx := effectiveBalance_nonneg hf.balanceIn (virtualBalance_nonneg ofIn) hl
      hs.overlay.scale virtualIn
    have hy := effectiveBalance_nonneg hf.balanceOut (virtualBalance_nonneg ofOut) hl
      hs.overlay.scale virtualOut
    exact .wrapping (hs.withBalances hx hy) ⟨hf.balanceIn, hf.balanceOut, hx⟩
  | @netIn _ _ _ _ notes exactIn asked taken =>
    have hnet := afterFee_nonneg (Int.le_of_lt (feeInOf_mem hvalid asked).2) taken
    exact .wrapping ((hs.withNotes notes).withAmountIn hnet) hf.amountIn
  | grossIn => exact .wrapping (hs.withNotes _) trivial
  | netOut => exact .wrapping hs trivial
  | grossOut exactOut added =>
    exact .wrapping (hs.withAmountOut (mulDivUp_nonneg added)) hf.amountOut
  | output exactIn given => exact .now ((hs.withAmountOut (outputOf_nonneg given)).swapped _ _)
  | @input _ _ _ notes exactOut asked =>
    exact .now (((hs.withNotes notes).withAmountIn (inputOf_nonneg asked)).swapped _ _)

/-- **Work done later** keeps sheets sound. -/
theorem Settled.isSound {p : Pending} (h : Settled t p v u) (hp : p.IsSound) (hv : v.IsSound) :
    u.IsSound := by
  cases h with
  | book computed booked =>
    obtain ⟨_, -, booked⟩ := Outcome.bind_eq_ok.1 booked
    dsimp only at booked
    split at booked
    · cases booked
    · obtain ⟨_, -, booked⟩ := Outcome.bind_eq_ok.1 booked
      obtain ⟨_, hin, hout⟩ := Outcome.bind_eq_ok.1 booked
      exact hv.withOverlay ((hv.overlay.setBalance hin).setBalance hout)
  | fade computed faded =>
    obtain ⟨_, -, faded⟩ := Outcome.bind_eq_ok.1 faded
    obtain ⟨_, -, faded⟩ := Outcome.bind_eq_ok.1 faded
    obtain ⟨_, -, faded⟩ := Outcome.bind_eq_ok.1 faded
    obtain ⟨_, -, faded⟩ := Outcome.bind_eq_ok.1 faded
    cases faded
    exact hv.withOverlay ((hv.overlay.setFade _ _ _).setFade _ _ _)
  | scale computed root scaled =>
    exact (hv.withBalances hp.1 hp.2.1).withOverlay (hv.overlay.setScale scaled)
  | unscaled => exact hv.withBalances hp.1 hp.2.1
  | restoreIn => exact hv.withAmountIn hp
  | raiseIn computed raised => exact hv.withAmountIn (mulDivUp_nonneg raised)
  | lowerOut computed lowered => exact hv.withAmountOut (mulDivDown_nonneg lowered)
  | restoreOut => exact hv.withAmountOut hp
  | idle => exact hv

/-! ### Walks -/

/-- A step of a walk, whatever the program is, keeps the sheet sound. -/
theorem isSound_of_step {w w' : Walk} {p : Option Pending} (h : step t w = .ok (w', p))
    (hw : w.sheet.IsSound) : w'.sheet.IsSound ∧ ∀ q, p = some q → q.IsSound := by
  obtain ⟨r, i, e, -, hi, -, hacted, hsheet, rfl⟩ := acted_of_step h
  have he := hacted.isSound (Instruction.parse_eq_ok hi).2 hw
  rw [hsheet]
  exact ⟨he.sheet, he.pending⟩

/-- **Walks** keep sheets sound. -/
theorem isSound_of_run {w u : Walk} (h : run t w = .ok u) (hw : w.sheet.IsSound) :
    u.sheet.IsSound := by
  refine run_induction (R := fun w u => w.sheet.IsSound → u.sheet.IsSound) (fun w _ hw => hw)
    (fun w w' p v s _ hstep _ ih hs hw => ?_) h hw
  obtain ⟨hw', hp⟩ := isSound_of_step hstep hw
  have hv := ih hw'
  cases p with
  | none =>
    cases hs
    exact hv
  | some p => exact (settled_of_conclude hs).isSound (hp p rfl) hv

end Walk

end SwapMachine
