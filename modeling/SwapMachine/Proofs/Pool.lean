import SwapMachine.Proofs.Fair
import SwapMachine.Proofs.Loading

/-!
# SwapMachine.Proofs.Pool — walks of constant-product pools

A pool loads its stored balances, then checks, decays and charges in any order, and ends with a swap
along the constant product.

* `Prices q s v`: what holds between a sheet and what a walk makes of it: balances are not written,
  and the trade is fair.  Each part of a pool hands this on (`Prices.through`): decay moves the
  balances against the taker, and fees are added to what is paid or taken from what is given.
* `books_of_through`: a walk from the start books a fair trade on what the pool has.
-/

namespace SwapMachine

namespace Opcode

/-- The operation moves the walk, checks something or is salt. -/
def isControl : Opcode → Bool
  | jump | jumpIfTokenIn | jumpIfTokenOut | deadline | takerHolds | takerHoldsAtLeast
  | takerShareAtLeast | salt => true
  | _ => false

/-- The operation charges a fee. -/
def isFee : Opcode → Bool
  | flatFeeIn | flatFeeOut | dynamicFeeIn => true
  | _ => false

/-- The operation may stand between the first and the last record of a pool. -/
def isPoolPart (op : Opcode) : Bool := op.isControl || op.isFee || op == decay

theorem isSwap_of_isPoolPart {op : Opcode} (h : op.isPoolPart = true) : op.isSwap = false := by
  cases op with
  | constantProduct | pegged | density => cases h
  | _ => rfl

end Opcode

open Curve FixedPoint

/-- A valid program that loads stored balances first, swaps along the constant product last, and in
between only controls the walk, charges fees and decays balances. -/
structure Program.IsPool (set : InstructionSet) (program : Bytes) (entries : Entries) : Prop where
  shape : ∃ first middle last, Program.validate set program = .ok (first :: (middle ++ [last])) ∧
    first.parse = .ok (.dynamicBalances entries) ∧
    (∃ alpha : Nat, (alpha : Int) = one ∧ last.parse = .ok (.constantProduct alpha)) ∧
    ∀ r ∈ middle, r.opcode.isPoolPart = true

theorem Program.IsPool.loadsFirst {set : InstructionSet} {program : Bytes} {entries : Entries}
    (h : IsPool set program entries) : LoadsFirst set program entries := by
  obtain ⟨first, middle, last, hv, hfirst, ⟨alpha, -, hlast⟩, hmiddle⟩ := h.shape
  refine ⟨first, middle ++ [last], hv, hfirst, fun r hr hload => ?_⟩
  rcases List.mem_append.1 hr with hr | hr
  · have hpart := hmiddle r hr
    rw [hload] at hpart
    cases hpart
  · obtain rfl := List.mem_singleton.1 hr
    have hop := (Instruction.parse_eq_ok hlast).1
    rw [hload] at hop
    cases hop

namespace Walk

open Program

variable {t : Terms} {pc : Nat} {i : Instruction} {s v u : Sheet} {e : Effect}

/-- What a walk makes of a sheet: balances are not written, and a trade that is computed is fair on
the balances of the sheet. -/
structure Prices (s v : Sheet) : Prop where
  balances : Overlay.SameBalances s.overlay v.overlay
  fair : v.isComputed = true →
    Fair s.figures.balanceIn s.figures.balanceOut v.figures.amountIn v.figures.amountOut

/-- A sheet that a swap has yet to price. -/
structure IsOpen (s : Sheet) : Prop where
  notComputed : s.isComputed = false
  nonneg : 0 ≤ s.figures.balanceIn

namespace Prices

theorem of_isOpen (h : IsOpen s) : Prices s s :=
  ⟨.refl _, fun hc => by rw [h.notComputed] at hc; cases hc⟩

/-- Parts of a pool keep sheets open. -/
theorem isOpen_of_acted (h : Acted t pc i s e) (hi : i.opcode.isPoolPart = true)
    (hvalid : i.IsValid) (hs : IsOpen s) : IsOpen e.sheet := by
  cases h with
  | quiet | netIn | grossIn | netOut | grossOut => exact ⟨hs.notComputed, hs.nonneg⟩
  | static | stored | concentrate => cases hi
  | decay leftIn =>
    exact ⟨hs.notComputed, Int.add_nonneg hs.nonneg (fadeLeft_nonneg leftIn)⟩
  | output _ given => rw [outputOf_of_not_swap (Opcode.isSwap_of_isPoolPart hi)] at given; cases given
  | input _ asked => rw [inputOf_of_not_swap (Opcode.isSwap_of_isPoolPart hi)] at asked; cases asked

/-- A trade that is fair on balances widened by fading amounts is fair on the balances. -/
theorem fair_of_decay {x y incoming outgoing a b : Int} (hin : 0 ≤ incoming) (hout : 0 ≤ outgoing)
    (h : Fair (x + incoming) (withoutOffset y outgoing) a b) : Fair x y a b := by
  -- the offset is clamped at the balance, and a balance of nothing can not be traded on
  have hgives := h.gives
  have hleaves := h.leaves
  simp only [withoutOffset] at h hleaves
  exact h.of_moved hin (by omega)

/-- **Parts of a pool** hand fair trades on: what is fair inside is fair outside, once the fee of
the part is in the amounts or its fading amounts are out of the balances. -/
theorem through (h : Acted t pc i s e) (hi : i.opcode.isPoolPart = true) (hvalid : i.IsValid)
    (hs : IsOpen s) (hfixed : v.figures.fixed t.query = e.sheet.figures.fixed t.query)
    (hv : Prices e.sheet v) (hu : conclude t e.pending v = .ok u) : Prices s u := by
  unfold Figures.fixed at hfixed
  cases h with
  | static | stored | concentrate => cases hi
  | output _ given => rw [outputOf_of_not_swap (Opcode.isSwap_of_isPoolPart hi)] at given; cases given
  | input _ asked => rw [inputOf_of_not_swap (Opcode.isSwap_of_isPoolPart hi)] at asked; cases asked
  | quiet => cases hu; exact hv
  | decay leftIn leftOut =>
    have hsettled := settled_of_conclude hu
    refine ⟨hv.balances.trans (hsettled.sameBalances nofun), fun hc => ?_⟩
    have hfair := fair_of_decay (fadeLeft_nonneg leftIn) (fadeLeft_nonneg leftOut)
      (hv.fair (hsettled.isComputed ▸ hc))
    cases hsettled with
    | fade => exact hfair
    | idle => exact hfair
  | @netIn _ _ fee net _ exactIn asked taken =>
    cases hu
    rw [if_pos exactIn, if_pos exactIn] at hfixed
    refine ⟨hv.balances, fun hc => ?_⟩
    have hfair := hv.fair hc
    rw [hfixed] at hfair
    exact hfair.of_pays_more (afterFee_le (feeInOf_mem hvalid asked).1 taken)
  | @grossIn _ _ fee _ exactOut asked =>
    cases settled_of_conclude hu with
    | raiseIn _ raised =>
      refine ⟨hv.balances, fun hc => ?_⟩
      exact (hv.fair hc).of_pays_more (le_beforeFee (feeInOf_mem hvalid asked).1 raised).2
    | idle idle => exact ⟨hv.balances, hv.fair⟩
  | @netOut _ fee exactIn =>
    cases settled_of_conclude hu with
    | lowerOut _ lowered =>
      refine ⟨hv.balances, fun hc => ?_⟩
      obtain ⟨hnonneg, hle⟩ := lessFee_mem (Int.natCast_nonneg fee) lowered
      exact (hv.fair hc).of_gives_less hs.nonneg hnonneg hle
    | idle idle => exact ⟨hv.balances, hv.fair⟩
  | @grossOut _ fee gross exactOut added =>
    cases hu
    rw [exactOut] at hfixed
    refine ⟨hv.balances, fun hc => ?_⟩
    have hfair := hv.fair hc
    obtain ⟨hnonneg, hle⟩ := le_beforeFee (Int.natCast_nonneg fee) added
    rw [show v.figures.amountOut = gross from hfixed] at hfair
    exact hfair.of_gives_less hs.nonneg hnonneg hle

end Prices

/-! ### The swap -/

/-- A swap along the constant product at exponent one is fair on the balances of the sheet. -/
theorem Prices.of_swap {alpha : Nat} (halpha : (alpha : Int) = one)
    (h : Acted t pc (.constantProduct alpha) s e) :
    Prices s e.sheet ∧ e.pending = none := by
  obtain ⟨hin, hout⟩ := h.swap rfl
  cases hmode : t.query.isExactIn with
  | true =>
    obtain ⟨given, hgiven, rfl⟩ := hin hmode
    refine ⟨⟨.refl _, fun _ => ?_⟩, rfl⟩
    replace hgiven := Option.some.inj hgiven
    rw [halpha] at hgiven
    exact (Power.fair_of_exactIn hgiven).2.2
  | false =>
    obtain ⟨asked, notes, hasked, rfl⟩ := hout hmode
    refine ⟨⟨⟨rfl, rfl, rfl⟩, fun _ => ?_⟩, rfl⟩
    obtain ⟨q, hq, hin⟩ := Outcome.bind_eq_ok.1 (Option.some.inj hasked)
    cases hin
    rw [halpha] at hq
    exact (Power.fair_of_exactOut hq).2.2

/-! ### Walks of pools -/

variable {entries : Entries}

/-- A walk that stands behind the first record of a pool prices the trade, unless it is over. -/
theorem prices_of_run (hp : IsPool t.instructions t.program entries) {w u : Walk}
    (hpc : 0 < w.pc) (hplace : w.pc ∈ places t.instructions t.program) (hopen : IsOpen w.sheet)
    (h : run t w = .ok u) : Prices w.sheet u.sheet := by
  have hw := wellFormed_of_loadsFirst hp.loadsFirst
  obtain ⟨first, middle, last, hv, -, ⟨alpha, halpha, hlast⟩, hmiddle⟩ := hp.shape
  obtain ⟨hrecords, -⟩ := validate_eq_ok_iff.1 hv
  let R (w u : Walk) : Prop := (w.isOver t = true → u = w) ∧
    (0 < w.pc → w.pc ∈ places t.instructions t.program → IsOpen w.sheet → Prices w.sheet u.sheet)
  suffices hR : R w u from hR.2 hpc hplace hopen
  refine run_induction (R := R) (fun w _ => ⟨fun _ => rfl, fun _ _ ho => .of_isOpen ho⟩) ?_ h
  intro w w' p v s hover hstep hrun ih hs
  refine ⟨fun h => absurd h hover, fun hpc hplace hopen => ?_⟩
  have hlt := pc_lt_of_step hstep
  have hplace' := pc_mem_places_of_step hw hplace hover hstep
  obtain ⟨r, hr, i, next, hrpc, hi, hop, hvalid, hnext, -, heq⟩ :=
    step_of_wellFormed hw hplace hover
  rw [heq] at hstep
  obtain ⟨e, he, hstep⟩ := Outcome.bind_eq_ok.1 hstep
  cases hstep
  have hacted := Acted.of_effect he
  rw [← hrecords, List.mem_cons, List.mem_append, List.mem_singleton] at hr
  rcases hr with rfl | hr | rfl
  · rw [Scan.pc_first hrecords.symm] at hrpc
    omega
  · -- a part: the walk behind it prices the trade on what the part has made of the sheet
    have hpart : i.opcode.isPoolPart = true := hop ▸ hmiddle r hr
    have hopen' : IsOpen e.sheet := Prices.isOpen_of_acted hacted hpart hvalid hopen
    have hinner := ih.2 (Nat.lt_trans hpc hlt) hplace' hopen'
    exact hinner.through hacted hpart hvalid hopen (fixed_of_run hrun) hs
  · -- the swap, behind which the walk is over
    obtain rfl : i = .constantProduct alpha := by
      rw [hlast] at hi
      exact (Except.ok.inj hi).symm
    obtain ⟨hprices, hpending⟩ := Prices.of_swap halpha hacted
    have hnext' : next = t.program.length := by
      rw [← Scan.next_last hw.whole (hrecords.symm.trans (List.cons_append ..).symm)]
      exact (Except.ok.inj hnext).symm
    have hover' : Walk.isOver t ⟨next, r.pc, e.sheet⟩ = true := by
      simp only [isOver, hnext', Nat.le_refl, decide_true, Bool.true_or]
    rw [hpending] at hs
    cases hs
    rw [ih.1 hover']
    exact hprices

/-- A fair trade of `a` for `b` on `x` and `y`, which the pool has, is booked in new writes. -/
structure Books (t : Terms) (entries : Entries) (o o' : Overlay) (a b x y : Int) : Prop where
  heldIn : o.held entries t.query.tokenIn = some x
  heldOut : o.held entries t.query.tokenOut = some y
  fair : Fair x y a b
  order : o'.order = o.order
  base : o'.base = o.base
  balance? : ∀ token, o'.balance? token =
    if token = t.query.tokenOut then some (y - b)
    else if token = t.query.tokenIn then some (x + a) else o.held entries token

/-- **A walk of a pool** that computes a trade books it, and it is fair on what the pool has. -/
theorem books_of_through (hp : IsPool t.instructions t.program entries) {f : Figures} {o : Overlay}
    {u : Walk} (hnonneg : ∀ x, o.held entries t.query.tokenIn = some x → 0 ≤ x)
    (h : through t 0 (.start f o) = .ok u) (hc : u.sheet.isComputed = true) :
    ∃ x y, Books t entries o u.sheet.overlay u.sheet.figures.amountIn u.sheet.figures.amountOut
      x y := by
  have hloads := hp.loadsFirst
  obtain ⟨loaded, x, y, w, v, hl⟩ := loaded_of_through hloads h
  have hmoves := hl.moves hloads hc
  have hopen : IsOpen w.sheet := by
    rw [hl.sheet]
    exact ⟨rfl, hnonneg x hmoves.heldIn⟩
  have hprices := prices_of_run hp hl.ahead hl.place hopen hl.run
  have hfair := hprices.fair (hl.settled.isComputed.symm.trans hc)
  rw [hl.sheet, ← hl.settled.figures_of_book] at hfair
  exact ⟨x, y, hmoves.heldIn, hmoves.heldOut, hfair, hmoves.order, hmoves.base, hmoves.balance?⟩

end Walk

end SwapMachine
