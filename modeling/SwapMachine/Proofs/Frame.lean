import SwapMachine.Proofs.Booking
import SwapMachine.Proofs.ValidWalk

/-!
# SwapMachine.Proofs.Frame — what a walk leaves alone

* `Settled`: everything that work done later can do to a sheet.
* `Figures.fixed`: the amount that the query fixes.  Fees move it for what comes behind them and put
  it back; no walk changes it (`fixed_of_run`).
* `Overlay.SameBalances`: writes to the same order that differ at most in fading amounts and the
  scale.  Only loading and booking the stored balances does more (`Settled.sameBalances`).
* `Effect.feeIn_onSheet`: what a fee does not look at is handed on.
-/

namespace SwapMachine

/-- The writes are to the same order and over the same snapshot, and write the same balances. -/
structure Overlay.SameBalances (o o' : Overlay) : Prop where
  order : o'.order = o.order
  base : o'.base = o.base
  balances : o'.balances = o.balances

namespace Overlay.SameBalances

variable {o o' o'' : Overlay}

theorem refl (o : Overlay) : SameBalances o o := ⟨rfl, rfl, rfl⟩

theorem trans (h : SameBalances o o') (h' : SameBalances o' o'') : SameBalances o o'' :=
  ⟨h'.order.trans h.order, h'.base.trans h.base, h'.balances.trans h.balances⟩

theorem balance? (h : SameBalances o o') (token : String) :
    o'.balance? token = o.balance? token := by
  unfold Overlay.balance?
  rw [h.base, h.balances]

end Overlay.SameBalances

theorem Fade.valueAt_nonneg {fade : Fade} {now period left : Int}
    (h : fade.valueAt now period = .ok left) : 0 ≤ left := by
  unfold valueAt at h
  split at h
  · cases h
  · cases h
    unfold value
    dsimp only
    split
    · exact Int.le_refl 0
    · refine Number.floorDiv_nonneg (Int.mul_nonneg fade.base_nonneg ?_) ?_ <;> omega

namespace Walk

open Curve

theorem fadeLeft_nonneg {t : Terms} {o : Overlay} {token : String} {side : Side} {period : Nat}
    {left : Int} (h : fadeLeft t o token side period = .ok left) : 0 ≤ left := by
  unfold fadeLeft at h
  split at h
  · exact Fade.valueAt_nonneg h
  · cases h
    exact Int.le_refl 0

/-- The amount that the query fixes. -/
def Figures.fixed (q : Query) (f : Figures) : Int := if q.isExactIn then f.amountIn else f.amountOut

variable {t : Terms} {s v u : Sheet}

/-! ### Work done later -/

/-- Work that was left for later has turned one sheet into another. -/
inductive Settled (t : Terms) : Pending → Sheet → Sheet → Prop where
  | book {s : Sheet} {o : Overlay} (computed : s.isComputed = true)
      (booked : Pending.settleBook t.query s.figures s.overlay = .ok o) :
      Settled t .book s { s with overlay := o }
  | fade {s : Sheet} {period : Nat} {o : Overlay} (computed : s.isComputed = true)
      (faded : Pending.settleFade t s.figures period s.overlay = .ok o) :
      Settled t (.fade period) s { s with overlay := o }
  | scale {s : Sheet} {realIn realOut virtualIn virtualOut scale : Int} {o : Overlay}
      (computed : s.isComputed = true)
      (root : Pending.scaleAfter s.figures virtualIn virtualOut = .ok scale)
      (scaled : s.overlay.setScale scale = .ok o) :
      Settled t (.scale realIn realOut virtualIn virtualOut) s
        { s.withBalances realIn realOut with overlay := o }
  | unscaled {s : Sheet} {realIn realOut virtualIn virtualOut : Int}
      (idle : s.isComputed = false) :
      Settled t (.scale realIn realOut virtualIn virtualOut) s (s.withBalances realIn realOut)
  | restoreIn {s : Sheet} {gross : Int} : Settled t (.restoreIn gross) s (s.withAmountIn gross)
  | raiseIn {s : Sheet} {fee gross : Int} (computed : s.isComputed = true)
      (raised : beforeFee s.figures.amountIn fee = .ok gross) :
      Settled t (.raiseIn fee) s (s.withAmountIn gross)
  | lowerOut {s : Sheet} {fee net : Int} (computed : s.isComputed = true)
      (lowered : lessFee s.figures.amountOut fee = .ok net) :
      Settled t (.lowerOut fee) s (s.withAmountOut net)
  | restoreOut {s : Sheet} {net : Int} : Settled t (.restoreOut net) s (s.withAmountOut net)
  | idle {s : Sheet} {p : Pending} (idle : s.isComputed = false) : Settled t p s s

/-- Work that is done only after a swap. -/
theorem of_if_computed {x : Outcome Sheet}
    (h : (if v.isComputed then x else pure s) = .ok u) :
    (v.isComputed = true ∧ x = .ok u) ∨ (v.isComputed = false ∧ u = s) := by
  split at h
  · rename_i hc
    exact Or.inl ⟨hc, h⟩
  · rename_i hc
    cases h
    exact Or.inr ⟨Bool.not_eq_true _ ▸ hc, rfl⟩

theorem settled_of_settle {p : Pending} (h : p.settle t v = .ok u) : Settled t p v u := by
  cases p with
  | book =>
    obtain ⟨hc, h⟩ | ⟨hc, rfl⟩ := of_if_computed h
    · obtain ⟨o, ho, h⟩ := Outcome.bind_eq_ok.1 h
      cases h
      exact .book hc ho
    · exact .idle hc
  | fade period =>
    obtain ⟨hc, h⟩ | ⟨hc, rfl⟩ := of_if_computed h
    · obtain ⟨o, ho, h⟩ := Outcome.bind_eq_ok.1 h
      cases h
      exact .fade hc ho
    · exact .idle hc
  | scale realIn realOut virtualIn virtualOut =>
    obtain ⟨hc, h⟩ | ⟨hc, rfl⟩ := of_if_computed h
    · obtain ⟨scale, hscale, h⟩ := Outcome.bind_eq_ok.1 h
      obtain ⟨o, ho, h⟩ := Outcome.bind_eq_ok.1 h
      cases h
      exact .scale hc hscale ho
    · exact .unscaled hc
  | raiseIn fee =>
    obtain ⟨hc, h⟩ | ⟨hc, rfl⟩ := of_if_computed h
    · obtain ⟨gross, hgross, h⟩ := Outcome.bind_eq_ok.1 h
      cases h
      exact .raiseIn hc hgross
    · exact .idle hc
  | lowerOut fee =>
    obtain ⟨hc, h⟩ | ⟨hc, rfl⟩ := of_if_computed h
    · obtain ⟨net, hnet, h⟩ := Outcome.bind_eq_ok.1 h
      cases h
      exact .lowerOut hc hnet
    · exact .idle hc
  | restoreIn gross => cases h; exact .restoreIn
  | restoreOut net => cases h; exact .restoreOut

theorem settled_of_conclude {p : Pending} (h : conclude t (some p) v = .ok u) :
    Settled t p v u :=
  settled_of_settle h

theorem Settled.isComputed {p : Pending} (h : Settled t p v u) : u.isComputed = v.isComputed := by
  cases h <;> rfl

/-- Booking does not touch the figures. -/
theorem Settled.figures_of_book (h : Settled t .book v u) : u.figures = v.figures := by
  cases h <;> rfl

theorem Settled.sameBalances {p : Pending} (h : Settled t p v u) (hp : p ≠ .book) :
    Overlay.SameBalances v.overlay u.overlay := by
  cases h with
  | book => exact absurd rfl hp
  | fade computed faded =>
    obtain ⟨_, -, ho⟩ := Outcome.bind_eq_ok.1 faded
    obtain ⟨_, -, ho⟩ := Outcome.bind_eq_ok.1 ho
    obtain ⟨_, -, ho⟩ := Outcome.bind_eq_ok.1 ho
    obtain ⟨_, -, ho⟩ := Outcome.bind_eq_ok.1 ho
    cases ho
    exact ⟨rfl, rfl, rfl⟩
  | scale computed root scaled =>
    unfold Overlay.setScale at scaled
    split at scaled
    · cases scaled
    · cases scaled
      exact ⟨rfl, rfl, rfl⟩
  | _ => exact .refl _

/-- No work moves writes to another order or another snapshot. -/
theorem Settled.origin {p : Pending} (h : Settled t p v u) :
    u.overlay.order = v.overlay.order ∧ u.overlay.base = v.overlay.base := by
  by_cases hp : p = .book
  · subst hp
    cases h with
    | book computed booked =>
      obtain ⟨_, _, -, -, -, -, horder, hbase, -⟩ := settleBook_eq_ok booked
      exact ⟨horder, hbase⟩
    | idle => exact ⟨rfl, rfl⟩
  · have hsame := h.sameBalances hp
    exact ⟨hsame.order, hsame.base⟩

/-! ### Effects -/

/-- The output that a swap instruction gives for a fixed input. -/
def outputOf (f : Figures) : Instruction → Option (Outcome Int)
  | .constantProduct alpha => some (Power.exactIn f.balanceIn f.balanceOut f.amountIn alpha)
  | .pegged rate => some (Peg.exactIn f.balanceOut f.amountIn rate)
  | .density curve => some (curve.exactIn f.balanceOut f.amountIn)
  | _ => none

/-- The input that a swap instruction asks for a fixed output. -/
def inputOf (limits : Power.Limits) (f : Figures) : Instruction → Option (Outcome Int)
  | .constantProduct alpha => some (do
      return (← Power.exactOut f.balanceIn f.balanceOut f.amountOut alpha limits).amountIn)
  | .pegged rate => some (Peg.exactOut f.balanceOut f.amountOut rate)
  | .density curve => some (curve.exactOut f.balanceOut f.amountOut)
  | _ => none

theorem outputOf_of_not_swap {i : Instruction} {f : Figures} (hi : i.opcode.isSwap = false) :
    outputOf f i = none := by
  cases i <;> first | rfl | cases hi

theorem inputOf_of_not_swap {i : Instruction} {limits : Power.Limits} {f : Figures}
    (hi : i.opcode.isSwap = false) : inputOf limits f i = none := by
  cases i <;> first | rfl | cases hi

/-- The fee on the amount in that an instruction takes, its own or the one a source asks for. -/
def feeInOf (t : Terms) : Instruction → Option (Outcome Int)
  | .flatFeeIn fee => some (.ok fee)
  | .dynamicFeeIn source => some (Effect.dynamicFee t source)
  | _ => none

/-- A fee on the amount in is a part of the whole. -/
theorem feeInOf_mem {i : Instruction} {fee : Int} (hvalid : i.IsValid)
    (h : feeInOf t i = some (.ok fee)) :
    0 ≤ fee ∧ fee < FixedPoint.bpsWhole := by
  cases i with
  | flatFeeIn n =>
    cases h
    exact ⟨Int.natCast_nonneg n, hvalid⟩
  | dynamicFeeIn source =>
    replace h : Effect.dynamicFee t source = .ok fee := Option.some.inj h
    unfold Effect.dynamicFee at h
    split at h
    · cases h
    · obtain ⟨answer, -, h⟩ := Outcome.bind_eq_ok.1 h
      split at h
      · rename_i fee' hfee
        cases h
        exact Instruction.fee?_eq_ok hfee
      · cases h
  | _ => cases h

/-- The instruction leaves the sheet as it is: it moves the walk, checks something or does nothing.
-/
def isQuiet : Instruction → Bool
  | .jump _ | .jumpIfTokenIn .. | .jumpIfTokenOut .. | .deadline _ | .takerHolds _
  | .takerHoldsAtLeast .. | .takerShareAtLeast .. | .salt _ | .inert .. => true
  | _ => false

theorem isSwap_of_isQuiet {i : Instruction} (h : isQuiet i = true) : i.opcode.isSwap = false := by
  cases i <;> first | rfl | cases h

theorem feeInOf_of_swap {i : Instruction} (h : i.opcode.isSwap = true) : feeInOf t i = none := by
  cases i <;> first | rfl | cases h

/-- An instruction has had an effect on a sheet. -/
inductive Acted (t : Terms) (pc : Nat) : Instruction → Sheet → Effect → Prop where
  | quiet {i : Instruction} {s : Sheet} (quiet : isQuiet i = true) : Acted t pc i s (.now s)
  | static {s : Sheet} {entries : Entries} {x y : Int}
      (listedIn : Effect.listed entries t.query.tokenIn = .ok x)
      (listedOut : Effect.listed entries t.query.tokenOut = .ok y) :
      Acted t pc (.staticBalances entries) s (.now (s.withBalances x y))
  | stored {s : Sheet} {entries : Entries} {o : Overlay} {x y : Int}
      (initialised : Effect.initialise entries s.overlay = .ok o)
      (storedIn : o.balance t.query.tokenIn = .ok x)
      (storedOut : o.balance t.query.tokenOut = .ok y) :
      Acted t pc (.dynamicBalances entries) s
        (.wrapping ({ s with overlay := o }.withBalances x y) .book)
  | decay {s : Sheet} {period : Nat} {incoming outgoing : Int}
      (leftIn : fadeLeft t s.overlay t.query.tokenIn .incoming period = .ok incoming)
      (leftOut : fadeLeft t s.overlay t.query.tokenOut .outgoing period = .ok outgoing) :
      Acted t pc (.decay period) s (.wrapping
        (s.withBalances (s.figures.balanceIn + incoming)
          (withoutOffset s.figures.balanceOut outgoing))
        (.fade period))
  | concentrate {s : Sheet} {c : Concentration} {deltaIn deltaOut x y : Int}
      (ofIn : Effect.virtualBalance c t.query.tokenIn = .ok deltaIn)
      (virtualIn : effectiveBalance s.figures.balanceIn deltaIn s.overlay.scale? c.liquidity = .ok x)
      (ofOut : Effect.virtualBalance c t.query.tokenOut = .ok deltaOut)
      (virtualOut :
        effectiveBalance s.figures.balanceOut deltaOut s.overlay.scale? c.liquidity = .ok y) :
      Acted t pc (.concentrate c) s (.wrapping (s.withBalances x y)
        (.scale s.figures.balanceIn s.figures.balanceOut x y))
  | netIn {i : Instruction} {s : Sheet} {fee net : Int} {notes : List Note}
      (exactIn : t.query.isExactIn = true) (asked : feeInOf t i = some (.ok fee))
      (taken : afterFee s.figures.amountIn fee = .ok net) :
      Acted t pc i s
        (.wrapping ({ s with notes }.withAmountIn net) (.restoreIn s.figures.amountIn))
  | grossIn {i : Instruction} {s : Sheet} {fee : Int} {notes : List Note}
      (exactOut : t.query.isExactIn = false) (asked : feeInOf t i = some (.ok fee)) :
      Acted t pc i s (.wrapping { s with notes } (.raiseIn fee))
  | netOut {s : Sheet} {fee : Nat} (exactIn : t.query.isExactIn = true) :
      Acted t pc (.flatFeeOut fee) s (.wrapping s (.lowerOut fee))
  | grossOut {s : Sheet} {fee : Nat} {gross : Int} (exactOut : t.query.isExactIn = false)
      (added : beforeFee s.figures.amountOut fee = .ok gross) :
      Acted t pc (.flatFeeOut fee) s
        (.wrapping (s.withAmountOut gross) (.restoreOut s.figures.amountOut))
  | output {i : Instruction} {s : Sheet} {out : Int} (exactIn : t.query.isExactIn = true)
      (given : outputOf s.figures i = some (.ok out)) :
      Acted t pc i s (.now ((s.withAmountOut out).swapped pc t.stopAtSwap))
  | input {i : Instruction} {s : Sheet} {amountIn : Int} {notes : List Note}
      (exactOut : t.query.isExactIn = false)
      (asked : inputOf t.limits s.figures i = some (.ok amountIn)) :
      Acted t pc i s (.now (({ s with notes }.withAmountIn amountIn).swapped pc t.stopAtSwap))

namespace Acted

variable {pc : Nat} {i : Instruction} {e : Effect}

theorem of_require {c : Outcome Unit} (hi : isQuiet i = true)
    (h : Effect.require s c = .ok e) : Acted t pc i s e := by
  obtain ⟨_, -, h⟩ := Outcome.bind_eq_ok.1 h
  cases h
  exact .quiet hi

theorem of_feeIn {fee : Int} {notes : List Note} (hi : feeInOf t i = some (.ok fee))
    (h : Effect.feeIn t.query fee { s with notes } = .ok e) : Acted t pc i s e := by
  unfold Effect.feeIn at h
  by_cases hin : t.query.isExactIn = true
  · rw [if_pos hin] at h
    obtain ⟨net, hnet, h⟩ := Outcome.bind_eq_ok.1 h
    cases h
    exact .netIn hin hi hnet
  · rw [if_neg hin] at h
    cases h
    exact .grossIn (Bool.not_eq_true _ ▸ hin) hi

theorem of_feeOut {fee : Nat} (h : Effect.feeOut t.query fee s = .ok e) :
    Acted t pc (.flatFeeOut fee) s e := by
  unfold Effect.feeOut at h
  by_cases hin : t.query.isExactIn = true
  · rw [if_pos hin] at h
    cases h
    exact .netOut hin
  · rw [if_neg hin] at h
    obtain ⟨gross, hgross, h⟩ := Outcome.bind_eq_ok.1 h
    cases h
    exact .grossOut (Bool.not_eq_true _ ▸ hin) hgross

theorem of_output {out : Outcome Int} (hin : t.query.isExactIn = true)
    (hi : outputOf s.figures i = some out)
    (h : Effect.swapped t pc (do return s.withAmountOut (← out)) = .ok e) : Acted t pc i s e := by
  obtain ⟨_, hs, h⟩ := Outcome.bind_eq_ok.1 h
  obtain ⟨z, rfl, hs⟩ := Outcome.bind_eq_ok.1 hs
  cases hs
  cases h
  exact .output hin hi

theorem of_input {amountIn : Outcome Int} (hin : ¬ t.query.isExactIn = true)
    (hi : inputOf t.limits s.figures i = some amountIn)
    (h : Effect.swapped t pc (do return s.withAmountIn (← amountIn)) = .ok e) :
    Acted t pc i s e := by
  obtain ⟨_, hs, h⟩ := Outcome.bind_eq_ok.1 h
  obtain ⟨z, rfl, hs⟩ := Outcome.bind_eq_ok.1 hs
  cases hs
  cases h
  exact .input (Bool.not_eq_true _ ▸ hin) hi

/-- **Effects**: all that an instruction can do to a sheet. -/
theorem of_effect (h : Effect.of t pc i s = .ok e) : Acted t pc i s e := by
  cases i with
  | jump | jumpIfTokenIn | jumpIfTokenOut | salt | inert => cases h; exact .quiet rfl
  | deadline | takerHolds | takerHoldsAtLeast | takerShareAtLeast => exact of_require rfl h
  | staticBalances entries =>
    obtain ⟨_, hs, h⟩ := Outcome.bind_eq_ok.1 h
    obtain ⟨x, hx, hs⟩ := Outcome.bind_eq_ok.1 hs
    obtain ⟨y, hy, hs⟩ := Outcome.bind_eq_ok.1 hs
    cases hs
    cases h
    exact .static hx hy
  | dynamicBalances entries =>
    obtain ⟨o, ho, h⟩ := Outcome.bind_eq_ok.1 h
    obtain ⟨x, hx, h⟩ := Outcome.bind_eq_ok.1 h
    obtain ⟨y, hy, h⟩ := Outcome.bind_eq_ok.1 h
    cases h
    exact .stored ho hx hy
  | decay period =>
    obtain ⟨incoming, hin, h⟩ := Outcome.bind_eq_ok.1 h
    obtain ⟨outgoing, hout, h⟩ := Outcome.bind_eq_ok.1 h
    cases h
    exact .decay hin hout
  | concentrate c =>
    obtain ⟨deltaIn, hdin, h⟩ := Outcome.bind_eq_ok.1 h
    obtain ⟨x, hx, h⟩ := Outcome.bind_eq_ok.1 h
    obtain ⟨deltaOut, hdout, h⟩ := Outcome.bind_eq_ok.1 h
    obtain ⟨y, hy, h⟩ := Outcome.bind_eq_ok.1 h
    cases h
    exact .concentrate hdin hx hdout hy
  | flatFeeIn fee => exact @of_feeIn t s pc _ e _ s.notes rfl h
  | flatFeeOut fee => exact of_feeOut h
  | dynamicFeeIn source =>
    obtain ⟨fee, hfee, h⟩ := Outcome.bind_eq_ok.1 h
    exact of_feeIn (congrArg some hfee) h
  | constantProduct alpha =>
    by_cases hin : t.query.isExactIn = true
    · simp only [Effect.of, Effect.constantProduct, if_pos hin] at h
      exact of_output hin rfl h
    · simp only [Effect.of, Effect.constantProduct, if_neg hin] at h
      obtain ⟨_, hs, h⟩ := Outcome.bind_eq_ok.1 h
      obtain ⟨q, hq, hs⟩ := Outcome.bind_eq_ok.1 hs
      cases hs
      cases h
      have hi : inputOf t.limits s.figures (.constantProduct alpha) = some (.ok q.amountIn) := by
        rw [inputOf, hq]
        rfl
      exact @Acted.input t pc _ s _ (s.notes ++ [⟨pc, .corrections q.corrections⟩])
        (Bool.not_eq_true _ ▸ hin) hi
  | pegged rate =>
    by_cases hin : t.query.isExactIn = true
    · simp only [Effect.of, Effect.pegged, if_pos hin] at h
      exact of_output hin rfl h
    · simp only [Effect.of, Effect.pegged, if_neg hin] at h
      exact of_input hin rfl h
  | density curve =>
    by_cases hin : t.query.isExactIn = true
    · simp only [Effect.of, Effect.density, if_pos hin] at h
      exact of_output hin rfl h
    · simp only [Effect.of, Effect.density, if_neg hin] at h
      exact of_input hin rfl h

/-- What a swap does: it computes the output where the input is fixed, and the input where the output
is. -/
theorem swap (h : Acted t pc i s e) (hswap : i.opcode.isSwap = true) :
    (t.query.isExactIn = true → ∃ given, outputOf s.figures i = some (.ok given) ∧
      e = .now ((s.withAmountOut given).swapped pc t.stopAtSwap)) ∧
    (t.query.isExactIn = false → ∃ asked notes,
      inputOf t.limits s.figures i = some (.ok asked) ∧
        e = .now (({ s with notes }.withAmountIn asked).swapped pc t.stopAtSwap)) := by
  cases h with
  | output exactIn given =>
    exact ⟨fun _ => ⟨_, given, rfl⟩, fun h => (nomatch exactIn.symm.trans h)⟩
  | input exactOut asked =>
    exact ⟨fun h => (nomatch exactOut.symm.trans h), fun _ => ⟨_, _, asked, rfl⟩⟩
  | quiet quiet => rw [isSwap_of_isQuiet quiet] at hswap; cases hswap
  | netIn _ asked | grossIn _ asked => rw [feeInOf_of_swap hswap] at asked; cases asked
  | _ => cases hswap

/-- No instruction moves writes to another order or another snapshot. -/
theorem origin (h : Acted t pc i s e) :
    e.sheet.overlay.order = s.overlay.order ∧ e.sheet.overlay.base = s.overlay.base := by
  cases h with
  | stored initialised =>
    obtain ⟨horder, hbase, -⟩ := initialise_eq_ok initialised
    exact ⟨horder, hbase⟩
  | _ => exact ⟨rfl, rfl⟩

/-- What a walk does inside an instruction and its pending work does not change the fixed amount. -/
theorem fixed (h : Acted t pc i s e)
    (hv : v.figures.fixed t.query = e.sheet.figures.fixed t.query)
    (hu : conclude t e.pending v = .ok u) : u.figures.fixed t.query = s.figures.fixed t.query := by
  unfold Figures.fixed at hv ⊢
  cases h with
  | quiet | static => cases hu; exact hv
  | stored | decay | concentrate =>
    refine Eq.trans ?_ hv
    cases settled_of_conclude hu <;> rfl
  | netIn exactIn =>
    cases hu
    rw [if_pos exactIn, if_pos exactIn]
    rfl
  | grossIn exactOut =>
    rw [exactOut] at hv ⊢
    refine Eq.trans ?_ hv
    cases settled_of_conclude hu <;> rfl
  | netOut exactIn =>
    rw [exactIn] at hv ⊢
    refine Eq.trans ?_ hv
    cases settled_of_conclude hu <;> rfl
  | grossOut exactOut =>
    cases hu
    rw [exactOut]
    rfl
  | output exactIn =>
    cases hu
    rw [exactIn] at hv ⊢
    exact hv
  | input exactOut =>
    cases hu
    rw [exactOut] at hv ⊢
    exact hv

end Acted

/-! ### Effects on sheets that differ elsewhere -/

namespace Effect

/-- The effect with its sheet changed. -/
def onSheet (g : Sheet → Sheet) (e : Effect) : Effect := ⟨g e.sheet, e.pending⟩

variable (g : Sheet → Sheet)

theorem require_onSheet (s : Sheet) (condition : Outcome Unit) :
    require (g s) condition = onSheet g <$> require s condition := by
  cases condition <;> rfl

/-- A fee on the amount in does not look at anything else. -/
theorem feeIn_onSheet (hamount : ∀ s, (g s).figures.amountIn = s.figures.amountIn)
    (hwith : ∀ s amount, (g s).withAmountIn amount = g (s.withAmountIn amount)) (q : Query)
    (fee : Int) (s : Sheet) : feeIn q fee (g s) = onSheet g <$> feeIn q fee s := by
  unfold feeIn
  rw [hamount]
  split
  · simp only [hwith, map_bind, map_pure]
    rfl
  · rfl

theorem feeOut_onSheet (hamount : ∀ s, (g s).figures.amountOut = s.figures.amountOut)
    (hwith : ∀ s amount, (g s).withAmountOut amount = g (s.withAmountOut amount)) (q : Query)
    (fee : Int) (s : Sheet) : feeOut q fee (g s) = onSheet g <$> feeOut q fee s := by
  unfold feeOut
  rw [hamount]
  split
  · rfl
  · simp only [hwith, map_bind, map_pure]
    rfl

end Effect

/-! ### Walks -/

/-- What a successful step is made of. -/
theorem acted_of_step {w w' : Walk} {p : Option Pending} (h : step t w = .ok (w', p)) :
    ∃ r i e, Record.decodeAt t.instructions t.program w.pc = .ok r ∧ r.parse = .ok i ∧
      nextPlace t r i = .ok w'.pc ∧ Acted t r.pc i w.sheet e ∧ w'.sheet = e.sheet ∧
      p = e.pending := by
  obtain ⟨r, hr, h⟩ := Outcome.bind_eq_ok.1 h
  obtain ⟨i, hi, h⟩ := Outcome.bind_eq_ok.1 h
  obtain ⟨next, hnext, h⟩ := Outcome.bind_eq_ok.1 h
  obtain ⟨e, he, h⟩ := Outcome.bind_eq_ok.1 h
  cases h
  exact ⟨r, i, e, hr, hi, hnext, .of_effect he, rfl, rfl⟩

/-- **No walk changes the amount that the query fixes.** -/
theorem fixed_of_run {w u : Walk} (h : run t w = .ok u) :
    u.sheet.figures.fixed t.query = w.sheet.figures.fixed t.query := by
  refine run_induction
    (R := fun w u => u.sheet.figures.fixed t.query = w.sheet.figures.fixed t.query)
    (fun w _ => rfl) (fun w w' p v s _ hstep _ ih hs => ?_) h
  obtain ⟨r, i, e, -, -, -, hacted, hsheet, rfl⟩ := acted_of_step hstep
  rw [hsheet] at ih
  exact hacted.fixed ih hs

/-- No walk moves writes to another order or another snapshot. -/
theorem origin_of_run {w u : Walk} (h : run t w = .ok u) :
    u.sheet.overlay.order = w.sheet.overlay.order ∧
      u.sheet.overlay.base = w.sheet.overlay.base := by
  refine run_induction (R := fun w u => u.sheet.overlay.order = w.sheet.overlay.order ∧
    u.sheet.overlay.base = w.sheet.overlay.base) (fun w _ => ⟨rfl, rfl⟩)
    (fun w w' p v s _ hstep _ ih hs => ?_) h
  obtain ⟨r, i, e, -, -, -, hacted, hsheet, rfl⟩ := acted_of_step hstep
  obtain ⟨horder, hbase⟩ := hacted.origin
  rw [hsheet] at ih
  obtain ⟨horder', hbase'⟩ : s.overlay.order = v.sheet.overlay.order ∧
      s.overlay.base = v.sheet.overlay.base := by
    cases hp : e.pending with
    | none => rw [hp] at hs; cases hs; exact ⟨rfl, rfl⟩
    | some p => rw [hp] at hs; exact (settled_of_conclude hs).origin
  exact ⟨horder'.trans (ih.1.trans horder), hbase'.trans (ih.2.trans hbase)⟩

end Walk

end SwapMachine
