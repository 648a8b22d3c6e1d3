import SwapMachine.Proofs.Course
import SwapMachine.Proofs.Sound

/-!
# SwapMachine.Proofs.Counterpart — walks that fix the output and walks that fix the input

A walk that fixes the output and one that fixes the input go the same way through a program.  The
one widens what is wanted for fees on its way to the swap and what is asked on its way back; the
other narrows what is paid on its way to the swap and what is given on its way back.

* `Twin`: what an instruction does where the output is fixed, and what it does where the input is.
* `Carried asks gives`: a relation between what is asked and what is paid, and one between what is
  wanted and what is given, that fees hand on.
* `Course.related`: if the swap makes the one relation out of the other, so does the whole walk.
-/

namespace SwapMachine.Walk

open Curve

variable {t : Terms} {pc : Nat} {i : Instruction} {s : Sheet} {e : Effect}

/-! ### The same walk with the input fixed -/

/-- The terms of a walk that fixes the input. -/
def Terms.fixingIn (t : Terms) : Terms := { t with query := { t.query with isExactIn := true } }

/-- The sheet with other amounts. -/
def Sheet.withAmounts (s : Sheet) (amountIn amountOut : Int) : Sheet :=
  { s with figures := { s.figures with amountIn, amountOut } }

/-- The effect with other amounts on the sheet. -/
def Effect.withAmounts (amountIn amountOut : Int) (e : Effect) : Effect :=
  ⟨e.sheet.withAmounts amountIn amountOut, e.pending⟩

/-- The walk with other amounts on its sheet. -/
def withAmounts (w : Walk) (amountIn amountOut : Int) : Walk :=
  { w with sheet := w.sheet.withAmounts amountIn amountOut }

theorem Meets.fixingIn {w : Walk} {r : Record} {next : Nat} (h : Meets t w r i next)
    (amountIn amountOut : Int) : Meets t.fixingIn (w.withAmounts amountIn amountOut) r i next :=
  ⟨h.live, h.record, h.place, h.parses, h.moves⟩

/-- The sources of fees answer alike whichever amount is fixed. -/
def IgnoresMode (sources : Index String FeeSource) : Prop :=
  ∀ address source, sources.get? address = some source →
    ∀ q : Query, source { q with isExactIn := true } = source { q with isExactIn := false }

theorem dynamicFee_fixingIn (hmode : t.query.isExactIn = false)
    (hsources : IgnoresMode t.feeSources) (source : String) :
    Effect.dynamicFee t.fixingIn source = Effect.dynamicFee t source := by
  have hquery : { t.query with isExactIn := false } = t.query := by rw [← hmode]
  have hsame : t.fixingIn.feeSources = t.feeSources := rfl
  unfold Effect.dynamicFee
  rw [hsame]
  cases hget : t.feeSources.get? source with
  | none => rfl
  | some feeSource =>
    have hanswer : feeSource t.fixingIn.query = feeSource t.query :=
      (hsources source feeSource hget t.query).trans (congrArg feeSource hquery)
    dsimp only
    rw [hanswer]

theorem require_withAmounts (c : Outcome Unit) (s : Sheet) (a b : Int) :
    Effect.require (s.withAmounts a b) c = Effect.withAmounts a b <$> Effect.require s c := by
  cases c <;> rfl

/-- Instructions that are neither fees nor swaps do not look at the amounts or at which is fixed. -/
theorem effect_fixingIn (hswap : i.opcode.isSwap = false) (hfee : i.opcode.isFee = false)
    (a b : Int) : Effect.of t.fixingIn pc i (s.withAmounts a b) =
      Effect.withAmounts a b <$> Effect.of t pc i s := by
  cases i with
  | jump | jumpIfTokenIn | jumpIfTokenOut | salt | inert => rfl
  | deadline time => exact require_withAmounts (Effect.requireInTime t time) s a b
  | takerHolds token => exact require_withAmounts (Effect.requireHolds t token) s a b
  | takerHoldsAtLeast token minimum =>
    exact require_withAmounts (Effect.requireHoldsAtLeast t token minimum) s a b
  | takerShareAtLeast token minimum =>
    exact require_withAmounts (Effect.requireShareAtLeast t token minimum) s a b
  | staticBalances =>
    simp only [Effect.of, Effect.staticBalances, map_bind, map_pure, bind_assoc, pure_bind]
    rfl
  | dynamicBalances =>
    simp only [Effect.of, Effect.dynamicBalances, map_bind, map_pure]
    rfl
  | decay =>
    simp only [Effect.of, Effect.decay, map_bind, map_pure]
    rfl
  | concentrate =>
    simp only [Effect.of, Effect.concentrate, map_bind, map_pure]
    rfl
  | flatFeeIn | flatFeeOut | dynamicFeeIn => cases hfee
  | constantProduct | pegged | density => cases hswap

/-- The work moves amounts. -/
def Pending.isFee : Pending → Bool
  | .restoreIn _ | .raiseIn _ | .lowerOut _ | .restoreOut _ => true
  | _ => false

/-- What an instruction that is no swap does to a sheet where the output is fixed, with what it does
where the input is, whatever the amounts are. -/
inductive Twin (t : Terms) (pc : Nat) (i : Instruction) (s : Sheet) : Effect → Prop where
  | same {e : Effect} (other : ∀ p, e.pending = some p → p.isFee = false)
      (wanted : e.sheet.figures.amountOut = s.figures.amountOut)
      (twin : ∀ a b, Effect.of t.fixingIn pc i (s.withAmounts a b) = .ok (e.withAmounts a b)) :
      Twin t pc i s e
  | feeIn {fee : Int} {notes : List Note} (bps : 0 ≤ fee ∧ fee < FixedPoint.bpsWhole)
      (twin : ∀ a b, Effect.of t.fixingIn pc i (s.withAmounts a b) = (do
        return .wrapping ({ s with notes }.withAmounts (← afterFee a fee) b) (.restoreIn a))) :
      Twin t pc i s (.wrapping { s with notes } (.raiseIn fee))
  | feeOut {fee gross : Int} (bps : 0 ≤ fee ∧ fee < FixedPoint.bpsWhole)
      (added : beforeFee s.figures.amountOut fee = .ok gross)
      (twin : ∀ a b, Effect.of t.fixingIn pc i (s.withAmounts a b) =
        .ok (.wrapping (s.withAmounts a b) (.lowerOut fee))) :
      Twin t pc i s (.wrapping (s.withAmountOut gross) (.restoreOut s.figures.amountOut))

theorem feeInOf_of_not_fee (hfee : i.opcode.isFee = false) : feeInOf t i = none := by
  cases i <;> first | rfl | cases hfee

/-- Instructions that are neither fees nor swaps leave the amounts alone, also later. -/
theorem Acted.other (h : Acted t pc i s e) (hswap : i.opcode.isSwap = false)
    (hfee : i.opcode.isFee = false) : (∀ p, e.pending = some p → p.isFee = false) ∧
      e.sheet.figures.amountOut = s.figures.amountOut := by
  cases h with
  | output _ given => rw [outputOf_of_not_swap hswap] at given; cases given
  | input _ asked => rw [inputOf_of_not_swap hswap] at asked; cases asked
  | netIn _ asked | grossIn _ asked => rw [feeInOf_of_not_fee hfee] at asked; cases asked
  | netOut | grossOut => cases hfee
  | quiet | static => exact ⟨nofun, rfl⟩
  | stored | decay | concentrate =>
    refine ⟨fun p hp => ?_, rfl⟩
    cases hp
    rfl

/-- **Effects have twins.** -/
theorem twin_of_effect (hmode : t.query.isExactIn = false) (hsources : IgnoresMode t.feeSources)
    (hswap : i.opcode.isSwap = false) (hvalid : i.IsValid) (h : Effect.of t pc i s = .ok e) :
    Twin t pc i s e := by
  have hnot : ¬ t.query.isExactIn = true := by rw [hmode]; exact Bool.false_ne_true
  cases hfee : i.opcode.isFee with
  | false =>
    obtain ⟨hother, hwanted⟩ := (Acted.of_effect h).other hswap hfee
    refine .same hother hwanted fun a b => ?_
    rw [effect_fixingIn hswap hfee, h]
    rfl
  | true =>
    cases i with
    | flatFeeIn fee =>
      simp only [Effect.of, Effect.feeIn, if_neg hnot] at h
      cases h
      exact @Twin.feeIn t pc _ s _ s.notes (feeInOf_mem (t := t) hvalid rfl) fun _ _ => rfl
    | dynamicFeeIn source =>
      obtain ⟨fee, hfee, h⟩ := Outcome.bind_eq_ok.1 h
      simp only [Effect.feeIn, if_neg hnot] at h
      cases h
      refine .feeIn (feeInOf_mem (t := t) hvalid (congrArg some hfee)) fun a b => ?_
      rw [Effect.of, dynamicFee_fixingIn hmode hsources, hfee]
      rfl
    | flatFeeOut fee =>
      simp only [Effect.of, Effect.feeOut, if_neg hnot] at h
      obtain ⟨gross, hgross, h⟩ := Outcome.bind_eq_ok.1 h
      cases h
      exact .feeOut ⟨Int.natCast_nonneg fee, hvalid⟩ hgross fun _ _ => rfl
    | _ => cases hfee

/-! ### What is asked and paid, wanted and given -/

/-- Fees hand a relation between what is asked and what is paid to what stands behind them, and take
one between what is wanted and what is given back from there. -/
structure Carried (asks gives : Int → Int → Prop) : Prop where
  paid : ∀ {wanted asked paid fee : Int}, 0 ≤ fee → beforeFee wanted fee = .ok asked →
    asks asked paid → asks wanted (net paid fee)
  given : ∀ {wanted asked given fee : Int}, beforeFee wanted fee = .ok asked →
    gives asked given → gives wanted (net given fee)

/-- Who pays what is asked is given what is wanted. -/
theorem carried_enough :
    Carried (fun asked paid => asked = paid) (fun wanted given => wanted ≤ given) where
  paid hfee h hpaid := by rw [← hpaid, net_of_beforeFee hfee h]
  given h := (le_net_iff h).2

/-- Who pays less than is asked is given less than is wanted. -/
theorem carried_short :
    Carried (fun asked paid => paid < asked) (fun wanted given => given < wanted) where
  paid _ h := (net_lt_iff h).2
  given h := (net_lt_iff h).2

/-- The swap makes the second relation, between what is wanted and given, out of the first, between
what is asked and paid. -/
def Turns (limits : Power.Limits) (i : Instruction) (asks gives : Int → Int → Prop) : Prop :=
  ∀ ⦃f f' : Figures⦄ ⦃asked given : Int⦄, f'.balanceIn = f.balanceIn →
    f'.balanceOut = f.balanceOut → inputOf limits f i = some (.ok asked) →
    outputOf f' i = some (.ok given) → asks asked f'.amountIn → gives f.amountOut given

/-- The swap is one that asks the least input for an output. -/
def AsksLeast : Instruction → Prop
  | .constantProduct alpha => (alpha : Int) = FixedPoint.one
  | .pegged _ | .density _ => True
  | _ => False

/-- What is given covers an output if and only if the input covers what is asked. -/
theorem le_outputOf_iff {limits : Power.Limits} {f f' : Figures} {asked given : Int}
    (hi : AsksLeast i) (hin : f'.balanceIn = f.balanceIn) (hout : f'.balanceOut = f.balanceOut)
    (hasked : inputOf limits f i = some (.ok asked))
    (hgiven : outputOf f' i = some (.ok given)) :
    f.amountOut ≤ given ↔ asked ≤ f'.amountIn := by
  cases i with
  | constantProduct alpha =>
    obtain ⟨q, hq, h⟩ := Outcome.bind_eq_ok.1 (Option.some.inj hasked)
    cases h
    replace hgiven := Option.some.inj hgiven
    rw [hin, hout, show (alpha : Int) = FixedPoint.one from hi] at hgiven
    rw [show (alpha : Int) = FixedPoint.one from hi] at hq
    exact Power.le_exactIn_iff hgiven hq
  | pegged rate =>
    replace hgiven := Option.some.inj hgiven
    rw [hout] at hgiven
    exact Peg.le_exactIn_iff hgiven (Option.some.inj hasked)
  | density curve =>
    replace hgiven := Option.some.inj hgiven
    rw [hout] at hgiven
    exact Density.le_exactIn_iff hgiven (Option.some.inj hasked)
  | _ => cases hi

theorem turns_short {limits : Power.Limits} (hi : AsksLeast i) :
    Turns limits i (fun asked paid => paid < asked) (fun wanted given => given < wanted) := by
  intro f f' asked given hin hout hasked hgiven hpaid
  rw [← Int.not_le] at hpaid ⊢
  rwa [le_outputOf_iff hi hin hout hasked hgiven]

/-- Any swap gives what is wanted for what it asks. -/
theorem turns_enough {limits : Power.Limits} (hi : i.opcode.isSwap = true) :
    Turns limits i (fun asked paid => asked = paid) (fun wanted given => wanted ≤ given) := by
  intro f f' asked given hin hout hasked hgiven hpaid
  cases i with
  | constantProduct alpha =>
    -- at exponents below one only the quote's own checks say so
    obtain ⟨q, hq, h⟩ := Outcome.bind_eq_ok.1 (Option.some.inj hasked)
    cases h
    replace hgiven := Option.some.inj hgiven
    rw [hin, hout, ← hpaid] at hgiven
    exact Power.le_exactIn_of_exactOut hq hgiven
  | pegged rate =>
    exact (le_outputOf_iff (i := .pegged rate) trivial hin hout hasked hgiven).2 (Int.le_of_eq hpaid)
  | density curve =>
    exact (le_outputOf_iff (i := .density curve) trivial hin hout hasked hgiven).2
      (Int.le_of_eq hpaid)
  | _ => cases hi

/-! ### Walks -/

/-- Work that moves no amounts leaves them alone. -/
theorem amounts_of_conclude {p : Option Pending} {v u : Sheet}
    (hp : ∀ q, p = some q → q.isFee = false) (h : conclude t p v = .ok u) :
    u.figures.amountIn = v.figures.amountIn ∧ u.figures.amountOut = v.figures.amountOut := by
  cases p with
  | none => cases h; exact ⟨rfl, rfl⟩
  | some p =>
    have hfee := hp p rfl
    cases settled_of_conclude h with
    | restoreIn | raiseIn | lowerOut | restoreOut => cases hfee
    | _ => exact ⟨rfl, rfl⟩

variable {last : Instruction} {w u u' : Walk} {asks gives : Int → Int → Prop} {a b : Int}

/-- **Walks** of which one fixes an output and the other an input: if what is asked is related to
what is paid, then what is wanted is related to what is given. -/
theorem Course.related (h : Course t last w u) (hmode : t.query.isExactIn = false)
    (hsources : IgnoresMode t.feeSources) (hlast : last.opcode.isSwap = true)
    (hcarried : Carried asks gives) (hturns : Turns t.limits last asks gives)
    (hrun : run t.fixingIn (w.withAmounts a b) = .ok u')
    (hasks : asks u.sheet.figures.amountIn a) :
    u'.sheet.isComputed = true ∧
      gives w.sheet.figures.amountOut u'.sheet.figures.amountOut := by
  induction h generalizing a b u' with
  | @swap w r e meets ends acts =>
    obtain ⟨e', v', s', he', hrun', hs', rfl⟩ := (meets.fixingIn a b).run_eq_ok_iff.1 hrun
    obtain ⟨asked, notes, hasked, rfl⟩ := ((Acted.of_effect acts).swap hlast).2 hmode
    obtain ⟨given, hgiven, rfl⟩ := ((Acted.of_effect he').swap hlast).1 rfl
    obtain rfl := Except.ok.inj ((run_of_end (t := t.fixingIn) ends).symm.trans hrun')
    cases hs'
    exact ⟨rfl, @hturns _ (w.withAmounts a b).sheet.figures _ _ rfl rfl hasked hgiven hasks⟩
  | @behind w v r i next e s meets other acts inner closes ih =>
    obtain ⟨e', v', s', he', hrun', hs', rfl⟩ := (meets.fixingIn a b).run_eq_ok_iff.1 hrun
    have hcomputed := inner.isComputed hlast
    cases twin_of_effect hmode hsources other meets.isValid acts with
    | same hother hwanted twin =>
      obtain rfl := Except.ok.inj (he'.symm.trans (twin a b))
      obtain ⟨hin, -⟩ := amounts_of_conclude hother closes
      obtain ⟨-, hout⟩ := amounts_of_conclude hother hs'
      dsimp only at hasks ⊢
      rw [hin] at hasks
      obtain ⟨hc, hgives⟩ := ih hrun' hasks
      rw [hout, ← hwanted]
      exact ⟨(isComputed_of_conclude hs').trans hc, hgives⟩
    | @feeIn fee notes bps twin =>
      obtain ⟨rest, hrest, he'⟩ := Outcome.bind_eq_ok.1 ((twin a b).symm.trans he')
      cases he'
      obtain rfl := eq_net_of_afterFee hrest
      cases hs'
      cases settled_of_conclude closes with
      | raiseIn _ raised =>
        obtain ⟨hc, hgives⟩ := ih hrun' (hcarried.paid bps.1 raised hasks)
        exact ⟨hc, hgives⟩
      | idle idle => rw [hcomputed] at idle; cases idle
    | @feeOut fee gross bps added twin =>
      obtain rfl := Except.ok.inj (he'.symm.trans (twin a b))
      cases closes
      obtain ⟨hc, hgives⟩ := ih hrun' hasks
      cases settled_of_conclude hs' with
      | lowerOut _ lowered =>
        obtain rfl := eq_net_of_lessFee lowered
        exact ⟨hc, hcarried.given added hgives⟩
      | idle idle => rw [hc] at idle; cases idle

end SwapMachine.Walk
