import SwapMachine.Proofs.Correction
import SwapMachine.Proofs.Splitting

/-!
# SwapMachine.Proofs.Improvement — trades against better balances

Less of what the taker pays in and more of what he wants is better for him.  Along the constant
product a trade that is priced at some balances is priced at better ones, and there asks no more and
gives no less; fees keep that, whichever amount is fixed, and thresholds do not turn down what is
better.

* `Power.trade_improves`: one trade.
* `Walk.Improves`: no more is paid on a sheet and no less is given; fees hand it on.
* `Walk.pass_improves`: fees and a swap along the constant product.
* `Walk.pass_empty`: at an incoming balance of nothing they are turned down.
* `Engine.fill_improves`: fills.
-/

namespace SwapMachine

/-! ### Thresholds -/

namespace Number.Quantity

/-- What is above a number is above all that are no larger. -/
theorem whole_isBelow_of_le {a b : Int} {x : Quantity} (hle : a ≤ b)
    (h : (whole b).isBelow x = true) : (whole a).isBelow x = true := by
  unfold isBelow compare? at h ⊢
  generalize x.position? = p at h ⊢
  cases p with
  | none => cases h
  | some p =>
    simp only [position?, beq_iff_eq, Option.some.injEq] at h ⊢
    cases p with
    | lowest => cases h
    | highest => rfl
    | exactly num den =>
      simp only [Position.compare, Int.compare_eq_lt] at h ⊢
      have := Int.mul_le_mul_of_nonneg_right hle (Int.natCast_nonneg den)
      omega

/-- What is below a number is below all that are no smaller. -/
theorem isBelow_whole_of_le {a b : Int} {x : Quantity} (hle : a ≤ b)
    (h : x.isBelow (whole a) = true) : x.isBelow (whole b) = true := by
  unfold isBelow compare? at h ⊢
  generalize x.position? = p at h ⊢
  cases p with
  | none => cases h
  | some p =>
    simp only [position?, beq_iff_eq, Option.some.injEq] at h ⊢
    cases p with
    | lowest => rfl
    | highest => cases h
    | exactly num den =>
      simp only [Position.compare, Int.compare_eq_lt] at h ⊢
      have := Int.mul_le_mul_of_nonneg_right hle (Int.natCast_nonneg den)
      omega

end Number.Quantity

namespace Datum

variable {a b : Int} {limit : Datum}

/-- Only numbers can be compared with a number. -/
theorem int_isBelow_eq (a : Int) (limit : Datum) : (int a).isBelow limit =
    (limit.quantity?.map (Number.Quantity.whole a).isBelow).getD false := by
  cases limit <;> rfl

theorem isBelow_int_eq (a : Int) (limit : Datum) : limit.isBelow (int a) =
    (limit.quantity?.map fun x => x.isBelow (.whole a)).getD false := by
  cases limit <;> rfl

theorem int_isBelow_of_le (hle : a ≤ b) (h : (int b).isBelow limit = true) :
    (int a).isBelow limit = true := by
  rw [int_isBelow_eq] at h ⊢
  cases hq : limit.quantity? with
  | none => rw [hq] at h; cases h
  | some x =>
    rw [hq] at h
    exact Number.Quantity.whole_isBelow_of_le hle h

theorem isBelow_int_of_le (hle : a ≤ b) (h : limit.isBelow (int a) = true) :
    limit.isBelow (int b) = true := by
  rw [isBelow_int_eq] at h ⊢
  cases hq : limit.quantity? with
  | none => rw [hq] at h; cases h
  | some x =>
    rw [hq] at h
    exact Number.Quantity.isBelow_whole_of_le hle h

end Datum

theorem Opcode.isToll_of_isFee {op : Opcode} (h : op.isFee = true) : op.isToll = true := by
  rw [isToll, h, Bool.or_true]

/-! ### Trades and fees -/

namespace Curve

open FixedPoint Number

section Fee

variable {amount amount' fee r : Int}

/-- More leaves no less after a fee. -/
theorem net_le_net (hfee : fee < bpsWhole) (h : amount ≤ amount') :
    net amount fee ≤ net amount' fee :=
  floorDiv_le_floorDiv bpsWhole_pos (Int.mul_le_mul_of_nonneg_right h (by omega))

/-- Less asks no more before a fee. -/
theorem beforeFee_le (h : beforeFee amount fee = .ok r) (hnonneg : 0 ≤ amount')
    (hle : amount' ≤ amount) : ∃ r', beforeFee amount' fee = .ok r' ∧ r' ≤ r := by
  obtain ⟨⟨ha, hb, hd, hpos⟩, rfl, hfits⟩ := mulDivUp_eq_ok_iff.1 h
  have hquotient := ceilDiv_le_ceilDiv hpos (Int.mul_le_mul_of_nonneg_right hle hb.1)
  refine ⟨_, mulDivUp_eq_ok_iff.2 ⟨⟨⟨hnonneg, ?_⟩, hb, hd, hpos⟩, rfl, ?_⟩, hquotient⟩
  · exact Int.le_trans hle ha.2
  · exact Int.le_trans hquotient hfits

end Fee

namespace Power

variable {limits : Limits} {isExactIn : Bool} {x x' y y' a b amount given wanted out : Int}
  {q : Quote}

/-- **An input** gives no less at better balances. -/
theorem exactIn_improves (hx : 0 < x' ∧ x' ≤ x) (hy : y ≤ y' ∧ y' ≤ maxUint)
    (h : exactIn x y given one = .ok out) :
    ∃ out', exactIn x' y' given one = .ok out' ∧ out ≤ out' := by
  obtain ⟨hxpos, hypos, hgiven, -⟩ := exactIn_eq_ok h
  obtain ⟨hyfits, hsum⟩ := isUint_of_exactIn h
  obtain rfl := Except.ok.inj
    (h.symm.trans (exactIn_one_of_isUint hxpos ⟨hypos, hyfits⟩ hgiven hsum))
  refine ⟨_, exactIn_one_of_isUint hx.1 ⟨by omega, by omega, hy.2⟩ hgiven
    ⟨by omega, Int.le_trans (by omega) hsum.2⟩, ?_⟩
  have hsums : 0 < x + given := by omega
  have hnonneg : 0 ≤ floorDiv (y * given) (x + given) :=
    floorDiv_nonneg (Int.mul_nonneg (by omega) (by omega)) hsums
  rw [le_floorDiv_iff (by omega)]
  calc floorDiv (y * given) (x + given) * (x' + given)
      ≤ floorDiv (y * given) (x + given) * (x + given) :=
        Int.mul_le_mul_of_nonneg_left (by omega) hnonneg
    _ ≤ y * given := floorDiv_mul_le _ hsums
    _ ≤ y' * given := Int.mul_le_mul_of_nonneg_right hy.1 (by omega)

theorem limits_of_exactOut {alpha : Int} (h : exactOut x y wanted alpha limits = .ok q) :
    0 ≤ limits.iterations ∧ 0 < limits.step := by
  obtain ⟨_, -, h⟩ := Outcome.bind_eq_ok.1 h
  split at h
  · cases h
  · omega

/-- **An output** asks no more at better balances. -/
theorem exactOut_improves (hx : 0 < x' ∧ x' ≤ x) (hy : y ≤ y' ∧ y' ≤ maxUint)
    (h : exactOut x y wanted one limits = .ok q) :
    ∃ q', exactOut x' y' wanted one limits = .ok q' ∧ q'.amountIn ≤ q.amountIn := by
  obtain ⟨hwanted, -, out, hout, hcovers⟩ := delivers_of_exactOut h
  have hlimits := limits_of_exactOut h
  obtain ⟨hlt, hquote⟩ := exactOut_one h
  have hfits : x * wanted ≤ maxUint := by
    by_contra hwide
    rw [exactOut_one_eq_ite hlimits ⟨hwanted, hlt⟩ hout hcovers, if_neg hwide] at h
    cases h
  rw [hquote] at hout ⊢
  dsimp only at hout ⊢
  have hasked : ceilDiv (x' * wanted) (y' - wanted) ≤ ceilDiv (x * wanted) (y - wanted) := by
    refine ceilDiv_le_ceilDiv_of_mul_le (by omega) (by omega) ?_
    exact Int.mul_le_mul (Int.mul_le_mul_of_nonneg_right hx.2 (by omega)) (by omega) (by omega)
      (Int.mul_nonneg (by omega) (by omega))
  have hpos : 0 < ceilDiv (x' * wanted) (y' - wanted) :=
    ceilDiv_pos (Int.mul_pos hx.1 hwanted) (by omega)
  obtain ⟨-, hsum⟩ := isUint_of_exactIn hout
  have hpaid := exactIn_one_of_isUint hx.1 ⟨by omega, by omega, hy.2⟩ hpos
    ⟨by omega, Int.le_trans (by omega) hsum.2⟩
  have hfits' : x' * wanted ≤ maxUint :=
    Int.le_trans (Int.mul_le_mul_of_nonneg_right hx.2 (by omega)) hfits
  refine ⟨⟨ceilDiv (x' * wanted) (y' - wanted), wanted, 0⟩, ?_, hasked⟩
  rw [exactOut_one_eq_ite hlimits ⟨hwanted, by omega⟩ hpaid
    ((le_exactIn_one_iff hpaid (by omega)).2 (Int.le_refl _)), if_pos hfits']

/-- **A trade** asks no more and gives no less at better balances. -/
theorem trade_improves (hx : 0 < x' ∧ x' ≤ x) (hy : y ≤ y' ∧ y' ≤ maxUint)
    (h : trade limits isExactIn x y amount = .ok (a, b)) :
    ∃ a' b', trade limits isExactIn x' y' amount = .ok (a', b') ∧ (0 < a' ∧ a' ≤ a) ∧
      0 ≤ b ∧ b ≤ b' ∧ b' ≤ maxUint := by
  have hamount := pos_of_trade h
  cases isExactIn with
  | true =>
    obtain ⟨rfl, hb⟩ := trade_exactIn_iff.1 h
    obtain ⟨b', hb', hle⟩ := exactIn_improves hx hy hb
    exact ⟨a, b', trade_exactIn_iff.2 ⟨rfl, hb'⟩, ⟨hamount, Int.le_refl a⟩, exactIn_nonneg hb, hle,
      (exactIn_le hb').2⟩
  | false =>
    obtain ⟨rfl, q, hq, rfl⟩ := trade_exactOut_iff.1 h
    obtain ⟨q', hq', hle⟩ := exactOut_improves hx hy hq
    have hlt := (exactOut_one hq).1
    exact ⟨q'.amountIn, b, trade_exactOut_iff.2 ⟨rfl, q', hq', rfl⟩, ⟨exactOut_pos hq', hle⟩,
      hamount.le, Int.le_refl b, by omega⟩

/-- Nothing is priced at an incoming balance of nothing. -/
theorem requireBalances_empty (hy : 0 ≤ y) :
    requireBalances 0 y = .error (.curve .emptyBalance) := by
  rw [requireBalances, if_neg (by omega), if_pos (Or.inl rfl)]

theorem exactIn_empty {alpha : Int} (hy : 0 ≤ y) :
    exactIn 0 y given alpha = .error (.curve .emptyBalance) := by
  rw [exactIn, requireBalances_empty hy]
  rfl

theorem exactOut_empty {alpha : Int} (hy : 0 ≤ y) :
    exactOut 0 y wanted alpha limits = .error (.curve .emptyBalance) := by
  rw [exactOut, requireTarget, requireBalances_empty hy]
  rfl

end Power

end Curve

namespace Walk

open Program Curve FixedPoint

variable {t : Terms} {pc : Nat} {i : Instruction} {r last : Record} {rs fees : List Record}
  {s v v' u : Sheet} {e : Effect} {x y : Int} {alpha : Nat}

/-! ### Other balances -/

/-- The effect with other balances on the sheet. -/
def Effect.withBalances (e : Effect) (x y : Int) : Effect := ⟨e.sheet.withBalances x y, e.pending⟩

/-- Fees do not look at the balances. -/
theorem effect_withBalances (hfee : i.opcode.isFee = true) (x y : Int) (s : Sheet) :
    Effect.of t pc i (s.withBalances x y) = (·.withBalances x y) <$> Effect.of t pc i s := by
  cases i with
  | flatFeeIn =>
    exact Effect.feeIn_onSheet (·.withBalances x y) (fun _ => rfl) (fun _ _ => rfl) t.query _ s
  | flatFeeOut =>
    exact Effect.feeOut_onSheet (·.withBalances x y) (fun _ => rfl) (fun _ _ => rfl) t.query _ s
  | dynamicFeeIn source =>
    simp only [Effect.of, map_bind]
    exact congrArg _ (funext fun fee => Effect.feeIn_onSheet (·.withBalances x y) (fun _ => rfl)
      (fun _ _ => rfl) t.query fee (s.note pc (.dynamicFee fee)))
  | _ => cases hfee

/-- A pass of a fee, and the same pass at other balances. -/
theorem pass_fee (hfee : r.opcode.isFee = true) (h : pass t (r :: rs) s = .ok u) :
    ∃ i e v, i.opcode.isFee = true ∧ i.IsValid ∧ Acted t r.pc i s e ∧ pass t rs e.sheet = .ok v ∧
      conclude t e.pending v = .ok u ∧
      e.sheet.figures.balanceIn = s.figures.balanceIn ∧
      e.sheet.figures.balanceOut = s.figures.balanceOut ∧
      ∀ x y, pass t (r :: rs) (s.withBalances x y) =
        pass t rs (e.sheet.withBalances x y) >>= conclude t e.pending := by
  obtain ⟨i, hi, -⟩ := Outcome.bind_eq_ok.1 h
  obtain ⟨e, v, he, hv, hu⟩ := effect_of_pass hi h
  obtain ⟨hop, hvalid⟩ := Instruction.parse_eq_ok hi
  have hfee' : i.opcode.isFee = true := hop ▸ hfee
  have hsame : Effect.of t r.pc i (s.withBalances s.figures.balanceIn s.figures.balanceOut) = _ :=
    effect_withBalances hfee' s.figures.balanceIn s.figures.balanceOut s
  have hfixed : e = e.withBalances s.figures.balanceIn s.figures.balanceOut := by
    have hown : s.withBalances s.figures.balanceIn s.figures.balanceOut = s := rfl
    rw [hown, he] at hsame
    exact Except.ok.inj hsame
  refine ⟨i, e, v, hfee', hvalid, .of_effect he, hv, hu, ?_, ?_, fun x y => ?_⟩
  · rw [hfixed]
    rfl
  · rw [hfixed]
    rfl
  · rw [pass_cons hi, effect_withBalances hfee', he]
    rfl

/-! ### Better sheets -/

/-- A trade has been computed on both sheets, and on the second one no more is paid and no less is
given. -/
structure Improves (v v' : Sheet) : Prop where
  computed : v'.isComputed = true
  paid : 0 ≤ v'.figures.amountIn ∧ v'.figures.amountIn ≤ v.figures.amountIn
  given : 0 ≤ v.figures.amountOut ∧ v.figures.amountOut ≤ v'.figures.amountOut ∧
    v'.figures.amountOut ≤ maxUint

theorem settle_raiseIn {fee asked : Int} (hc : s.isComputed = true)
    (h : beforeFee s.figures.amountIn fee = .ok asked) :
    (Pending.raiseIn fee).settle t s = .ok (s.withAmountIn asked) :=
  (if_pos hc).trans (Outcome.bind_eq_ok.2 ⟨asked, h, rfl⟩)

/-- **Fees** hand a better sheet on. -/
theorem Improves.through (h : Improves v v') (hacted : Acted t pc i s e)
    (hfee : i.opcode.isFee = true) (hvalid : i.IsValid) (hc : v.isComputed = true)
    (hu : conclude t e.pending v = .ok u) :
    ∃ u', conclude t e.pending v' = .ok u' ∧ Improves u u' := by
  have hswap : i.opcode.isSwap = false := by cases i <;> first | rfl | cases hfee
  cases hacted with
  | quiet hquiet =>
    have hloud : isQuiet i = false := by cases i <;> first | rfl | cases hfee
    rw [hloud] at hquiet
    cases hquiet
  | static | stored | decay | concentrate => cases hfee
  | output _ given => rw [outputOf_of_not_swap hswap] at given; cases given
  | input _ asked => rw [inputOf_of_not_swap hswap] at asked; cases asked
  | netIn _ _ taken =>
    cases hu
    obtain ⟨_, hquotient, -⟩ := Outcome.bind_eq_ok.1 taken
    have hgross := (mulDivUp_eq_ok_iff.1 hquotient).1.1.1
    exact ⟨_, rfl, h.computed, ⟨hgross, Int.le_refl _⟩, h.given⟩
  | grossIn _ asked =>
    cases settled_of_conclude hu with
    | idle idle => rw [hc] at idle; cases idle
    | raiseIn _ raised =>
      obtain ⟨asked', hasked', hle⟩ := beforeFee_le raised h.paid.1 h.paid.2
      exact ⟨_, settle_raiseIn (t := t) h.computed hasked', h.computed,
        ⟨(isUint_of_beforeFee hasked').1, hle⟩, h.given⟩
  | @netOut _ fee =>
    cases settled_of_conclude hu with
    | idle idle => rw [hc] at idle; cases idle
    | lowerOut _ lowered =>
      have hbps : 0 ≤ (fee : Int) ∧ (fee : Int) < bpsWhole := ⟨Int.natCast_nonneg fee, hvalid⟩
      have hleft := lessFee_of_isUint hbps ⟨h.given.1.trans h.given.2.1, h.given.2.2⟩
      obtain rfl := eq_net_of_lessFee lowered
      refine ⟨_, settle_lowerOut (t := t) h.computed hleft, h.computed, h.paid, ?_, ?_, ?_⟩
      · exact (lessFee_mem hbps.1 lowered).1
      · exact net_le_net hbps.2 h.given.2.1
      · exact Int.le_trans (lessFee_mem hbps.1 hleft).2 h.given.2.2
  | grossOut _ added =>
    cases hu
    obtain ⟨⟨hnet, -⟩, -⟩ := mulDivUp_eq_ok_iff.1 added
    exact ⟨_, rfl, h.computed, h.paid, hnet.1, Int.le_refl _, hnet.2⟩

/-- **Fees and a swap along the constant product** at better balances. -/
theorem pass_improves (halpha : (alpha : Int) = one)
    (hlast : last.parse = .ok (.constantProduct alpha))
    (hfees : ∀ r ∈ fees, r.opcode.isFee = true) (hx : 0 < x ∧ x ≤ s.figures.balanceIn)
    (hy : s.figures.balanceOut ≤ y ∧ y ≤ maxUint) (h : pass t (fees ++ [last]) s = .ok u) :
    ∃ u', pass t (fees ++ [last]) (s.withBalances x y) = .ok u' ∧ Improves u u' := by
  induction fees generalizing s u with
  | nil =>
    obtain ⟨-, htrade⟩ := trade_of_pass halpha hlast h
    obtain ⟨a', b', htrade', hpaid, hgiven⟩ := Power.trade_improves hx hy htrade
    obtain ⟨u', hu', hc, -, rfl, rfl⟩ :=
      pass_of_trade (s := s.withBalances x y) halpha hlast htrade'
    exact ⟨u', hu', hc, ⟨hpaid.1.le, hpaid.2⟩, hgiven⟩
  | cons r fees ih =>
    have hfees' : ∀ r' ∈ fees, r'.opcode.isFee = true :=
      fun r' hr' => hfees r' (List.mem_cons_of_mem r hr')
    obtain ⟨i, e, v, hfee, hvalid, hacted, hv, hu, hin, hout, hother⟩ :=
      pass_fee (hfees r List.mem_cons_self) h
    obtain ⟨v', hv', himproves⟩ := ih hfees' (hin ▸ hx) (hout ▸ hy) hv
    have hc := (covers_of_pass ((Instruction.parse_eq_ok hlast).1 ▸ rfl)
      (fun r' hr' => Opcode.isToll_of_isFee (hfees' r' hr')) hv).computed
    obtain ⟨u', hu', hbetter⟩ := himproves.through hacted hfee hvalid hc hu
    exact ⟨u', (hother x y).trans (Outcome.bind_eq_ok.2 ⟨v', hv', hu'⟩), hbetter⟩

/-- At an incoming balance of nothing a trade that is priced at another one is turned down. -/
theorem pass_empty (hlast : last.parse = .ok (.constantProduct alpha))
    (hfees : ∀ r ∈ fees, r.opcode.isFee = true) (hy : 0 ≤ y)
    (h : pass t (fees ++ [last]) s = .ok u) :
    pass t (fees ++ [last]) (s.withBalances 0 y) = .error (.curve .emptyBalance) := by
  induction fees generalizing s u with
  | nil =>
    have hempty : Effect.constantProduct t last.pc alpha (s.withBalances 0 y) =
        .error (.curve .emptyBalance) := by
      simp only [Effect.constantProduct, Sheet.withBalances, Power.exactIn_empty hy,
        Power.exactOut_empty hy]
      split <;> rfl
    rw [List.nil_append, pass_cons hlast, Effect.of, hempty]
    rfl
  | cons r fees ih =>
    obtain ⟨i, e, v, -, -, -, hv, -, -, -, hother⟩ := pass_fee (hfees r List.mem_cons_self) h
    have hempty := ih (fun r' hr' => hfees r' (List.mem_cons_of_mem r hr')) hv
    exact (hother 0 y).trans (congrArg (· >>= conclude t e.pending) hempty)

end Walk

/-! ### Fills -/

namespace Engine

variable {r : Request} {hash : String} {s s' : Walk.Sheet} {f : Fill}

/-- **Fills**: a threshold that does not turn a trade down does not turn down a better one. -/
theorem fill_improves (h : fill r hash s = .ok f) (hs : Walk.Improves s s') :
    fill r hash s' = .ok ⟨s'.figures.amountIn, s'.figures.amountOut, hash⟩ := by
  obtain ⟨-, rfl, hkeeps⟩ := fill_eq_ok h
  unfold fill
  rw [if_neg (not_not_intro hs.computed)]
  cases hlimit : r.threshold with
  | none => rfl
  | some limit =>
    have hkept := hkeeps limit hlimit
    unfold Keeps at hkept
    dsimp only
    split
    case isTrue hin =>
      rw [if_pos hin] at hkept
      refine if_neg fun hbelow => ?_
      rw [Datum.int_isBelow_of_le hs.given.2.1 hbelow] at hkept
      cases hkept
    case isFalse hin =>
      rw [if_neg hin] at hkept
      refine if_neg fun hbelow => ?_
      rw [Datum.isBelow_int_of_le hs.paid.2 hbelow] at hkept
      cases hkept

end Engine

end SwapMachine
