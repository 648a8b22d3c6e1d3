import SwapMachine.Proofs.Foreseen
import SwapMachine.Proofs.Isolation
import SwapMachine.Proofs.Payable
import SwapMachine.Proofs.PoolHistory
import SwapMachine.Proofs.Straight

/-!
# SwapMachine.Proofs.BackSwap — who trades back at once does so at the price before the trade

Where a program lets the amounts of a trade fade, the next trade in the other direction is priced on
the new balances, widened by what is left of them.  As long as no time has passed nothing has faded,
and new balances and fading amounts cancel out.

* `Loads`: the balances and fading amounts that a walk finds; all that it answers depends on the two
  widened balances (`writing_pass`).
* `Leaves`: what a trade leaves to the next walk (`leaves_of_pass`).
* `back_unmoved`: right after a swap, a request to trade back is answered as right before it.
-/

namespace SwapMachine

/-- A valid program that loads stored balances, checks, lets amounts fade over a period, checks or
charges fees, and swaps. -/
def Program.IsFading (set : InstructionSet) (program : Bytes) (entries : Entries) (period : Nat) :
    Prop :=
  ∃ first checks fade tolls last, Layered entries (.decay period) first checks fade tolls last ∧
    validate set program = .ok (first :: (checks ++ fade :: (tolls ++ [last])))

namespace Overlay

theorem fade?_setFade (o : Overlay) (token other : String) (side side' : Side) (fade : Fade) :
    (o.setFade token side fade).fade? other side' =
      if other = token ∧ side' = side then some fade else o.fade? other side' := by
  simp only [fade?, setFade, Index.get?_insert, FadeKey.mk.injEq]
  split <;> rfl

end Overlay

namespace Walk

open Program Curve

variable {t t' : Terms} {entries : Entries} {period : Nat} {first fade last : Record}
  {checks tolls : List Record} {f : Figures} {o o' loaded : Overlay} {s v u : Sheet}
  {x y a b : Int}

/-! ### Fading amounts -/

theorem fadeLeft_congr {token : String} {side : Side} (hnow : t.now = t'.now)
    (h : o.fade? token side = o'.fade? token side) (period : Nat) :
    fadeLeft t o token side period = fadeLeft t' o' token side period := by
  rw [fadeLeft, fadeLeft, h, hnow]

/-- Nothing of an amount has faded at the time at which it starts to. -/
theorem fadeLeft_of_fresh {token : String} {side : Side} {base : Int} {hbase : 0 ≤ base}
    (hperiod : 0 < period) (h : o.fade? token side = some ⟨base, t.now, hbase⟩) :
    fadeLeft t o token side period = .ok base := by
  have hp : ¬ (period : Int) ≤ 0 := by omega
  have hvalue : Fade.value ⟨base, t.now, hbase⟩ t.now period = base := by
    simp only [Fade.value, Int.sub_self, Int.max_self, if_neg hp, Int.sub_zero]
    exact Int.mul_fdiv_cancel base (by omega)
  rw [fadeLeft, h]
  show Fade.valueAt _ _ _ = _
  rw [Fade.valueAt, if_neg hp, hvalue]

/-- What letting the amounts of a trade fade does. -/
theorem settleFade_eq_ok (h : Pending.settleFade t f period o = .ok o') :
    ∃ c d hc hd, fadeLeft t o t.query.tokenOut .incoming period = .ok c ∧
      fadeLeft t o t.query.tokenIn .outgoing period = .ok d ∧
      o' = (o.setFade t.query.tokenOut .incoming ⟨c + f.amountOut, t.now, hc⟩).setFade
        t.query.tokenIn .outgoing ⟨d + f.amountIn, t.now, hd⟩ := by
  obtain ⟨c, hc, h⟩ := Outcome.bind_eq_ok.1 h
  obtain ⟨d, hd, h⟩ := Outcome.bind_eq_ok.1 h
  obtain ⟨incoming, hincoming, h⟩ := Outcome.bind_eq_ok.1 h
  obtain ⟨outgoing, houtgoing, h⟩ := Outcome.bind_eq_ok.1 h
  cases h
  unfold Fade.make at hincoming houtgoing
  split at hincoming
  · split at houtgoing
    · cases hincoming
      cases houtgoing
      exact ⟨c, d, _, _, hc, hd, rfl⟩
    · cases houtgoing
  · cases hincoming

/-! ### What a walk finds -/

/-- The balances that a walk loads, and the fading amounts that widen them. -/
structure Loads (t : Terms) (entries : Entries) (period : Nat) (o loaded : Overlay)
    (x y a b : Int) : Prop where
  initialised : Effect.initialise entries o = .ok loaded
  storedIn : loaded.balance t.query.tokenIn = .ok x
  storedOut : loaded.balance t.query.tokenOut = .ok y
  leftIn : fadeLeft t loaded t.query.tokenIn .incoming period = .ok a
  leftOut : fadeLeft t loaded t.query.tokenOut .outgoing period = .ok b

/-- The sheet with which a walk comes to the fees and the swap. -/
def Sheet.widened (f : Figures) (o : Overlay) (x y : Int) : Sheet :=
  (Sheet.start f o).withBalances x y

theorem pass_of_loads (hf : Layered entries (.decay period) first checks fade tolls last)
    (hl : Loads t entries period o loaded x y a b) :
    pass t (first :: (checks ++ fade :: (tolls ++ [last]))) (.start f o) =
      conditions t checks >>= fun _ =>
        pass t (tolls ++ [last]) (.widened f loaded (x + a) (withoutOffset y b)) >>=
          conclude t (some (.fade period)) >>= conclude t (some .book) := by
  have hload : Effect.of t first.pc (.dynamicBalances entries) (.start f o) =
      .ok (.wrapping (.widened f loaded x y) .book) :=
    effect_of_load hl.initialised hl.storedIn hl.storedOut
  have hdecay : Effect.of t fade.pc (.decay period) (.widened f loaded x y) =
      .ok (.wrapping (.widened f loaded (x + a) (withoutOffset y b)) (.fade period)) :=
    Outcome.bind_eq_ok.2 ⟨a, hl.leftIn, Outcome.bind_eq_ok.2 ⟨b, hl.leftOut, rfl⟩⟩
  rw [pass_cons hf.loads, hload]
  show pass t (checks ++ fade :: (tolls ++ [last])) (.widened f loaded x y) >>=
    conclude t (some .book) = _
  rw [pass_checks hf.checks, pass_cons hf.layers, hdecay, bind_assoc]
  rfl

/-- The work that is left behind checks and fees and the swap can be done: amounts fade, and are
booked if the balances were loaded from what is stored. -/
theorem exists_settled (hperiod : 0 < period) (hlast : last.opcode.isSwap = true)
    (htolls : ∀ r ∈ tolls, r.opcode.isToll = true) (hf : f.IsSound) {widenedIn : Int}
    (hin : 0 ≤ x ∧ 0 ≤ widenedIn) (hout : 0 ≤ y ∧ 0 ≤ b) {p : Option Pending}
    (hp : p = none ∨ p = some .book ∧ loaded.balance? t.query.tokenIn = some x ∧
      loaded.balance? t.query.tokenOut = some y)
    (hv : pass t (tolls ++ [last]) (.widened f loaded widenedIn (withoutOffset y b)) = .ok v) :
    ∃ o', (conclude t (some (.fade period)) v >>= conclude t p) = .ok (v.writing o') := by
  have hparts := parts_of_tolls htolls hlast
  obtain ⟨hcomputed, hcovered⟩ := covers_of_pass hlast htolls hv
  have hcovered' : v.figures.amountOut ≤ y := by
    have : v.figures.amountOut ≤ withoutOffset y b := hcovered
    unfold withoutOffset at this
    omega
  have hleft : 0 ≤ withoutOffset y b := by
    simp only [withoutOffset]
    omega
  have hamounts := figures_isSound_of_pass hparts ⟨hin.2, hleft, hf.amountIn, hf.amountOut⟩ hv
  -- fading amounts do not touch the balances
  have hoverlay : v.overlay = loaded := overlay_of_pass hparts hv
  obtain ⟨o₁, ho₁⟩ :=
    settleFade_of_nonneg (t := t) hperiod hamounts.amountIn hamounts.amountOut v.overlay
  have hfade := settle_fade hcomputed ho₁
  rcases hp with rfl | ⟨rfl, hx, hy⟩
  · exact ⟨o₁, Outcome.bind_eq_ok.2 ⟨_, hfade, rfl⟩⟩
  · have hsame := (settled_of_settle hfade).sameBalances (by simp)
    obtain ⟨o₂, ho₂⟩ := settleBook_of_covered (q := t.query) (f := v.figures) (o := o₁)
      ((hsame.balance? _).trans (hoverlay ▸ hx)) ((hsame.balance? _).trans (hoverlay ▸ hy))
      hcovered' (Int.add_nonneg hin.1 hamounts.amountIn)
    refine ⟨o₂, Outcome.bind_eq_ok.2 ⟨_, hfade, ?_⟩⟩
    exact settle_book (s := v.writing o₁) hcomputed ho₂

theorem exists_booked (hf : Layered entries (.decay period) first checks fade tolls last)
    (hl : Loads t entries period o loaded x y a b) (hs : (Sheet.start f o).IsSound)
    (hv : pass t (tolls ++ [last]) (.widened f loaded (x + a) (withoutOffset y b)) = .ok v) :
    ∃ o', (conclude t (some (.fade period)) v >>= conclude t (some .book)) =
      .ok (v.writing o') := by
  have hsound := hs.overlay.initialise hl.initialised
  have hx := hsound.balance hl.storedIn
  have hy := hsound.balance hl.storedOut
  have ha := fadeLeft_nonneg hl.leftIn
  exact exists_settled (Instruction.parse_eq_ok hf.layers).2 hf.swaps hf.tolls hs.figures
    ⟨hx, Int.add_nonneg hx ha⟩ ⟨hy, fadeLeft_nonneg hl.leftOut⟩
    (Or.inr ⟨rfl, Overlay.balance_eq_ok_iff.1 hl.storedIn,
      Overlay.balance_eq_ok_iff.1 hl.storedOut⟩) hv

/-- **What a walk answers** depends on the widened balances, and not on the state that they come
from. -/
theorem writing_pass (hf : Layered entries (.decay period) first checks fade tolls last)
    (hl : Loads t entries period o loaded x y a b) (hs : (Sheet.start f o).IsSound)
    (o₀ : Overlay) :
    Sheet.writing o₀ <$> pass t (first :: (checks ++ fade :: (tolls ++ [last]))) (.start f o) =
      conditions t checks >>= fun _ =>
        pass t (tolls ++ [last]) (.widened f o₀ (x + a) (withoutOffset y b)) := by
  have hinner : pass t (tolls ++ [last]) (.widened f o₀ (x + a) (withoutOffset y b)) =
      Sheet.writing o₀ <$>
        pass t (tolls ++ [last]) (.widened f loaded (x + a) (withoutOffset y b)) :=
    pass_writing hf.parts o₀ (.widened f loaded (x + a) (withoutOffset y b))
  rw [pass_of_loads hf hl, hinner]
  cases conditions t checks with
  | error f => rfl
  | ok _ =>
    cases hv : pass t (tolls ++ [last]) (.widened f loaded (x + a) (withoutOffset y b)) with
    | error f => rfl
    | ok v =>
      obtain ⟨o', ho'⟩ := exists_booked hf hl hs hv
      show Sheet.writing o₀ <$> (conclude t (some (.fade period)) v >>= conclude t (some .book)) = _
      rw [ho']
      rfl

/-! ### What a trade leaves -/

/-- What a trade that a walk ends with leaves behind: its amounts are booked on the balances that
were loaded, and have just been added to what was left of the fading amounts of the reverse trade.
-/
structure Leaves (t : Terms) (period : Nat) (loaded : Overlay) (x y : Int) (u : Sheet) : Prop where
  balance? : ∀ token, u.overlay.balance? token =
    if token = t.query.tokenOut then some (y - u.figures.amountOut)
    else if token = t.query.tokenIn then some (x + u.figures.amountIn) else loaded.balance? token
  fades : ∃ c d hc hd, fadeLeft t loaded t.query.tokenOut .incoming period = .ok c ∧
    fadeLeft t loaded t.query.tokenIn .outgoing period = .ok d ∧
    u.overlay.fade? t.query.tokenOut .incoming = some ⟨c + u.figures.amountOut, t.now, hc⟩ ∧
    u.overlay.fade? t.query.tokenIn .outgoing = some ⟨d + u.figures.amountIn, t.now, hd⟩

/-- **A walk that computes a trade** leaves it behind. -/
theorem leaves_of_pass (hf : Layered entries (.decay period) first checks fade tolls last)
    (h : pass t (first :: (checks ++ fade :: (tolls ++ [last]))) (.start f o) = .ok u)
    (hc : u.isComputed = true) :
    ∃ loaded x y a b, Loads t entries period o loaded x y a b ∧ Leaves t period loaded x y u := by
  obtain ⟨loaded, x, y, v, o₂, hinit, hx, hy, hv, hcomputed, hbooked, rfl⟩ :=
    loaded_of_pass hf.loads h hc
  rw [pass_checks hf.checks] at hv
  obtain ⟨_, -, hv⟩ := Outcome.bind_eq_ok.1 hv
  obtain ⟨e, w, he, hw, hv⟩ := effect_of_pass hf.layers hv
  obtain ⟨a, leftIn, he⟩ := Outcome.bind_eq_ok.1 he
  obtain ⟨b, leftOut, he⟩ := Outcome.bind_eq_ok.1 he
  cases he
  have hoverlay : w.overlay = loaded := overlay_of_pass hf.parts hw
  have hfade := settled_of_conclude hv
  have hsame := hfade.sameBalances (by simp)
  refine ⟨loaded, x, y, a, b, ⟨hinit, hx, hy, leftIn, leftOut⟩, ?_⟩
  cases hfade with
  | idle idle => rw [hcomputed] at idle; cases idle
  | fade _ faded =>
    obtain ⟨c, d, hincoming, houtgoing, hleftIn, hleftOut, rfl⟩ := settleFade_eq_ok faded
    obtain ⟨-, hbalance⟩ :=
      balance?_of_booked hx hy (fun token => hoverlay ▸ hsame.balance? token) hbooked
    have hrest := sameRest_of_settleBook hbooked
    rw [hoverlay] at hleftIn hleftOut
    refine ⟨hbalance, c, d, hincoming, houtgoing, hleftIn, hleftOut, ?_, ?_⟩
    · refine (hrest.fade? _ _).trans ?_
      rw [Overlay.fade?_setFade, if_neg (by simp), Overlay.fade?_setFade, if_pos ⟨rfl, rfl⟩]
      rfl
    · refine (hrest.fade? _ _).trans ?_
      rw [Overlay.fade?_setFade, if_pos ⟨rfl, rfl⟩]
      rfl

/-- After a trade, a walk back at once loads what was stored then. -/
theorem Leaves.initialised (h : Leaves t period loaded x y u) {o₂ : Overlay}
    (hinit : Effect.initialise entries o = .ok loaded)
    (hreads : ∀ token, o₂.balance? token = u.overlay.balance? token) :
    Effect.initialise entries o₂ = .ok o₂ := by
  refine initialise_of_hasBalance fun e he => ?_
  have hloaded : (loaded.balance? e.1).isSome = true := by
    obtain ⟨-, -, hheld⟩ := initialise_eq_ok hinit
    rw [hheld, Overlay.held, Overlay.listed?]
    obtain ⟨n, hn⟩ := Option.isSome_iff_exists.1
      (List.lookup_isSome_iff.2 ⟨e, he, beq_self_eq_true e.1⟩)
    rw [hn]
    cases o.balance? e.1 <;> rfl
  rw [Overlay.hasBalance, hreads, h.balance?]
  split
  · rfl
  · split
    · rfl
    · exact hloaded

/-- **Trading back**: before the trade and right after it, a walk back finds the same widened
balances. -/
theorem Leaves.exists_loads (h : Leaves t period loaded x y u) (hperiod : 0 < period)
    (hl : Loads t entries period o loaded x y a b) (t' : Terms) (hnow : t'.now = t.now)
    (hin : t'.query.tokenIn = t.query.tokenOut) (hout : t'.query.tokenOut = t.query.tokenIn)
    (hne : t.query.tokenIn ≠ t.query.tokenOut) {o₂ : Overlay}
    (hbalance : ∀ token, o₂.balance? token = u.overlay.balance? token)
    (hfade : ∀ token side, o₂.fade? token side = u.overlay.fade? token side) :
    ∃ x' y' a' b' x₂ y₂ a₂ b₂, Loads t' entries period o loaded x' y' a' b' ∧
      Loads t' entries period o₂ o₂ x₂ y₂ a₂ b₂ ∧ x₂ + a₂ = x' + a' ∧
      withoutOffset y₂ b₂ = withoutOffset y' b' := by
  obtain ⟨c, d, hc, hd, hleftIn, hleftOut, hincoming, houtgoing⟩ := h.fades
  refine ⟨y, x, c, d, y - u.figures.amountOut, x + u.figures.amountIn,
    c + u.figures.amountOut, d + u.figures.amountIn, ⟨hl.initialised, ?_, ?_, ?_, ?_⟩,
    ⟨h.initialised hl.initialised hbalance, ?_, ?_, ?_, ?_⟩, by omega, ?_⟩
  · rw [hin]; exact hl.storedOut
  · rw [hout]; exact hl.storedIn
  · rw [hin, fadeLeft_congr hnow rfl]; exact hleftIn
  · rw [hout, fadeLeft_congr hnow rfl]; exact hleftOut
  · rw [hin, Overlay.balance_eq_ok_iff, hbalance, h.balance?, if_pos rfl]
  · rw [hout, Overlay.balance_eq_ok_iff, hbalance, h.balance?, if_neg hne, if_pos rfl]
  · rw [hin, fadeLeft_congr hnow (hfade _ _)]
    exact fadeLeft_of_fresh hperiod hincoming
  · rw [hout, fadeLeft_congr hnow (hfade _ _)]
    exact fadeLeft_of_fresh hperiod houtgoing
  · -- the clamp at zero cuts off the same
    simp only [withoutOffset]
    omega

end Walk

/-! ### Requests to trade back -/

namespace Engine

open Program

variable {e : Engine} {o : Order} {entries : Entries} {period : Nat}

/-- A call answers the same before and after another call if passes of its program come to the same,
up to what they write. -/
theorem answer_serve_of_pass {records : List Record} {c d : Call}
    (hp : IsStraight e.instructions c.order.program records)
    (hends : EndsInOnlySwap e.instructions c.order.program) (o₀ : Overlay)
    (h : ∀ q amount, query c.order c.order.hash c.request = .ok (q, amount) →
      let pass (o : Overlay) := Walk.Sheet.writing o₀ <$>
        Walk.pass ((e.facing c).terms c.order q c.now false) records
          (.start (figures c.request.isExactIn amount) o)
      pass ((e.serve d).store.overlay c.order.hash) = pass (e.store.overlay c.order.hash)) :
    (e.serve d).answer c = e.answer c := by
  have hp' : IsStraight (e.serve d).instructions c.order.program records := by
    rwa [serve_instructions]
  have hends' : EndsInOnlySwap (e.serve d).instructions c.order.program := by
    rwa [serve_instructions]
  have hterms (q : Query) : ((e.serve d).facing c).terms c.order q c.now false =
      (e.facing c).terms c.order q c.now false := by
    rw [serve_eq]
    rfl
  rw [answer_straight hp' hends' o₀, answer_straight hp hends o₀, accept_serve]
  refine Outcome.bind_congr fun hash hhash => ?_
  obtain rfl := accept_eq_ok hhash
  refine Outcome.bind_congr fun qa hq => ?_
  exact congrArg (· >>= fill c.request qa.1.order) (hterms qa.1 ▸ h qa.1 qa.2 hq)

theorem back_unmoved_of_isSound (he : e.IsSound) (hne : o.token0 ≠ o.token1)
    (hp : IsFading e.instructions o.program entries period) {swap back : Call} {f : Fill}
    (hswap : swap.order = o ∧ swap.isSwap = true) (hback : back.order = o ∧ back.now = swap.now)
    (hanswer : e.answer swap = .ok f)
    (hreverse : requestAddress "token_in" back.request.tokenIn =
      requestAddress "token_out" swap.request.tokenOut) :
    (e.serve swap).answer back = e.answer back := by
  obtain ⟨horder, hswap⟩ := hswap
  obtain ⟨rfl, hnow⟩ := hback
  obtain ⟨first, checks, fade, tolls, last, hf, hv⟩ := hp
  have hperiod : 0 < period := (Instruction.parse_eq_ok hf.layers).2
  obtain ⟨q, amount, s, hpassed⟩ := passed_of_answer (horder ▸ hf.isStraight rfl hv) hswap hanswer
  obtain ⟨loaded, x, y, a, b, hl, hleaves⟩ := Walk.leaves_of_pass hf hpassed.pass hpassed.computed
  have hbalance := hpassed.balance?
  have hfade := hpassed.fade?
  obtain ⟨-, -, htrades, -, -, htokenOut⟩ := query_eq_ok hpassed.query
  rw [horder] at hl hleaves hbalance hfade htrades
  refine answer_serve_of_pass (hf.isStraight rfl hv) (hf.endsInOnlySwap rfl hv) s.overlay
    fun q' amount' hq' => ?_
  obtain ⟨-, -, htrades', -, htokenIn', -⟩ := query_eq_ok hq'
  have hin : q'.tokenIn = q.tokenOut :=
    Except.ok.inj (htokenIn'.symm.trans (hreverse.trans htokenOut))
  have hout : q'.tokenOut = q.tokenIn := by
    rw [hin] at htrades'
    exact eq_of_trades_back htrades htrades' hne
  obtain ⟨x', y', a', b', x₂, y₂, a₂, b₂, hl', hl₂, heqIn, heqOut⟩ :=
    hleaves.exists_loads hperiod hl ((e.facing back).terms back.order q' back.now false) hnow hin
      hout (ne_of_trades htrades hne) hbalance hfade
  have hs' := isSound_start he hq'
  have hs₂ := isSound_start (he.serve swap) hq'
  dsimp only
  rw [Walk.writing_pass hf hl₂ hs₂, Walk.writing_pass hf hl' hs', heqIn, heqOut]

/-- **Trading back at once** is priced as before the trade: an order whose program lets the amounts
of its trades fade, at an engine that starts with an empty store, after any calls.  If a swap is
answered, then a request for the reverse trade at the same time, for any amount of either token, is
answered the same before the swap and right after it, with the same amounts or the same fault. -/
theorem back_unmoved {maker token0 token1 program flags : Datum}
    (hmade : Order.make maker token0 token1 program flags = .ok o)
    (hp : IsFading e.instructions o.program entries period) (hempty : e.store = .empty)
    (calls : List Call) {swap back : Call} {f : Fill}
    (hswap : swap.order = o ∧ swap.isSwap = true) (hback : back.order = o ∧ back.now = swap.now)
    (hanswer : (e.run calls).answer swap = .ok f)
    (hreverse : requestAddress "token_in" back.request.tokenIn =
      requestAddress "token_out" swap.request.tokenOut) :
    ((e.run calls).serve swap).answer back = (e.run calls).answer back := by
  have he : e.IsSound := by
    intro order
    rw [hempty]
    exact Snapshot.isSound_empty
  exact back_unmoved_of_isSound (he.run calls) (tokens_ne_of_make hmade)
    (by rwa [run_instructions]) hswap hback hanswer hreverse

/-! ### A pool whose trades fade -/

/-- The program `feePool` with amounts that fade over 300 seconds. -/
def fadingPool : Bytes := feePool.take 107 ++ [0x18, 4, 0, 0, 1, 44] ++ feePool.drop 107

theorem isFading_fadingPool : IsFading .standard fadingPool feePoolEntries 300 := by
  let first : Record := ⟨0, .dynamicBalances, (fadingPool.drop 2).take 105⟩
  let fade : Record := ⟨107, .decay, [0, 0, 1, 44]⟩
  let fee : Record := ⟨113, .flatFeeIn, [0, 30]⟩
  let last : Record := ⟨117, .constantProduct, fadingPool.drop 119⟩
  have hvalid : (validate .standard fadingPool).toOption = some [first, fade, fee, last] := by
    decide +kernel
  have hfirst : first.parse.toOption = some (.dynamicBalances feePoolEntries) := by decide +kernel
  refine ⟨first, [], fade, [fee], last,
    ⟨Outcome.eq_ok_of_toOption hfirst, by simp, rfl, ?_, rfl⟩, Outcome.eq_ok_of_toOption hvalid⟩
  intro r hr
  rw [List.mem_singleton.1 hr]
  rfl

/-- Who asks for 50 back right after a swap of 100 is told what would have been told before it. -/
theorem back_unmoved_fadingPool :
    Order.make (.text (addressOf 'c')) (.text (addressOf 'a')) (.text (addressOf 'b'))
        (.bytes fadingPool) (.int 0) = .ok (poolOrder fadingPool) ∧
      IsFading feePoolEngine.instructions (poolOrder fadingPool).program feePoolEntries 300 ∧
      feePoolEngine.store = .empty ∧
      ∃ f, feePoolEngine.answer (poolCall fadingPool true true 'a' 'b' 100) = .ok f ∧
        (feePoolEngine.serve (poolCall fadingPool true true 'a' 'b' 100)).answer
            (poolCall fadingPool true false 'b' 'a' 50) =
          feePoolEngine.answer (poolCall fadingPool true false 'b' 'a' 50) := by
  have hanswered : (feePoolEngine.answer
      (poolCall fadingPool true true 'a' 'b' 100)).toOption.isSome = true := by
    decide +kernel
  obtain ⟨f, hf⟩ := Option.isSome_iff_exists.1 hanswered
  replace hf := Outcome.eq_ok_of_toOption hf
  exact ⟨make_poolOrder fadingPool, isFading_fadingPool, rfl, f, hf,
    back_unmoved (e := feePoolEngine) (make_poolOrder fadingPool) isFading_fadingPool rfl []
      ⟨rfl, rfl⟩ ⟨rfl, rfl⟩ hf rfl⟩

end Engine

end SwapMachine
