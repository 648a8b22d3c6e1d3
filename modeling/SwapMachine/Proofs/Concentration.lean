import SwapMachine.Proofs.PoolHistory
import SwapMachine.Proofs.Straight

/-!
# SwapMachine.Proofs.Concentration — the scale of concentrated liquidity does not fall

A program that concentrates liquidity puts virtual balances on top of the real ones.  They move with
the scale, which each swap computes anew from the balances after it.

* `Backs`: the invariant that links the scale to the balances: its square is no more than the
  product of the balances with the virtual ones on top.  A fair trade raises the scale and keeps the
  invariant (`Backs.of_fair`).
* `Walk.scales_of_pass`: what a walk that computes a trade does to the scale.
* `Engine.scale_never_falls`: over any calls, the scale starts at no less than the liquidity that
  the program gives, and does not fall.
-/

namespace SwapMachine

/-- A valid program that loads stored balances, checks, concentrates liquidity, checks or charges
fees, and swaps along the constant product. -/
def Program.IsConcentrated (set : InstructionSet) (program : Bytes) (entries : Entries)
    (c : Concentration) : Prop :=
  ∃ first checks around tolls last,
    Layered entries (.concentrate c) first checks around tolls last ∧
    (∃ alpha : Nat, (alpha : Int) = FixedPoint.one ∧ last.parse = .ok (.constantProduct alpha)) ∧
    validate set program = .ok (first :: (checks ++ around :: (tolls ++ [last])))

/-! ### Scales and balances -/

namespace Curve

open Number

variable {liquidity scale scale' x dx y dy a b : Int}

/-- A balance with a virtual one on top that has moved with the scale. -/
def lifted (liquidity scale balance delta : Int) : Int :=
  balance + floorDiv (delta * scale) liquidity

/-- A scale that is no less than the liquidity to start with, and the square of which is no more
than the product of two balances with the virtual ones on top. -/
structure Backs (liquidity scale x dx y dy : Int) : Prop where
  above : liquidity ≤ scale
  realIn : 0 ≤ x
  realOut : 0 ≤ y
  square : scale * scale ≤ lifted liquidity scale x dx * lifted liquidity scale y dy

theorem lifted_mono (hl : 0 < liquidity) (hd : 0 ≤ dx) (h : scale ≤ scale') :
    lifted liquidity scale x dx ≤ lifted liquidity scale' x dx :=
  Int.add_le_add_left (floorDiv_le_floorDiv hl (Int.mul_le_mul_of_nonneg_left h hd)) x

theorem lifted_add (liquidity scale x dx a : Int) :
    lifted liquidity scale (x + a) dx = lifted liquidity scale x dx + a := by
  unfold lifted
  omega

theorem lifted_nonneg (hl : 0 < liquidity) (hx : 0 ≤ x) (hd : 0 ≤ dx) (hs : 0 ≤ scale) :
    0 ≤ lifted liquidity scale x dx :=
  Int.add_nonneg hx (floorDiv_nonneg (Int.mul_nonneg hd hs) hl)

theorem Backs.symm (h : Backs liquidity scale x dx y dy) : Backs liquidity scale y dy x dx :=
  ⟨h.above, h.realOut, h.realIn, Int.mul_comm (lifted _ _ x _) _ ▸ h.square⟩

/-- The scale before any trade is the liquidity to start with, and virtual balances are as given. -/
theorem Backs.start (hl : 0 < liquidity) (hx : 0 ≤ x) (hy : 0 ≤ y)
    (h : liquidity * liquidity ≤ (x + dx) * (y + dy)) : Backs liquidity liquidity x dx y dy := by
  have hlifted (z d : Int) : lifted liquidity liquidity z d = z + d := by
    rw [lifted, floorDiv, Int.mul_fdiv_cancel d (Int.ne_of_gt hl)]
  exact ⟨Int.le_refl _, hx, hy, by rwa [hlifted, hlifted]⟩

/-- **A fair trade** on the lifted balances, after which the scale is the root of their product,
raises the scale, and it stays backed. -/
theorem Backs.of_fair (h : Backs liquidity scale x dx y dy) (hl : 0 < liquidity) (hdx : 0 ≤ dx)
    (hdy : 0 ≤ dy) (hfair : Fair (lifted liquidity scale x dx) (lifted liquidity scale y dy) a b)
    (hcovered : b ≤ y) (hnonneg : 0 ≤ scale')
    (hroot : scale' * scale' ≤
      (lifted liquidity scale x dx + a) * (lifted liquidity scale y dy - b))
    (hnext : (lifted liquidity scale x dx + a) * (lifted liquidity scale y dy - b) <
      (scale' + 1) * (scale' + 1)) :
    scale ≤ scale' ∧ Backs liquidity scale' (x + a) dx (y - b) dy := by
  have habove := h.above
  have hpays := hfair.pays
  have hrises : scale ≤ scale' := by
    by_contra hlt
    have hsquare : (scale' + 1) * (scale' + 1) ≤ scale * scale :=
      Int.mul_self_le_mul_self (by omega) (by omega)
    have := h.square
    have := hfair.mul_le_mul
    omega
  have hx : 0 ≤ lifted liquidity scale x dx := lifted_nonneg hl h.realIn hdx (by omega)
  have hright : 0 ≤ lifted liquidity scale y dy - b := Int.sub_nonneg.2 (Int.le_of_lt hfair.leaves)
  have hin := lifted_mono (x := x + a) hl hdx hrises
  have hout := lifted_mono (x := y - b) hl hdy hrises
  rw [lifted_add] at hin
  rw [Int.sub_eq_add_neg, lifted_add, ← Int.sub_eq_add_neg] at hout
  have hrealIn := h.realIn
  refine ⟨hrises, by omega, by omega, by omega, Int.le_trans hroot ?_⟩
  exact Int.mul_le_mul hin hout hright (by omega)

end Curve

/-- Where a program concentrates liquidity, balances are lifted by the scale that is stored, or by
the liquidity to start with. -/
theorem effectiveBalance_eq {liquidity : Int} (hl : 0 < liquidity) (balance delta : Int)
    (scale : Option Int) : effectiveBalance balance delta scale liquidity =
      .ok (Curve.lifted liquidity (scale.getD liquidity) balance delta) := by
  cases scale with
  | none =>
    refine congrArg Except.ok ?_
    rw [Option.getD_none, Curve.lifted, Number.floorDiv, Int.mul_fdiv_cancel _ (Int.ne_of_gt hl)]
  | some scale =>
    show (FixedPoint.divideDown (delta * scale) liquidity >>= _) = _
    rw [FixedPoint.divideDown, if_neg (Int.ne_of_gt hl)]
    rfl

/-- The scale of an order is backed by what the order has of two tokens. -/
def Overlay.IsBacked (c : Concentration) (entries : Entries) (o : Overlay) (s t : String) : Prop :=
  ∃ x y dx dy, o.held entries s = some x ∧ o.held entries t = some y ∧
    Walk.Effect.virtualBalance c s = .ok dx ∧ Walk.Effect.virtualBalance c t = .ok dy ∧
    Curve.Backs c.liquidity (o.scale?.getD c.liquidity) x dx y dy

namespace Overlay

variable {c : Concentration} {entries : Entries} {o o' : Overlay} {s t : String}

theorem IsBacked.symm (h : IsBacked c entries o s t) : IsBacked c entries o t s := by
  obtain ⟨x, y, dx, dy, hx, hy, hdx, hdy, hb⟩ := h
  exact ⟨y, x, dy, dx, hy, hx, hdy, hdx, hb.symm⟩

theorem IsBacked.congr (h : IsBacked c entries o s t)
    (hbalance : ∀ token, o'.balance? token = o.balance? token) (hscale : o'.scale? = o.scale?) :
    IsBacked c entries o' s t := by
  obtain ⟨x, y, dx, dy, hx, hy, hdx, hdy, hb⟩ := h
  refine ⟨x, y, dx, dy, ?_, ?_, hdx, hdy, hscale ▸ hb⟩
  · rw [held, hbalance]; exact hx
  · rw [held, hbalance]; exact hy

/-- Writing a scale leaves the balances alone. -/
theorem scale_of_setScale {scale : Int} (h : o.setScale scale = .ok o') :
    o'.scale? = some scale ∧ ∀ token, o'.balance? token = o.balance? token := by
  unfold setScale at h
  split at h
  · cases h
  · cases h
    exact ⟨rfl, fun _ => rfl⟩

end Overlay

/-! ### One trade -/

namespace Walk

open Curve Program

variable {t : Terms} {entries : Entries} {c : Concentration} {first around last : Record}
  {checks tolls : List Record} {f : Figures} {o : Overlay} {v u : Sheet} {x y scale : Int}

/-- The scale after a trade is the root of the product of the balances after it. -/
theorem scaleAfter_eq_ok (h : Pending.scaleAfter f x y = .ok scale) :
    0 ≤ scale ∧ scale * scale ≤ (x + f.amountIn) * (y - f.amountOut) ∧
      (x + f.amountIn) * (y - f.amountOut) < (scale + 1) * (scale + 1) := by
  unfold Pending.scaleAfter at h
  dsimp only at h
  split at h
  · cases h
  · split at h
    · cases h
    · rename_i hproduct
      cases h
      obtain ⟨n, hn⟩ := Int.eq_ofNat_of_zero_le (Int.not_lt.1 hproduct)
      rw [hn, Int.toNat_natCast]
      have hle := Number.isqrt_mul_self_le n
      have hlt := Number.lt_succ_isqrt_mul_self n
      exact ⟨Int.natCast_nonneg _, by exact_mod_cast hle, by exact_mod_cast hlt⟩

/-- What a walk that concentrates liquidity and computes a trade has come to: the trade is fair on
the lifted balances, and is booked on the real ones. -/
structure Scales (t : Terms) (entries : Entries) (c : Concentration) (o : Overlay) (u : Sheet)
    (x dx y dy scale : Int) : Prop where
  heldIn : o.held entries t.query.tokenIn = some x
  heldOut : o.held entries t.query.tokenOut = some y
  virtualIn : Effect.virtualBalance c t.query.tokenIn = .ok dx
  virtualOut : Effect.virtualBalance c t.query.tokenOut = .ok dy
  fair : 0 ≤ lifted c.liquidity (o.scale?.getD c.liquidity) x dx →
    Fair (lifted c.liquidity (o.scale?.getD c.liquidity) x dx)
      (lifted c.liquidity (o.scale?.getD c.liquidity) y dy) u.figures.amountIn u.figures.amountOut
  covered : u.figures.amountOut ≤ y
  root : Pending.scaleAfter u.figures (lifted c.liquidity (o.scale?.getD c.liquidity) x dx)
    (lifted c.liquidity (o.scale?.getD c.liquidity) y dy) = .ok scale
  scale? : u.overlay.scale? = some scale
  balance? : ∀ token, u.overlay.balance? token =
    if token = t.query.tokenOut then some (y - u.figures.amountOut)
    else if token = t.query.tokenIn then some (x + u.figures.amountIn) else o.held entries token

theorem scales_of_pass (hc : Layered entries (.concentrate c) first checks around tolls last)
    {alpha : Nat} (halpha : (alpha : Int) = FixedPoint.one)
    (hlast : last.parse = .ok (.constantProduct alpha))
    (h : pass t (first :: (checks ++ around :: (tolls ++ [last]))) (.start f o) = .ok u)
    (hcomputed : u.isComputed = true) :
    ∃ x dx y dy scale, Scales t entries c o u x dx y dy scale := by
  have hl : 0 < (c.liquidity : Int) := Int.natCast_pos.2 (Instruction.parse_eq_ok hc.layers).2.2
  obtain ⟨loaded, x, y, v, o', hinit, hx, hy, hv, hdone, hbooked, rfl⟩ :=
    loaded_of_pass hc.loads h hcomputed
  have hheld : ∀ token, loaded.balance? token = o.held entries token := (initialise_eq_ok hinit).2.2
  have hstored : loaded.scale? = o.scale? := (sameRest_of_initialise hinit).scale?
  rw [pass_checks hc.checks] at hv
  obtain ⟨_, -, hv⟩ := Outcome.bind_eq_ok.1 hv
  obtain ⟨e, w, he, hw, hv⟩ := effect_of_pass hc.layers hv
  obtain ⟨dx, ofIn, he⟩ := Outcome.bind_eq_ok.1 he
  obtain ⟨lx, virtualIn, he⟩ := Outcome.bind_eq_ok.1 he
  obtain ⟨dy, ofOut, he⟩ := Outcome.bind_eq_ok.1 he
  obtain ⟨ly, virtualOut, he⟩ := Outcome.bind_eq_ok.1 he
  cases he
  have hoverlay : w.overlay = loaded := overlay_of_pass hc.parts hw
  have hlx := (effectiveBalance_eq hl x dx loaded.scale?).symm.trans virtualIn
  have hly := (effectiveBalance_eq hl y dy loaded.scale?).symm.trans virtualOut
  rw [hstored] at hlx hly
  cases hlx
  cases hly
  cases settled_of_conclude hv with
  | idle idle => rw [hdone] at idle; cases idle
  | unscaled idle => cases idle.symm.trans hdone
  | @scale _ _ _ _ _ scale o₁ computed root scaled =>
    obtain ⟨hscale, hbalances⟩ := Overlay.scale_of_setScale scaled
    obtain ⟨hcovered, hbalance⟩ :=
      balance?_of_booked hx hy (fun token => hoverlay ▸ hbalances token) hbooked
    rw [Overlay.balance_eq_ok_iff, hheld] at hx hy
    refine ⟨x, dx, y, dy, scale, hx, hy, ofIn, ofOut, fun hopen => ?_, hcovered, root, ?_, ?_⟩
    · exact (prices_of_pass halpha hlast hc.tolls ⟨rfl, hopen⟩ hw).fair computed
    · exact (sameRest_of_settleBook hbooked).scale?.trans hscale
    · intro token
      exact (hbalance token).trans (hheld token ▸ rfl)

/-- **A walk that computes a trade** raises the scale, which stays backed. -/
theorem Scales.rises {dx dy : Int} (h : Scales t entries c o u x dx y dy scale)
    (hl : 0 < (c.liquidity : Int)) (hne : t.query.tokenIn ≠ t.query.tokenOut)
    (hb : o.IsBacked c entries t.query.tokenIn t.query.tokenOut) :
    o.scale?.getD c.liquidity ≤ scale ∧
      u.overlay.IsBacked c entries t.query.tokenIn t.query.tokenOut := by
  obtain ⟨x', y', dx', dy', hx, hy, hdx, hdy, hbacks⟩ := hb
  obtain rfl := Option.some.inj (hx.symm.trans h.heldIn)
  obtain rfl := Option.some.inj (hy.symm.trans h.heldOut)
  obtain rfl := Except.ok.inj (hdx.symm.trans h.virtualIn)
  obtain rfl := Except.ok.inj (hdy.symm.trans h.virtualOut)
  have hin := virtualBalance_nonneg hdx
  have hout := virtualBalance_nonneg hdy
  have habove := hbacks.above
  have hfair := h.fair (lifted_nonneg hl hbacks.realIn hin (by omega))
  obtain ⟨hnonneg, hroot, hnext⟩ := scaleAfter_eq_ok h.root
  obtain ⟨hrises, hafter⟩ := hbacks.of_fair hl hin hout hfair h.covered hnonneg hroot hnext
  refine ⟨hrises, x' + u.figures.amountIn, y' - u.figures.amountOut, dx', dy', ?_, ?_, hdx, hdy, ?_⟩
  · rw [Overlay.held, h.balance?, if_neg hne, if_pos rfl]
    rfl
  · rw [Overlay.held, h.balance?, if_pos rfl]
    rfl
  · rwa [h.scale?]

end Walk

/-! ### Many calls -/

namespace Engine

open Program Number

variable {e : Engine} {o : Order} {entries : Entries} {c : Concentration} {d : Call}

/-- The scale that is stored for an order. -/
def scale (e : Engine) (o : Order) : Option Int := (e.store.snapshot o.hash).scale

/-- What is stored for an order backs its scale. -/
def IsBacked (e : Engine) (o : Order) (entries : Entries) (c : Concentration) : Prop :=
  (e.store.overlay o.hash).IsBacked c entries o.token0 o.token1

/-- The scale that is stored for an order is no less in the second engine than in the first, and no
less than the given liquidity. -/
structure KeepsScale (o : Order) (liquidity : Int) (e e' : Engine) : Prop where
  rises : ∀ scale, e.scale o = some scale → ∃ scale', e'.scale o = some scale' ∧ scale ≤ scale'
  above : ∀ scale, e'.scale o = some scale → liquidity ≤ scale

theorem IsBacked.above (h : e.IsBacked o entries c) {scale : Int} (hs : e.scale o = some scale) :
    (c.liquidity : Int) ≤ scale := by
  obtain ⟨_, _, _, _, -, -, -, -, hb⟩ := h
  have hread : (e.store.overlay o.hash).scale? = some scale := hs
  rw [hread] at hb
  exact hb.above

/-- A swap that is answered raises the scale. -/
theorem scale_of_answer (hp : IsConcentrated e.instructions o.program entries c)
    (hne : o.token0 ≠ o.token1) (hb : e.IsBacked o entries c) (ho : d.order = o)
    (hswap : d.isSwap = true) {f : Fill} (h : e.answer d = .ok f) :
    ∃ scale, (e.serve d).scale o = some scale ∧ (e.scale o).getD c.liquidity ≤ scale ∧
      (e.serve d).IsBacked o entries c := by
  subst ho
  obtain ⟨first, checks, around, tolls, last, hc, ⟨alpha, halpha, hlast⟩, hv⟩ := hp
  have hl : 0 < (c.liquidity : Int) := Int.natCast_pos.2 (Instruction.parse_eq_ok hc.layers).2.2
  obtain ⟨q, amount, s, hpassed⟩ := passed_of_answer (hc.isStraight rfl hv) hswap h
  obtain ⟨x, dx, y, dy, scale, hscales⟩ :=
    Walk.scales_of_pass hc halpha hlast hpassed.pass hpassed.computed
  have htrades := (query_eq_ok hpassed.query).2.2.1
  -- the trade goes from the first token of the pair to the second, or back
  have horient (o : Overlay) : o.IsBacked c entries d.order.token0 d.order.token1 ↔
      o.IsBacked c entries q.tokenIn q.tokenOut := by
    rcases trades_cases htrades with ⟨hin, hout⟩ | ⟨hin, hout⟩
    · rw [hin, hout]
    · rw [hin, hout]
      exact ⟨.symm, .symm⟩
  obtain ⟨hrises, hafter⟩ := hscales.rises hl (ne_of_trades htrades hne) ((horient _).1 hb)
  refine ⟨scale, hpassed.scale?.trans hscales.scale?, hrises, ?_⟩
  exact (horient _).2 (hafter.congr hpassed.balance? hpassed.scale?)

theorem isBacked_congr {e' : Engine} (h : e'.store.snapshot o.hash = e.store.snapshot o.hash)
    (hb : e.IsBacked o entries c) : e'.IsBacked o entries c := by
  rw [IsBacked, Store.overlay, h]
  exact hb

theorem isBacked_serve (hp : IsConcentrated e.instructions o.program entries c)
    (hne : o.token0 ≠ o.token1) (hb : e.IsBacked o entries c)
    (hd : d.order = o ∨ d.order.hash ≠ o.hash) : (e.serve d).IsBacked o entries c := by
  rcases snapshot_serve hd with hsame | ⟨ho, hswap, f, h⟩
  · exact isBacked_congr hsame hb
  · obtain ⟨_, -, -, hafter⟩ := scale_of_answer hp hne hb ho hswap h
    exact hafter

theorem isBacked_run (hp : IsConcentrated e.instructions o.program entries c)
    (hne : o.token0 ≠ o.token1) (hb : e.IsBacked o entries c) {calls : List Call}
    (hcalls : ∀ d ∈ calls, d.order = o ∨ d.order.hash ≠ o.hash) :
    (e.run calls).IsBacked o entries c := by
  induction calls generalizing e with
  | nil => exact hb
  | cons d calls ih =>
    have hp' : IsConcentrated (e.serve d).instructions o.program entries c := by
      rwa [serve_instructions]
    exact ih hp' (isBacked_serve hp hne hb (hcalls d List.mem_cons_self))
      fun d' hd' => hcalls d' (List.mem_cons_of_mem d hd')

theorem keepsScale_serve (hp : IsConcentrated e.instructions o.program entries c)
    (hne : o.token0 ≠ o.token1) (hb : e.IsBacked o entries c)
    (hd : d.order = o ∨ d.order.hash ≠ o.hash) : KeepsScale o c.liquidity e (e.serve d) := by
  refine ⟨fun scale hs => ?_, fun scale hs => (isBacked_serve hp hne hb hd).above hs⟩
  rcases snapshot_serve hd with hsame | ⟨ho, hswap, f, h⟩
  · exact ⟨scale, (congrArg Snapshot.scale hsame).trans hs, Int.le_refl scale⟩
  · obtain ⟨scale', hs', hrises, -⟩ := scale_of_answer hp hne hb ho hswap h
    rw [hs] at hrises
    exact ⟨scale', hs', hrises⟩

theorem KeepsScale.trans {liquidity : Int} {e₁ e₂ e₃ : Engine} (h : KeepsScale o liquidity e₁ e₂)
    (h' : KeepsScale o liquidity e₂ e₃) : KeepsScale o liquidity e₁ e₃ := by
  refine ⟨fun scale hs => ?_, h'.above⟩
  obtain ⟨scale₂, hs₂, hle⟩ := h.rises scale hs
  obtain ⟨scale₃, hs₃, hle'⟩ := h'.rises scale₂ hs₂
  exact ⟨scale₃, hs₃, Int.le_trans hle hle'⟩

theorem keepsScale_run (hp : IsConcentrated e.instructions o.program entries c)
    (hne : o.token0 ≠ o.token1) (hb : e.IsBacked o entries c) {calls : List Call}
    (hcalls : ∀ d ∈ calls, d.order = o ∨ d.order.hash ≠ o.hash) :
    KeepsScale o c.liquidity e (e.run calls) := by
  induction calls generalizing e with
  | nil => exact ⟨fun scale hs => ⟨scale, hs, Int.le_refl scale⟩, fun scale hs => hb.above hs⟩
  | cons d calls ih =>
    have hd := hcalls d List.mem_cons_self
    have hp' : IsConcentrated (e.serve d).instructions o.program entries c := by
      rwa [serve_instructions]
    exact (keepsScale_serve hp hne hb hd).trans (ih hp' (isBacked_serve hp hne hb hd)
      fun d' hd' => hcalls d' (List.mem_cons_of_mem d hd'))

/-- Before any trade the liquidity that the program gives is backed by the listed balances. -/
theorem isBacked_of_empty (hempty : e.store = .empty) (hl : 0 < c.liquidity)
    (htokens : c.tokenA ≠ c.tokenB) (hpair : o.trades c.tokenA c.tokenB = true) {a b : Nat}
    (ha : entries.lookup c.tokenA = some a) (hb : entries.lookup c.tokenB = some b)
    (hstart : c.liquidity ≤ isqrt ((a + c.deltaA) * (b + c.deltaB))) : e.IsBacked o entries c := by
  have hheld {token : String} {n : Nat} (h : entries.lookup token = some n) :
      (e.store.overlay o.hash).held entries token = some (n : Int) := by
    have hnone : e.stored o token = none := by
      rw [stored, hempty]
      rfl
    refine (held_of_not_stored hnone).trans ?_
    rw [Overlay.listed?, h]
    rfl
  have hscale : (e.store.overlay o.hash).scale? = none := by
    rw [hempty]
    rfl
  have hbacked : (e.store.overlay o.hash).IsBacked c entries c.tokenA c.tokenB := by
    refine ⟨a, b, c.deltaA, c.deltaB, hheld ha, hheld hb, if_pos rfl,
      (if_neg htokens.symm).trans (if_pos rfl), ?_⟩
    rw [hscale]
    refine .start (Int.natCast_pos.2 hl) (Int.natCast_nonneg a) (Int.natCast_nonneg b) ?_
    exact_mod_cast le_isqrt_iff.1 hstart
  rcases trades_cases hpair with ⟨hA, hB⟩ | ⟨hA, hB⟩
  · rw [hA, hB] at hbacked
    exact hbacked
  · rw [hA, hB] at hbacked
    exact hbacked.symm

/-- **The scale does not fall**: an order whose program concentrates liquidity around the listed
balances of its pair, at an engine that starts with an empty store, and any calls, of which those on
other orders have other hashes.  If the liquidity that the program gives is no more than the root of
the product of the listed balances with the virtual ones on top, then no scale that is stored is
below that liquidity, from each state to all later ones the scale does not fall, and each swap that
is answered leaves one stored. -/
theorem scale_never_falls {maker token0 token1 program flags : Datum}
    (hmade : Order.make maker token0 token1 program flags = .ok o)
    (hp : IsConcentrated e.instructions o.program entries c)
    (hpair : o.trades c.tokenA c.tokenB = true) {a b : Nat}
    (hlisted : entries.lookup c.tokenA = some a ∧ entries.lookup c.tokenB = some b)
    (hstart : c.liquidity ≤ isqrt ((a + c.deltaA) * (b + c.deltaB))) (hempty : e.store = .empty)
    {calls : List Call} (hcalls : ∀ d ∈ calls, d.order = o ∨ d.order.hash ≠ o.hash) :
    (∀ before between after, calls = before ++ between ++ after →
      KeepsScale o c.liquidity (e.run before) (e.run (before ++ between))) ∧
    ∀ before d after f, calls = before ++ d :: after → d.order = o → d.isSwap = true →
      (e.run before).answer d = .ok f → ((e.run (before ++ [d])).scale o).isSome = true := by
  obtain ⟨first, checks, around, tolls, last, hc, -, -⟩ := id hp
  obtain ⟨-, htokens, hl⟩ := Instruction.parse_eq_ok hc.layers
  have hne := tokens_ne_of_make hmade
  have hb := isBacked_of_empty hempty hl htokens hpair hlisted.1 hlisted.2 hstart
  have hp' (calls : List Call) : IsConcentrated (e.run calls).instructions o.program entries c := by
    rwa [run_instructions]
  constructor
  · intro before between after hsplit
    have hbefore : (e.run before).IsBacked o entries c := isBacked_run hp hne hb fun d hd =>
      hcalls d (by rw [hsplit, List.append_assoc]; exact List.mem_append_left _ hd)
    rw [run_append]
    refine keepsScale_run (hp' before) hne hbefore fun d hd => hcalls d ?_
    rw [hsplit]
    exact List.mem_append_left _ (List.mem_append_right _ hd)
  · intro before d after f hsplit ho hswap h
    have hbefore : (e.run before).IsBacked o entries c := isBacked_run hp hne hb fun d' hd' =>
      hcalls d' (by rw [hsplit]; exact List.mem_append_left _ hd')
    rw [run_append]
    obtain ⟨scale, hs, -, -⟩ := scale_of_answer (hp' before) hne hbefore ho hswap h
    exact Option.isSome_iff_exists.2 ⟨scale, hs⟩

/-! ### A pool with concentrated liquidity -/

/-- Virtual balances of 500 and 1000, and the liquidity that they have with real ones of 1000 and
2000. -/
def narrow : Concentration := ⟨addressOf 'a', 500, addressOf 'b', 1000, 2121⟩

/-- The program `feePool` with the virtual balances of `narrow`. -/
def narrowPool : Bytes :=
  feePool.take 107 ++ [0x19, 136] ++ List.replicate 20 0xaa ++ List.replicate 30 0 ++ [0x01, 0xf4]
    ++ List.replicate 20 0xbb ++ List.replicate 30 0 ++ [0x03, 0xe8]
    ++ List.replicate 30 0 ++ [0x08, 0x49] ++ feePool.drop 107

theorem isConcentrated_narrowPool : IsConcentrated .standard narrowPool feePoolEntries narrow := by
  let first : Record := ⟨0, .dynamicBalances, (narrowPool.drop 2).take 105⟩
  let around : Record := ⟨107, .concentrate, (narrowPool.drop 109).take 136⟩
  let fee : Record := ⟨245, .flatFeeIn, [0, 30]⟩
  let last : Record := ⟨249, .constantProduct, narrowPool.drop 251⟩
  have hvalid : (validate .standard narrowPool).toOption = some [first, around, fee, last] := by
    decide +kernel
  have hfirst : first.parse.toOption = some (.dynamicBalances feePoolEntries) := by decide +kernel
  have haround : around.parse.toOption = some (.concentrate narrow) := by decide +kernel
  have hlast : last.parse.toOption = some (.constantProduct 1000000000000000000) := by
    decide +kernel
  refine ⟨first, [], around, [fee], last,
    ⟨Outcome.eq_ok_of_toOption hfirst, by simp, Outcome.eq_ok_of_toOption haround, ?_, rfl⟩,
    ⟨1000000000000000000, rfl, Outcome.eq_ok_of_toOption hlast⟩, Outcome.eq_ok_of_toOption hvalid⟩
  intro r hr
  rw [List.mem_singleton.1 hr]
  rfl

/-- A swap of 100, and one of 50 back. -/
def narrowSwaps : List Call :=
  [poolCall narrowPool true true 'a' 'b' 100, poolCall narrowPool true true 'b' 'a' 50]

/-- The swap of 100 stores a scale of 2121 or more, and whatever comes of the swap back, the scale
does not fall. -/
theorem keepsScale_narrowPool :
    Order.make (.text (addressOf 'c')) (.text (addressOf 'a')) (.text (addressOf 'b'))
        (.bytes narrowPool) (.int 0) = .ok (poolOrder narrowPool) ∧
      IsConcentrated feePoolEngine.instructions (poolOrder narrowPool).program feePoolEntries
        narrow ∧
      (poolOrder narrowPool).trades narrow.tokenA narrow.tokenB = true ∧
      feePoolEntries.lookup narrow.tokenA = some 1000 ∧
      feePoolEntries.lookup narrow.tokenB = some 2000 ∧
      narrow.liquidity ≤ isqrt ((1000 + narrow.deltaA) * (2000 + narrow.deltaB)) ∧
      feePoolEngine.store = .empty ∧ (∀ d ∈ narrowSwaps, d.order = poolOrder narrowPool) ∧
      ∃ scale scale', (feePoolEngine.run (narrowSwaps.take 1)).scale (poolOrder narrowPool) =
          some scale ∧ 2121 ≤ scale ∧
        (feePoolEngine.run narrowSwaps).scale (poolOrder narrowPool) = some scale' ∧
        scale ≤ scale' := by
  have hpair : (poolOrder narrowPool).trades narrow.tokenA narrow.tokenB = true := by
    decide +kernel
  have hstart : narrow.liquidity ≤ isqrt ((1000 + narrow.deltaA) * (2000 + narrow.deltaB)) :=
    le_isqrt_iff.2 (by decide)
  have hcalls : ∀ d ∈ narrowSwaps, d.order = poolOrder narrowPool := by
    simp [narrowSwaps, poolCall]
  have hanswered : (feePoolEngine.answer
      (poolCall narrowPool true true 'a' 'b' 100)).toOption.isSome = true := by
    decide +kernel
  obtain ⟨f, hf⟩ := Option.isSome_iff_exists.1 hanswered
  obtain ⟨hkeeps, hstored⟩ := scale_never_falls (e := feePoolEngine) (make_poolOrder narrowPool)
    isConcentrated_narrowPool hpair ⟨rfl, rfl⟩ hstart rfl fun d hd => Or.inl (hcalls d hd)
  obtain ⟨scale, hs⟩ := Option.isSome_iff_exists.1
    (hstored [] _ (narrowSwaps.drop 1) f rfl rfl rfl (Outcome.eq_ok_of_toOption hf))
  obtain ⟨scale', hs', hle⟩ :=
    (hkeeps (narrowSwaps.take 1) (narrowSwaps.drop 1) [] rfl).rises scale hs
  have habove := (hkeeps [] (narrowSwaps.take 1) (narrowSwaps.drop 1) rfl).above scale hs
  exact ⟨make_poolOrder narrowPool, isConcentrated_narrowPool, hpair, rfl, rfl, hstart, rfl, hcalls,
    scale, scale', hs, habove, hs', hle⟩

end Engine

end SwapMachine
