import SwapMachine.Proofs.Conservation
import SwapMachine.Proofs.Fading
import SwapMachine.Proofs.OrderIdentity
import SwapMachine.Proofs.Splitting

/-!
# SwapMachine.Proofs.Headroom — stored balances and the width of what curves take

Curves take 256-bit numbers, and listed amounts are such numbers.  Booking adds the amount in to a
stored balance without a look at what comes of it: the power curve has checked the sum with the
amount that it was given, but a fee is added later, and the other curves do not check it at all.

* `Walk.LeavesRoom`, `Walk.HasRoom`: the walks each of whose bookings stores what fits.
* `Walk.hasRoom_iff`: these are the walks that keep balances within 256 bits.
* `Engine.hasRoom_iff_held`: where balances are loaded once, at the start, the balance of the token
  paid in and the amount that is paid have to fit together.
* `Engine.hasRoom_of_isGuarded`: without a fee on the amount in, the power curve sees to that.
* `Engine.stored_fit_iff`: from an empty store on, all that is stored fits if and only if each swap
  that is answered has room.
-/

namespace SwapMachine

open FixedPoint

/-- The number that was too wide, if that is what went wrong. -/
def Outcome.tooWide? {α : Type} : Outcome α → Option String
  | .error (.math (.tooWide field)) => some field
  | _ => none

theorem Outcome.eq_error_of_tooWide? {α : Type} {x : Outcome α} {field : String}
    (h : Outcome.tooWide? x = some field) : x = .error (.math (.tooWide field)) := by
  unfold tooWide? at h
  split at h
  · cases h
    rfl
  · cases h

/-- The balances that are stored or written are 256-bit unsigned numbers. -/
def Overlay.FitsUint (o : Overlay) : Prop := ∀ token x, o.balance? token = some x → IsUint x

/-- The operation neither takes a fee from the amount in nor sets balances that are not stored, and
if it swaps, then along the power curve. -/
def Opcode.isGuarded : Opcode → Bool
  | staticBalances | flatFeeIn | dynamicFeeIn | pegged | density => false
  | _ => true

/-- A valid program of such operations that loads the stored balances first and nowhere else. -/
structure Program.IsGuarded (set : InstructionSet) (program : Bytes) (entries : Entries) :
    Prop where
  loads : LoadsFirst set program entries
  guarded : ∀ r ∈ (Scan.of set program).records, r.opcode.isGuarded = true

/-- A pool without fees is guarded. -/
theorem Program.isGuarded_of_isBare {set : InstructionSet} {program : Bytes} {entries : Entries}
    (h : IsBare set program entries) : IsGuarded set program entries := by
  obtain ⟨first, last, hv, hfirst, alpha, -, hlast⟩ := h
  have hload := (Instruction.parse_eq_ok hfirst).1
  have hswap := (Instruction.parse_eq_ok hlast).1
  refine ⟨⟨first, [last], hv, hfirst, fun r hr => ?_⟩, fun r hr => ?_⟩
  · rw [List.mem_singleton.1 hr, ← hswap]
    exact nofun
  · rw [← (validate_eq_ok_iff.1 hv).1] at hr
    simp only [List.mem_cons, List.not_mem_nil, or_false] at hr
    rcases hr with rfl | rfl
    · rw [← hload]; rfl
    · rw [← hswap]; rfl

namespace Walk

open Curve Program

variable {t : Terms} {pc : Nat} {i : Instruction} {s s' v : Sheet} {e : Effect} {w w' u : Walk}
  {p : Option Pending} {entries : Entries} {x : Int}

/-! ### Bookings -/

/-- If the work books a trade, then the balance that it stores of the token paid in fits. -/
def LeavesRoom (q : Query) (p : Option Pending) (s : Sheet) : Prop :=
  p = some .book → s.isComputed = true →
    ∀ x, s.overlay.balance? q.tokenIn = some x → x + s.figures.amountIn ≤ maxUint

/-- The walk from one place comes to its end at the other, and each of its bookings leaves room. -/
inductive HasRoom (t : Terms) : Walk → Walk → Prop where
  | ended {w : Walk} (atEnd : w.isOver t = true) : HasRoom t w w
  | step {w w' v : Walk} {p : Option Pending} {s : Sheet} (going : ¬ w.isOver t = true)
      (stepped : Walk.step t w = .ok (w', p)) (inner : HasRoom t w' v)
      (room : LeavesRoom t.query p v.sheet) (concluded : conclude t p v.sheet = .ok s) :
      HasRoom t w { v with sheet := s }

theorem HasRoom.run (h : HasRoom t w u) : Walk.run t w = .ok u := by
  induction h with
  | ended hover => exact run_of_isOver hover
  | step going stepped _ _ concluded ih =>
    rw [run_of_not_isOver going, stepped]
    refine Outcome.bind_eq_ok.2 ⟨_, rfl, Outcome.bind_eq_ok.2 ⟨_, ih, ?_⟩⟩
    exact Outcome.bind_eq_ok.2 ⟨_, concluded, rfl⟩

/-- A step writes listed amounts at most, which fit. -/
theorem fitsUint_of_step (h : step t w = .ok (w', p)) (hw : w.sheet.overlay.FitsUint) :
    w'.sheet.overlay.FitsUint := by
  obtain ⟨r, i, e, -, hi, -, hacted, hsheet, -⟩ := acted_of_step h
  rw [hsheet]
  generalize w.sheet = s at hacted hw
  cases hacted with
  | @stored _ entries o x y initialised =>
    obtain ⟨-, -, hheld⟩ := initialise_eq_ok initialised
    intro token n hn
    have hfound : found (.dynamicBalances entries) s.overlay token = .ok n := by
      rw [found, ← hheld, show o.balance? token = some n from hn]
    exact isUint_of_found hi rfl hw hfound
  | _ => exact hw

/-- Work that leaves room stores what fits: the token paid out has less than before. -/
theorem fitsUint_of_conclude (h : conclude t p v = .ok s) (hv : v.IsSound)
    (hroom : LeavesRoom t.query p v) (hfits : v.overlay.FitsUint) : s.overlay.FitsUint := by
  intro token n hn
  by_cases hp : p = some .book
  · subst hp
    cases settled_of_conclude h with
    | idle => exact hfits token n hn
    | book computed booked =>
      obtain ⟨x, y, hx, hy, hleft, hnew, -, -, hbalance⟩ := settleBook_eq_ok booked
      rw [hbalance] at hn
      split at hn
      · cases hn
        have hgiven := hv.figures.amountOut
        have hmost := (hfits _ _ hy).2
        exact ⟨by omega, by omega⟩
      · split at hn
        · cases hn
          exact ⟨hnew, hroom rfl computed x hx⟩
        · exact hfits token n hn
  · rw [(sameBalances_of_conclude h hp).balance?] at hn
    exact hfits token n hn

/-- If the balance of the token paid in fits after some work, then the work has left room, and the
balance has fitted before: booking only adds to it. -/
theorem leavesRoom_of_conclude (h : conclude t p v = .ok s) (hv : v.IsSound)
    (hne : t.query.tokenIn ≠ t.query.tokenOut)
    (hs : ∀ x, s.overlay.balance? t.query.tokenIn = some x → x ≤ maxUint) :
    LeavesRoom t.query p v ∧ ∀ x, v.overlay.balance? t.query.tokenIn = some x → x ≤ maxUint := by
  by_cases hp : p = some .book
  · subst hp
    cases settled_of_conclude h with
    | idle idle => exact ⟨fun _ hc => absurd (idle.symm.trans hc) Bool.false_ne_true, hs⟩
    | book computed booked =>
      obtain ⟨x, y, hx, -, -, -, -, -, hbalance⟩ := settleBook_eq_ok booked
      have hnew := hs (x + v.figures.amountIn) (by rw [hbalance, if_neg hne, if_pos rfl])
      have hpaid := hv.figures.amountIn
      refine ⟨fun _ _ x' hx' => ?_, fun x' hx' => ?_⟩
      · obtain rfl := Option.some.inj (hx.symm.trans hx')
        exact hnew
      · obtain rfl := Option.some.inj (hx.symm.trans hx')
        omega
  · refine ⟨fun hbook => absurd hbook hp, fun x hx => hs x ?_⟩
    rwa [(sameBalances_of_conclude h hp).balance?]

/-! ### Walks with room -/

/-- **What walks with room preserve**: the balances fit. -/
theorem HasRoom.fitsUint (h : HasRoom t w u) (hw : w.sheet.IsSound)
    (hfits : w.sheet.overlay.FitsUint) : u.sheet.overlay.FitsUint := by
  induction h with
  | ended => exact hfits
  | step going stepped inner room concluded ih =>
    have hw' := (isSound_of_step stepped hw).1
    have hinner := ih hw' (fitsUint_of_step stepped hfits)
    exact fitsUint_of_conclude concluded (isSound_of_run inner.run hw') room hinner

/-- A walk at whose end the balance of the token paid in fits has had room all along. -/
theorem hasRoom_of_run (h : run t w = .ok u) (hw : w.sheet.IsSound)
    (hne : t.query.tokenIn ≠ t.query.tokenOut)
    (hu : ∀ x, u.sheet.overlay.balance? t.query.tokenIn = some x → x ≤ maxUint) :
    HasRoom t w u := by
  refine run_induction (R := fun w u => w.sheet.IsSound →
    (∀ x, u.sheet.overlay.balance? t.query.tokenIn = some x → x ≤ maxUint) → HasRoom t w u)
    (fun w hover _ _ => .ended hover) (fun w w' p v s hover hstep hrun ih hs hw hu => ?_) h hw hu
  have hw' := (isSound_of_step hstep hw).1
  obtain ⟨hroom, hv⟩ := leavesRoom_of_conclude hs (isSound_of_run hrun hw') hne hu
  exact .step hover hstep (ih hw' hv) hroom hs

/-- **Walks with room** are those that leave the balances within 256 bits. -/
theorem hasRoom_iff (hw : w.sheet.IsSound) (hfits : w.sheet.overlay.FitsUint)
    (hne : t.query.tokenIn ≠ t.query.tokenOut) :
    HasRoom t w u ↔ run t w = .ok u ∧ u.sheet.overlay.FitsUint :=
  ⟨fun h => ⟨h.run, h.fitsUint hw hfits⟩,
    fun ⟨h, hu⟩ => hasRoom_of_run h hw hne fun x hx => (hu _ x hx).2⟩

/-! ### The check of the power curve -/

/-- The sheet has a balance of the token paid in that is not below `x`, and once a swap has been
computed, `x` and the amount in fit together. -/
structure SumFits (x : Int) (s : Sheet) : Prop where
  widened : x ≤ s.figures.balanceIn
  fits : s.isComputed = true → x + s.figures.amountIn ≤ maxUint

theorem not_feeIn (hi : i.opcode.isGuarded = true) : feeInOf t i = none := by
  cases i <;> first | rfl | cases hi

/-- The power curve checks the sum with its own amount, and decay and concentration only widen the
balance. -/
theorem SumFits.acted (hx : SumFits x s) (h : Acted t pc i s e) (hi : i.opcode.isGuarded = true)
    (hload : i.opcode ≠ .dynamicBalances) (hvalid : i.IsValid) (hs : s.IsSound) :
    SumFits x e.sheet := by
  have hle := hx.widened
  cases h with
  | static => cases hi
  | stored => exact absurd rfl hload
  | quiet | netOut => exact hx
  | grossOut => exact ⟨hle, hx.fits⟩
  | netIn _ asked | grossIn _ asked => rw [not_feeIn hi] at asked; cases asked
  | decay leftIn =>
    exact ⟨Int.le_trans hle (Int.le_add_of_nonneg_right (fadeLeft_nonneg leftIn)), hx.fits⟩
  | concentrate ofIn virtualIn =>
    have hvirtual := le_effectiveBalance (virtualBalance_nonneg ofIn) (Int.natCast_pos.2 hvalid.2)
      hs.overlay.scale virtualIn
    exact ⟨Int.le_trans hle hvirtual, hx.fits⟩
  | output _ given =>
    cases i with
    | constantProduct alpha =>
      have hsum := (Power.isUint_of_exactIn (Option.some.inj given)).2.2
      exact ⟨hle, fun _ => Int.le_trans (Int.add_le_add_right hle _) hsum⟩
    | pegged | density => cases hi
    | _ => cases given
  | input _ asked =>
    cases i with
    | constantProduct alpha =>
      obtain ⟨q, hq, hasked⟩ := Outcome.bind_eq_ok.1 (Option.some.inj asked)
      cases hasked
      obtain ⟨-, -, _, hout, -⟩ := Power.delivers_of_exactOut hq
      have hsum := (Power.isUint_of_exactIn hout).2.2
      exact ⟨hle, fun _ => Int.le_trans (Int.add_le_add_right hle _) hsum⟩
    | pegged | density => cases hi
    | _ => cases asked

/-- What is left for later then does not touch the amount in. -/
theorem amountIn_of_conclude (h : Acted t pc i s e) (hi : i.opcode.isGuarded = true)
    (hu : conclude t e.pending v = .ok s') :
    s'.isComputed = v.isComputed ∧ s'.figures.amountIn = v.figures.amountIn := by
  cases h with
  | netIn _ asked | grossIn _ asked => rw [not_feeIn hi] at asked; cases asked
  | quiet | static | output | input | grossOut => cases hu; exact ⟨rfl, rfl⟩
  | stored | decay | concentrate | netOut => cases settled_of_conclude hu <;> exact ⟨rfl, rfl⟩

/-- **Guarded walks** behind the first record end with an amount in that fits together with every
balance that they have started above. -/
theorem sum_le_of_run (hp : IsGuarded t.instructions t.program entries) {w u : Walk}
    (h : run t w = .ok u) (hpc : 0 < w.pc) (hplace : w.pc ∈ places t.instructions t.program)
    (hw : w.sheet.IsSound) (hx : SumFits x w.sheet) (hc : u.sheet.isComputed = true) :
    x + u.sheet.figures.amountIn ≤ maxUint := by
  refine run_induction (R := fun w u => 0 < w.pc → w.pc ∈ places t.instructions t.program →
    w.sheet.IsSound → SumFits x w.sheet → u.sheet.isComputed = true →
      x + u.sheet.figures.amountIn ≤ maxUint) (fun w _ _ _ _ hx => hx.fits) ?_
    h hpc hplace hw hx hc
  intro w w' p v s hover hstep _ ih hs hpc hplace hw hx hc
  have hwell := wellFormed_of_loadsFirst hp.loads
  have hplace' := pc_mem_places_of_step hwell hplace hover hstep
  have hw' := (isSound_of_step hstep hw).1
  obtain ⟨r, hr, i, e, hi, hload, hacted, hsheet, rfl⟩ :=
    acted_of_ahead hp.loads hpc hplace hover hstep
  obtain ⟨hop, hvalid⟩ := Instruction.parse_eq_ok hi
  have hguarded : i.opcode.isGuarded = true := hop ▸ hp.guarded r hr
  rw [hsheet] at ih hw'
  obtain ⟨hcomputed, hamount⟩ := amountIn_of_conclude hacted hguarded hs
  rw [hamount]
  exact ih (Nat.lt_trans hpc (pc_lt_of_step hstep)) hplace' hw'
    (hx.acted hacted hguarded hload hvalid hw) (hcomputed.symm.trans hc)

/-- The balance that a guarded program has loaded and the amount in at the end fit together. -/
theorem Loaded.sum_le {f : Figures} {o loaded : Overlay} {y : Int}
    (hl : Loaded t entries f o u loaded x y w w')
    (hp : IsGuarded t.instructions t.program entries) (hs : (Sheet.start f o).IsSound)
    (hc : u.sheet.isComputed = true) : x + u.sheet.figures.amountIn ≤ maxUint := by
  have hloaded := hs.overlay.initialise hl.initialised
  have hw : w.sheet.IsSound := by
    rw [hl.sheet]
    exact (hs.withOverlay hloaded).withBalances (hloaded.balance hl.storedIn)
      (hloaded.balance hl.storedOut)
  have hx : SumFits x w.sheet := by
    rw [hl.sheet]
    exact ⟨Int.le_refl x, fun h => absurd h Bool.false_ne_true⟩
  rw [hl.settled.figures_of_book]
  exact sum_le_of_run hp hl.run hl.ahead hl.place hw hx (hl.settled.isComputed.symm.trans hc)

end Walk

namespace Engine

open Program

variable {e : Engine} {c : Call} {entries : Entries} {calls : List Call} {f : Fill}

/-! ### One call -/

/-- Every balance that the engine stores for any order is a 256-bit unsigned number. -/
def FitsUint (e : Engine) : Prop :=
  ∀ order token x, (e.store.snapshot order).balances.get? token = some x → IsUint x

/-- If the call is a swap that is answered, then each booking of its walk leaves room. -/
def HasRoom (e : Engine) (c : Call) : Prop :=
  c.isSwap = true → ∀ f, e.answer c = .ok f → ∃ q amount w,
    query c.order c.order.hash c.request = .ok (q, amount) ∧
    Walk.HasRoom ((e.facing c).terms c.order q c.now false)
      ⟨0, 0, .start (figures c.request.isExactIn amount) (e.store.overlay c.order.hash)⟩ w

/-- A swap that is answered stores what fits if and only if its walk has had room. -/
theorem fitsUint_serve_iff (he : e.FitsUint) (hsound : e.IsSound)
    (hne : c.order.token0 ≠ c.order.token1) : (e.serve c).FitsUint ↔ e.HasRoom c := by
  cases hswap : c.isSwap with
  | false =>
    rw [serve_of_quote hswap]
    exact iff_of_true he fun h => absurd (hswap.symm.trans h) Bool.false_ne_true
  | true =>
    cases hanswer : e.answer c with
    | error g =>
      rw [serve_of_unpriced (answer_eq_error hanswer)]
      exact iff_of_true he fun _ f hf => nomatch hanswer.symm.trans hf
    | ok f =>
      obtain ⟨q, amount, w, hq, hw, -, -, hstored⟩ := walk_of_answer hswap hanswer
      rw [Walk.through_zero] at hw
      obtain ⟨-, -, htrades, -⟩ := query_eq_ok hq
      have hroom (u : Walk) := Walk.hasRoom_iff (t := (e.facing c).terms c.order q c.now false)
        (w := ⟨0, 0, .start (figures c.request.isExactIn amount) (e.store.overlay c.order.hash)⟩)
        (u := u) (isSound_start hsound hq) (he c.order.hash) (ne_of_trades htrades hne)
      constructor
      · intro h _ _ _
        exact ⟨q, amount, w, hq, (hroom w).2 ⟨hw, fun token x hx =>
          h c.order.hash token x ((hstored token).trans hx)⟩⟩
      · intro h order token x hx
        obtain ⟨q', amount', w', hq', hw'⟩ := h hswap f hanswer
        obtain ⟨rfl, rfl⟩ := Prod.mk.inj (Except.ok.inj (hq'.symm.trans hq))
        obtain ⟨hrun, hfits⟩ := (hroom w').1 hw'
        obtain rfl : w' = w := Except.ok.inj (hrun.symm.trans hw)
        by_cases horder : order = c.order.hash
        · subst horder
          exact hfits token x ((hstored token).symm.trans hx)
        · rw [snapshot_serve_of_ne horder] at hx
          exact he order token x hx

/-- A call has room if what it stores of the token paid in fits, be it answered as it may. -/
theorem hasRoom_of_stored (hsound : e.IsSound) (hne : c.order.token0 ≠ c.order.token1)
    (h : ∀ f tokenIn x, e.answer c = .ok f →
      requestAddress "token_in" c.request.tokenIn = .ok tokenIn →
      (e.serve c).stored c.order tokenIn = some x → x ≤ maxUint) : e.HasRoom c := by
  intro hswap f hanswer
  obtain ⟨q, amount, w, hq, hw, -, -, hstored⟩ := walk_of_answer hswap hanswer
  obtain ⟨-, -, htrades, -, hin, -⟩ := query_eq_ok hq
  rw [Walk.through_zero] at hw
  refine ⟨q, amount, w, hq, Walk.hasRoom_of_run hw (isSound_start (e := e.facing c) hsound hq)
    (ne_of_trades htrades hne) fun x hx => ?_⟩
  exact h f q.tokenIn x hanswer hin ((hstored _).trans hx)

/-- **Where balances are loaded once, at the start**, a swap that is answered has room if and only
if what the engine has of the token paid in and the amount that is paid fit together. -/
theorem hasRoom_iff_held (he : e.FitsUint) (hsound : e.IsSound)
    (hne : c.order.token0 ≠ c.order.token1)
    (hp : LoadsFirst e.instructions c.order.program entries) :
    e.HasRoom c ↔ (c.isSwap = true → ∀ f tokenIn x, e.answer c = .ok f →
      requestAddress "token_in" c.request.tokenIn = .ok tokenIn →
      e.held c.order entries tokenIn = some x → x + f.amountIn ≤ maxUint) := by
  have hmoved (hswap : c.isSwap = true) {f : Fill} (hanswer : e.answer c = .ok f)
      {tokenIn : String} (hin : requestAddress "token_in" c.request.tokenIn = .ok tokenIn) :
      ∃ x, e.held c.order entries tokenIn = some x ∧
        (e.serve c).stored c.order tokenIn = some (x + f.amountIn) := by
    obtain ⟨q, amount, w, hq, hw, hcomputed, rfl, hstored⟩ := walk_of_answer hswap hanswer
    obtain ⟨-, -, htrades, -, hin', -⟩ := query_eq_ok hq
    obtain rfl : q.tokenIn = tokenIn := Except.ok.inj (hin'.symm.trans hin)
    obtain ⟨x, y, hmoves⟩ := Walk.moves_of_through hp hw hcomputed
    exact ⟨x, hmoves.heldIn,
      (hstored _).trans (hmoves.balance?_tokenIn (ne_of_trades htrades hne))⟩
  constructor
  · intro hroom hswap f tokenIn x hanswer hin hx
    obtain ⟨x', hx', hstored⟩ := hmoved hswap hanswer hin
    obtain rfl : x' = x := Option.some.inj (hx'.symm.trans hx)
    exact ((fitsUint_serve_iff he hsound hne).2 hroom _ _ _ hstored).2
  · intro h
    by_cases hswap : c.isSwap = true
    · refine hasRoom_of_stored hsound hne fun f tokenIn y hanswer hin hy => ?_
      obtain ⟨x, hx, hstored⟩ := hmoved hswap hanswer hin
      obtain rfl : x + f.amountIn = y := Option.some.inj (hstored.symm.trans hy)
      exact h hswap f tokenIn x hanswer hin hx
    · exact fun h => absurd h hswap

/-- **Without a fee on the amount in** the check of the power curve is enough. -/
theorem hasRoom_of_isGuarded (hsound : e.IsSound) (hne : c.order.token0 ≠ c.order.token1)
    (hp : IsGuarded e.instructions c.order.program entries) : e.HasRoom c := by
  intro hswap f hanswer
  refine hasRoom_of_stored hsound hne (fun f tokenIn z hanswer hin hz => ?_) hswap f hanswer
  obtain ⟨q, amount, w, hq, hw, hcomputed, -, hstored⟩ := walk_of_answer hswap hanswer
  obtain ⟨-, -, htrades, -, hin', -⟩ := query_eq_ok hq
  obtain rfl : q.tokenIn = tokenIn := Except.ok.inj (hin'.symm.trans hin)
  obtain ⟨loaded, x, y, w₁, v, hl⟩ := Walk.loaded_of_through hp.loads hw
  have hbalance := (hl.moves hp.loads hcomputed).balance?_tokenIn (ne_of_trades htrades hne)
  obtain rfl := Option.some.inj (hbalance.symm.trans ((hstored _).symm.trans hz))
  exact hl.sum_le (t := (e.facing c).terms c.order q c.now false) hp
    (isSound_start (e := e.facing c) hsound hq) hcomputed

/-! ### Histories -/

/-- Over calls in turn, all that is stored fits if and only if each of them has room. -/
theorem fitsUint_iff_hasRoom (he : e.FitsUint) (hsound : e.IsSound)
    (hcalls : ∀ c ∈ calls, c.order.token0 ≠ c.order.token1) :
    (∀ before after, calls = before ++ after → (e.run before).FitsUint) ↔
      ∀ before c after, calls = before ++ c :: after → (e.run before).HasRoom c := by
  induction calls generalizing e with
  | nil =>
    refine iff_of_true (fun before after h => ?_) fun before c after h => ?_
    · obtain ⟨rfl, -⟩ := List.append_eq_nil_iff.1 h.symm
      exact he
    · cases (List.append_eq_nil_iff.1 h.symm).2
  | cons c calls ih =>
    have hserve := fitsUint_serve_iff he hsound (hcalls c List.mem_cons_self)
    have hrest (hfits : (e.serve c).FitsUint) := ih hfits (hsound.serve c) fun d hd =>
      hcalls d (List.mem_cons_of_mem c hd)
    constructor
    · intro h before d after heq
      have hfits := h [c] calls rfl
      cases before with
      | nil =>
        obtain ⟨rfl, -⟩ := List.cons.inj heq
        exact hserve.1 hfits
      | cons b before =>
        obtain ⟨rfl, rfl⟩ := List.cons.inj heq
        refine (hrest hfits).1 (fun before' after' heq' => ?_) before d after rfl
        exact h (c :: before') after' (congrArg (c :: ·) heq')
    · intro h before after heq
      cases before with
      | nil => exact he
      | cons b before =>
        obtain ⟨rfl, rfl⟩ := List.cons.inj heq
        have hfits := hserve.2 (h [] c _ rfl)
        refine (hrest hfits).2 (fun before' d after' heq' => ?_) before after rfl
        exact h (c :: before') d after' (congrArg (c :: ·) heq')

/-- **Stored balances and 256 bits**: orders of any programs, an engine that starts with an empty
store, and any quotes and swaps.  After each call all stored balances fit in 256 bits if and only if
each booking of a swap that was answered has left room.  Where a program loads balances once, at the
start, this says that what the engine has of the token paid in and the amount that is paid fit
together; and it is so wherever, besides, no fee is taken from the amount in and swaps are along the
power curve. -/
theorem stored_fit_iff (hempty : e.store = .empty)
    (hmade : ∀ c ∈ calls, ∃ maker token0 token1 program flags,
      Order.make maker token0 token1 program flags = .ok c.order) :
    ((∀ before after, calls = before ++ after → (e.run before).FitsUint) ↔
      ∀ before c after, calls = before ++ c :: after → (e.run before).HasRoom c) ∧
    ∀ before c after entries, calls = before ++ c :: after →
      (LoadsFirst e.instructions c.order.program entries → (e.run before).FitsUint →
        ((e.run before).HasRoom c ↔ (c.isSwap = true → ∀ f tokenIn x,
          (e.run before).answer c = .ok f →
          requestAddress "token_in" c.request.tokenIn = .ok tokenIn →
          (e.run before).held c.order entries tokenIn = some x → x + f.amountIn ≤ maxUint))) ∧
      (IsGuarded e.instructions c.order.program entries → (e.run before).HasRoom c) := by
  have hne : ∀ c ∈ calls, c.order.token0 ≠ c.order.token1 := by
    intro c hc
    obtain ⟨maker, token0, token1, program, flags, h⟩ := hmade c hc
    exact tokens_ne_of_make h
  have hfits : e.FitsUint := by
    intro order token x hx
    rw [hempty] at hx
    cases hx
  have hsound := isSound_of_empty hempty
  refine ⟨fitsUint_iff_hasRoom hfits hsound hne, fun before c after entries heq => ?_⟩
  have hc := hne c (heq ▸ List.mem_append_right before List.mem_cons_self)
  refine ⟨fun hp hbefore => ?_, fun hp => ?_⟩
  · exact hasRoom_iff_held hbefore (hsound.run before) hc (by rwa [run_instructions])
  · exact hasRoom_of_isGuarded (hsound.run before) hc (by rwa [run_instructions])

/-! ### A pool at the brim -/

/-- What is answered after a call, read off the snapshot that it leaves and the records of the
program. -/
theorem answer_serve_straight {d : Call} {records : List Record} {s : Snapshot}
    (hp : IsStraight e.instructions c.order.program records)
    (hends : EndsInOnlySwap e.instructions c.order.program)
    (hs : (e.serve d).store.snapshot c.order.hash = s) (o₀ : Overlay) :
    (e.serve d).answer c = (do
      let hash ← e.accept c.order
      let (q, amount) ← query c.order hash c.request
      let s ← Walk.Sheet.writing o₀ <$> Walk.pass ((e.facing c).terms c.order q c.now false) records
        (.start (figures c.request.isExactIn amount) (.start hash s))
      fill c.request q.order s) := by
  have hterms (q : Query) : ((e.serve d).facing c).terms c.order q c.now false =
      (e.facing c).terms c.order q c.now false := by
    rw [serve_eq]
    rfl
  rw [answer_straight (e := e.serve d) (by rwa [serve_instructions])
    (by rwa [serve_instructions]) o₀, accept_serve]
  refine Outcome.bind_congr fun hash hhash => ?_
  obtain rfl := accept_eq_ok hhash
  simp only [hterms, Store.overlay, hs]

/-- The program `feePool` with a first balance of which 100 are missing to the largest number of 256
bits, and a second one of half that number. -/
def brimPool : Bytes :=
  [0x11, 105, 2] ++ List.replicate 20 0xaa ++ List.replicate 31 0xff ++ [0x9b]
    ++ List.replicate 20 0xbb ++ [0x80] ++ List.replicate 31 0 ++ feePool.drop 107

/-- The balances that `brimPool` lists. -/
def brimEntries : Entries := [(addressOf 'a', 2 ^ 256 - 101), (addressOf 'b', 2 ^ 255)]

/-- The records of `brimPool`. -/
def brimRecords : List Record :=
  [⟨0, .dynamicBalances, (brimPool.drop 2).take 105⟩, ⟨107, .flatFeeIn, [0, 30]⟩,
    ⟨111, .constantProduct, brimPool.drop 113⟩]

theorem validate_brimPool : validate .standard brimPool = .ok brimRecords :=
  Outcome.eq_ok_of_toOption (by decide +kernel)

theorem loadsFirst_brimPool : LoadsFirst .standard brimPool brimEntries :=
  ⟨_, _, validate_brimPool, Outcome.eq_ok_of_toOption (by decide +kernel), by decide⟩

theorem isStraight_brimPool :
    IsStraight .standard brimPool brimRecords ∧ EndsInOnlySwap .standard brimPool :=
  ⟨⟨validate_brimPool, by decide⟩, brimRecords.take 2, _, validate_brimPool, rfl, by decide⟩

/-- What a swap of an amount in of the first token gives there. -/
theorem answer_brimPool (amount out : Int)
    (h : (feePoolEngine.answer (poolCall brimPool true true 'a' 'b' amount)).toOption.map
      Fill.amounts = some (amount, out)) :
    ∃ f, feePoolEngine.answer (poolCall brimPool true true 'a' 'b' amount) = .ok f ∧
      f.amountIn = amount := by
  obtain ⟨f, hf, hamounts⟩ := Option.map_eq_some_iff.1 h
  exact ⟨f, Outcome.eq_ok_of_toOption hf, congrArg Prod.fst hamounts⟩

/-- A swap of the 100 that are missing, and one at a pool without fees. -/
def brimCalls : List Call :=
  [poolCall brimPool true true 'a' 'b' 100, poolCall barePool true true 'a' 'b' 100]

/-- Both of them have room. -/
theorem stored_fit_brimCalls :
    feePoolEngine.store = .empty ∧
      (∀ c ∈ brimCalls, ∃ maker token0 token1 program flags,
        Order.make maker token0 token1 program flags = .ok c.order) ∧
      LoadsFirst feePoolEngine.instructions brimPool brimEntries ∧
      IsGuarded feePoolEngine.instructions barePool feePoolEntries ∧
      (∃ f, feePoolEngine.answer (poolCall brimPool true true 'a' 'b' 100) = .ok f) ∧
      (feePoolEngine.run brimCalls).FitsUint := by
  have hmade : ∀ c ∈ brimCalls, ∃ maker token0 token1 program flags,
      Order.make maker token0 token1 program flags = .ok c.order := by
    intro c hc
    simp only [brimCalls, List.mem_cons, List.not_mem_nil, or_false] at hc
    rcases hc with rfl | rfl
    · exact ⟨_, _, _, _, _, make_poolOrder brimPool⟩
    · exact ⟨_, _, _, _, _, make_poolOrder barePool⟩
  obtain ⟨hiff, hcall⟩ := stored_fit_iff (e := feePoolEngine) rfl hmade
  obtain ⟨f, hf, hpaid⟩ := answer_brimPool 100 49 (by decide +kernel)
  have hfits : feePoolEngine.FitsUint := fun order token x hx => nomatch hx
  have hlisted : feePoolEngine.held (poolOrder brimPool) brimEntries (addressOf 'a') =
      some (2 ^ 256 - 101) := by
    decide +kernel
  have hbrim : feePoolEngine.HasRoom (poolCall brimPool true true 'a' 'b' 100) := by
    refine ((hcall [] _ [_] brimEntries rfl).1 loadsFirst_brimPool hfits).2
      fun _ g tokenIn x hg hin hheld => ?_
    obtain rfl : f = g := Except.ok.inj (hf.symm.trans hg)
    obtain rfl : addressOf 'a' = tokenIn := Except.ok.inj hin
    obtain rfl : 2 ^ 256 - 101 = x := Option.some.inj (hlisted.symm.trans hheld)
    rw [hpaid]
    decide
  have hbare := (hcall [_] _ [] feePoolEntries rfl).2 (isGuarded_of_isBare isBare_barePool)
  refine ⟨rfl, hmade, loadsFirst_brimPool, isGuarded_of_isBare isBare_barePool, ⟨f, hf⟩, ?_⟩
  refine hiff.2 (fun before c after heq => ?_) brimCalls [] (List.append_nil _).symm
  -- the call is the first one or the second one
  match before, heq with
  | [], heq => cases heq; exact hbrim
  | [_], heq => cases heq; exact hbare
  | _ :: _ :: before, heq =>
    have hlength := congrArg List.length heq
    simp [brimCalls] at hlength

/-- The pool when a unit more has been swapped. -/
def overfullPool : Snapshot :=
  ⟨⟨[(addressOf 'a', 2 ^ 256), (addressOf 'b', 2 ^ 255 - 50)]⟩, .empty, none, 1⟩

theorem snapshot_brimPool :
    (feePoolEngine.serve (poolCall brimPool true true 'a' 'b' 101)).store.snapshot
      (poolOrder brimPool).hash = overfullPool := by
  have hwritten : (feePoolEngine.published (poolCall brimPool true true 'a' 'b' 101)).map
      (fun w => (w.isDirty, w.result.balances.entries, w.result.fades.entries.isEmpty,
        w.result.scale, w.result.version)) =
      some (true, overfullPool.balances.entries, true, none, 1) := by
    decide +kernel
  obtain ⟨w, hw, hresult⟩ := Option.map_eq_some_iff.1 hwritten
  simp only [Prod.mk.injEq, List.isEmpty_iff] at hresult
  obtain ⟨hdirty, hbalances, hfades, hscale, hversion⟩ := hresult
  have hsame : w.result = overfullPool := by
    generalize w.result = s at hbalances hfades hscale hversion
    obtain ⟨⟨balances⟩, ⟨fades⟩, scale, version⟩ := s
    subst hbalances hfades hscale hversion
    rfl
  rw [← hsame]
  exact Order.snapshot_serve_of_published hw hdirty

/-- What the pool answers then, read off its records. -/
theorem answer_overfullPool (horder : c.order = poolOrder brimPool) :
    (feePoolEngine.serve (poolCall brimPool true true 'a' 'b' 101)).answer c = (do
      let hash ← feePoolEngine.accept c.order
      let (q, amount) ← query c.order hash c.request
      let s ← Walk.Sheet.writing (.start "" .empty) <$>
        Walk.pass ((feePoolEngine.facing c).terms c.order q c.now false) brimRecords
          (.start (figures c.request.isExactIn amount) (.start hash overfullPool))
      fill c.request q.order s) := by
  have hprogram : brimPool = c.order.program := by rw [horder, poolOrder]
  obtain ⟨hstraight, hends⟩ := isStraight_brimPool
  exact answer_serve_straight (e := feePoolEngine) (hprogram ▸ hstraight) (hprogram ▸ hends)
    (horder ▸ snapshot_brimPool) _

/-- **A swap that outgrows 256 bits**: a swap of 101 is answered, and the balance that it stores is
one more than the largest number of 256 bits.  A quote for trading back, which is answered before,
fails then, and so does one for trading on. -/
theorem stored_outgrows_uint :
    feePoolEngine.store = .empty ∧
      Order.make (.text (addressOf 'c')) (.text (addressOf 'a')) (.text (addressOf 'b'))
        (.bytes brimPool) (.int 0) = .ok (poolOrder brimPool) ∧
      (∃ f, feePoolEngine.answer (poolCall brimPool true true 'a' 'b' 101) = .ok f) ∧
      (feePoolEngine.run [poolCall brimPool true true 'a' 'b' 101]).stored (poolOrder brimPool)
        (addressOf 'a') = some (maxUint + 1) ∧
      ¬ (feePoolEngine.run [poolCall brimPool true true 'a' 'b' 101]).FitsUint ∧
      (∃ f, feePoolEngine.answer (poolCall brimPool true false 'b' 'a' 50) = .ok f) ∧
      (feePoolEngine.run [poolCall brimPool true true 'a' 'b' 101]).answer
        (poolCall brimPool true false 'b' 'a' 50) = .error (.math (.tooWide "a")) ∧
      (feePoolEngine.run [poolCall brimPool true true 'a' 'b' 101]).answer
        (poolCall brimPool true false 'a' 'b' 50) = .error (.math (.tooWide "denominator")) := by
  rw [run_cons, run_nil]
  obtain ⟨f, hf, -⟩ := answer_brimPool 101 50 (by decide +kernel)
  have hback : (feePoolEngine.answer (poolCall brimPool true false 'b' 'a' 50)).toOption.isSome =
      true := by
    decide +kernel
  obtain ⟨g, hg⟩ := Option.isSome_iff_exists.1 hback
  have hstored : (feePoolEngine.serve (poolCall brimPool true true 'a' 'b' 101)).stored
      (poolOrder brimPool) (addressOf 'a') = some (maxUint + 1) := by
    rw [stored, snapshot_brimPool]
    rfl
  refine ⟨rfl, make_poolOrder brimPool, ⟨f, hf⟩, hstored, fun hfits => ?_,
    ⟨g, Outcome.eq_ok_of_toOption hg⟩, ?_, ?_⟩
  · have hmost := (hfits (poolOrder brimPool).hash (addressOf 'a') (maxUint + 1) hstored).2
    omega
  · rw [answer_overfullPool rfl]
    exact Outcome.eq_error_of_tooWide? (by decide +kernel)
  · rw [answer_overfullPool rfl]
    exact Outcome.eq_error_of_tooWide? (by decide +kernel)

end Engine

end SwapMachine
