import SwapMachine.Proofs.Counterpart

/-!
# SwapMachine.Proofs.Payable — what is asked can be paid

A walk that fixes the output has shown that its records can be passed, but one that pays what it
asks gives more than is wanted, and what is given is booked.  Where balances are loaded once and
nothing puts virtual ones on top, it is still covered by the balance that it is booked on.

* `Returns t w u u'`: what is kept between a walk that fixes the output and one that pays what it
  asks, on their way back.
* `Course.payable`: such a walk comes to its end.
-/

namespace SwapMachine

/-- The operation loads balances. -/
def Opcode.isLoad : Opcode → Bool
  | staticBalances | dynamicBalances => true
  | _ => false

/-- A valid program with exactly one record that loads balances and none that concentrates. -/
structure Program.LoadsOnce (set : InstructionSet) (program : Bytes) : Prop where
  shape : ∃ records, Program.validate set program = .ok records ∧
    (records.filter fun r => r.opcode.isLoad).length = 1 ∧ ∀ r ∈ records, r.opcode ≠ .concentrate

theorem Opcode.isLoad_of_isPoolPart {op : Opcode} (h : op.isPoolPart = true) :
    op.isLoad = false ∧ op ≠ concentrate := by
  cases op with
  | staticBalances | dynamicBalances | concentrate => cases h
  | _ => exact ⟨rfl, nofun⟩

theorem Program.IsPool.loadsOnce {set : InstructionSet} {program : Bytes} {entries : Entries}
    (h : IsPool set program entries) : LoadsOnce set program := by
  obtain ⟨first, middle, last, hv, hfirst, ⟨alpha, -, hlast⟩, hmiddle⟩ := h.shape
  have hload := (Instruction.parse_eq_ok hfirst).1
  have hswap := (Instruction.parse_eq_ok hlast).1
  have hnone : middle.filter (fun r => r.opcode.isLoad) = [] :=
    List.filter_eq_nil_iff.2 fun r hr =>
      Bool.not_eq_true _ ▸ (Opcode.isLoad_of_isPoolPart (hmiddle r hr)).1
  refine ⟨_, hv, ?_, fun r hr => ?_⟩
  · rw [List.filter_cons, List.filter_append, hnone, List.nil_append, List.filter_cons, ← hload,
      ← hswap]
    rfl
  · rw [List.mem_cons, List.mem_append, List.mem_singleton] at hr
    rcases hr with rfl | hr | rfl
    · rw [← hload]
      exact nofun
    · exact (Opcode.isLoad_of_isPoolPart (hmiddle r hr)).2
    · rw [← hswap]
      exact nofun

namespace Walk

open Program Curve FixedPoint

variable {t : Terms} {pc next : Nat} {i : Instruction} {r : Record} {s : Sheet} {e : Effect}
  {w u v u' v' : Walk}

/-! ### Work that can be done -/

theorem fadeLeft_of_pos (t : Terms) (o : Overlay) (token : String) (side : Side) {period : Nat}
    (hp : 0 < period) : ∃ left, fadeLeft t o token side period = .ok left := by
  unfold fadeLeft
  split
  · exact ⟨_, if_neg (by omega)⟩
  · exact ⟨0, rfl⟩

theorem settleFade_of_nonneg {f : Figures} {period : Nat} (hp : 0 < period)
    (hin : 0 ≤ f.amountIn) (hout : 0 ≤ f.amountOut) (o : Overlay) :
    ∃ o', Pending.settleFade t f period o = .ok o' := by
  obtain ⟨incoming, hincoming⟩ := fadeLeft_of_pos t o t.query.tokenOut .incoming hp
  obtain ⟨outgoing, houtgoing⟩ := fadeLeft_of_pos t o t.query.tokenIn .outgoing hp
  have hmake {left amount : Int} (hl : 0 ≤ left) (ha : 0 ≤ amount) :
      ∃ fade, Fade.make (left + amount) t.now = .ok fade := ⟨_, dif_pos (Int.add_nonneg hl ha)⟩
  obtain ⟨fadeIn, hfadeIn⟩ := hmake (fadeLeft_nonneg hincoming) hout
  obtain ⟨fadeOut, hfadeOut⟩ := hmake (fadeLeft_nonneg houtgoing) hin
  exact ⟨_, Outcome.bind_eq_ok.2 ⟨_, hincoming, Outcome.bind_eq_ok.2 ⟨_, houtgoing,
    Outcome.bind_eq_ok.2 ⟨_, hfadeIn, Outcome.bind_eq_ok.2 ⟨_, hfadeOut, rfl⟩⟩⟩⟩⟩

theorem settle_book {s : Sheet} {o : Overlay} (hc : s.isComputed = true)
    (h : Pending.settleBook t.query s.figures s.overlay = .ok o) :
    Pending.book.settle t s = .ok { s with overlay := o } :=
  (if_pos hc).trans (Outcome.bind_eq_ok.2 ⟨o, h, rfl⟩)

theorem settle_fade {s : Sheet} {period : Nat} {o : Overlay} (hc : s.isComputed = true)
    (h : Pending.settleFade t s.figures period s.overlay = .ok o) :
    (Pending.fade period).settle t s = .ok { s with overlay := o } :=
  (if_pos hc).trans (Outcome.bind_eq_ok.2 ⟨o, h, rfl⟩)

theorem settle_lowerOut {s : Sheet} {fee left : Int} (hc : s.isComputed = true)
    (h : lessFee s.figures.amountOut fee = .ok left) :
    (Pending.lowerOut fee).settle t s = .ok (s.withAmountOut left) :=
  (if_pos hc).trans (Outcome.bind_eq_ok.2 ⟨left, h, rfl⟩)

/-! ### Places behind the loading -/

/-- No record at the place or behind it loads balances. -/
def IsLoaded (t : Terms) (pc : Nat) : Prop :=
  ∀ r ∈ (Scan.of t.instructions t.program).records, pc ≤ r.pc → r.opcode.isLoad = false

theorem IsLoaded.behind (h : IsLoaded t w.pc) (hm : Meets t w r i next) : IsLoaded t next :=
  fun r' hr' hle => h r' hr' (Nat.le_trans (Nat.le_of_lt (hm.place ▸ hm.pc_lt)) hle)

theorem IsLoaded.not_isLoad (h : IsLoaded t w.pc) (hm : Meets t w r i next) :
    i.opcode.isLoad = false :=
  hm.opcode ▸ h r hm.record (Nat.le_of_eq hm.place.symm)

/-- Behind the one record that loads balances, none does. -/
theorem isLoaded_of_isLoad (honce : LoadsOnce t.instructions t.program) (hm : Meets t w r i next)
    (hload : i.opcode.isLoad = true) : IsLoaded t next := by
  obtain ⟨records, hv, hlength, -⟩ := honce.shape
  obtain ⟨only, honly⟩ := List.length_eq_one_iff.1 hlength
  have heq (r : Record) (hr : r ∈ (Scan.of t.instructions t.program).records)
      (hload : r.opcode.isLoad = true) : r = only := by
    rw [← (validate_eq_ok_iff.1 hv).1] at hr
    exact List.mem_singleton.1 (honly ▸ List.mem_filter.2 ⟨hr, hload⟩)
  intro r' hr' hle
  refine Bool.eq_false_iff.2 fun hload' => ?_
  have hsame : r' = r := (heq r' hr' hload').trans (heq r hm.record (hm.opcode ▸ hload)).symm
  have := hm.pc_lt
  rw [hsame] at hle
  omega

theorem not_concentrate (honce : LoadsOnce t.instructions t.program) (hm : Meets t w r i next) :
    i.opcode ≠ .concentrate := by
  obtain ⟨records, hv, -, hnone⟩ := honce.shape
  rw [hm.opcode]
  exact hnone r ((validate_eq_ok_iff.1 hv).1 ▸ hm.record)

/-! ### The way back -/

/-- A walk that fixes the output has gone from `w` to `u`, one that pays what it asks has gone to
`u'`: both amounts are in range, and if the balances were loaded before, what is given is covered
and no balance has been written. -/
structure Returns (t : Terms) (w u u' : Walk) : Prop where
  computed : u'.sheet.isComputed = true
  paid : 0 < u.sheet.figures.amountIn
  given : IsUint u'.sheet.figures.amountOut
  loaded : IsLoaded t w.pc → (0 < w.sheet.figures.balanceOut ∧
    u'.sheet.figures.amountOut ≤ w.sheet.figures.balanceOut) ∧
    Overlay.SameBalances w.sheet.overlay u.sheet.overlay ∧
    Overlay.SameBalances w.sheet.overlay u'.sheet.overlay

/-- What is covered on a balance from which a fading amount is taken is covered on all of it. -/
theorem covered_of_withoutOffset {balance offset given : Int} (hoffset : 0 ≤ offset)
    (hpos : 0 < withoutOffset balance offset) (hle : given ≤ withoutOffset balance offset) :
    0 < balance ∧ given ≤ balance := by
  unfold withoutOffset at hpos hle
  omega

/-- Work left by a record that is no fee can be done after the walk that pays, too. -/
theorem Returns.close (h : Returns t ⟨next, r.pc, e.sheet⟩ v v') (hm : Meets t w r i next)
    (honce : LoadsOnce t.instructions t.program) (hswap : i.opcode.isSwap = false)
    (hother : ∀ p, e.pending = some p → p.isFee = false) (hacted : Acted t r.pc i w.sheet e)
    (hcomputed : v.sheet.isComputed = true)
    (hpaid : v'.sheet.figures.amountIn = v.sheet.figures.amountIn)
    (hs : conclude t e.pending v.sheet = .ok s) :
    ∃ s', conclude t.fixingIn e.pending v'.sheet = .ok s' ∧
      Returns t w { v with sheet := s } { v' with sheet := s' } := by
  cases hacted with
  | netIn | grossIn | netOut | grossOut => cases hother _ rfl
  | output _ given => rw [outputOf_of_not_swap hswap] at given; cases given
  | input _ asked => rw [inputOf_of_not_swap hswap] at asked; cases asked
  | concentrate => exact absurd rfl (not_concentrate honce hm)
  | quiet =>
    cases hs
    exact ⟨_, rfl, h.computed, h.paid, h.given, fun hl => h.loaded (hl.behind hm)⟩
  | static =>
    cases hs
    exact ⟨_, rfl, h.computed, h.paid, h.given, fun hl => nomatch hl.not_isLoad hm⟩
  | @stored _ entries loaded x y initialised storedIn storedOut =>
    -- the balance that is booked on is the one that was loaded
    obtain ⟨⟨-, hcovered⟩, hsame, hsame'⟩ := h.loaded (isLoaded_of_isLoad honce hm rfl)
    cases settled_of_conclude hs with
    | idle idle => rw [hcomputed] at idle; cases idle
    | book _ booked =>
      obtain ⟨x', _, hx', -, -, hnew, -⟩ := settleBook_eq_ok booked
      rw [hsame.balance?, ← hsame'.balance?] at hx'
      rw [← hpaid] at hnew
      have hy : v'.sheet.overlay.balance? t.query.tokenOut = some y :=
        (hsame'.balance? _).trans (Overlay.balance_eq_ok_iff.1 storedOut)
      obtain ⟨o', ho'⟩ := settleBook_of_covered (q := t.fixingIn.query) hx' hy hcovered hnew
      refine ⟨_, settle_book h.computed ho', h.computed, h.paid, h.given, fun hl => ?_⟩
      exact nomatch hl.not_isLoad hm
  | @decay _ period incoming outgoing leftIn leftOut =>
    have hp : 0 < period := hm.isValid
    have hin : 0 ≤ v'.sheet.figures.amountIn := hpaid ▸ Int.le_of_lt h.paid
    obtain ⟨o', ho'⟩ := settleFade_of_nonneg (t := t.fixingIn) hp hin h.given.1 v'.sheet.overlay
    have hs' := settle_fade h.computed ho'
    have hkept := (settled_of_conclude hs).sameBalances nofun
    have hkept' := (settled_of_settle hs').sameBalances nofun
    cases settled_of_conclude hs with
    | idle idle => rw [hcomputed] at idle; cases idle
    | fade =>
      refine ⟨_, hs', h.computed, h.paid, h.given, fun hl => ?_⟩
      obtain ⟨⟨hpos, hcovered⟩, hsame, hsame'⟩ := h.loaded (hl.behind hm)
      exact ⟨covered_of_withoutOffset (fadeLeft_nonneg leftOut) hpos hcovered,
        hsame.trans hkept, hsame'.trans hkept'⟩

/-- A swap that pays what is asked gives something of the balance. -/
theorem exists_output {limits : Power.Limits} {f : Figures} {alpha : Nat} {asked : Int}
    (h : inputOf limits f (.constantProduct alpha) = some (.ok asked)) :
    ∃ given, Power.exactIn f.balanceIn f.balanceOut asked alpha = .ok given ∧ 0 < asked ∧
      IsUint given ∧ 0 < f.balanceOut ∧ given ≤ f.balanceOut := by
  obtain ⟨q, hq, h⟩ := Outcome.bind_eq_ok.1 (Option.some.inj h)
  cases h
  obtain ⟨-, -, given, hgiven, -⟩ := Power.delivers_of_exactOut hq
  obtain ⟨-, hpos, hpaid, -⟩ := Power.exactIn_eq_ok hgiven
  obtain ⟨hle, hmax⟩ := Power.exactIn_le hgiven
  exact ⟨given, hgiven, hpaid, ⟨Power.exactIn_nonneg hgiven, hmax⟩, hpos, hle⟩

/-- **What is asked can be paid**: the walk that pays it comes to its end. -/
theorem Course.payable {alpha : Nat} (h : Course t (.constantProduct alpha) w u)
    (hmode : t.query.isExactIn = false) (hsources : IgnoresMode t.feeSources)
    (honce : LoadsOnce t.instructions t.program) (b : Int) :
    ∃ u', run t.fixingIn (w.withAmounts u.sheet.figures.amountIn b) = .ok u' ∧
      Returns t w u u' := by
  induction h generalizing b with
  | @swap w r e meets ends acts =>
    obtain ⟨asked, notes, hasked, rfl⟩ := ((Acted.of_effect acts).swap rfl).2 hmode
    obtain ⟨given, hgiven, hpaid, huint, hpos, hle⟩ := exists_output hasked
    have hacts : Effect.of t.fixingIn r.pc (.constantProduct alpha)
        (w.sheet.withAmounts asked b) =
          .ok (.now ((w.sheet.withAmounts asked given).swapped r.pc t.stopAtSwap)) := by
      refine Outcome.bind_eq_ok.2 ⟨w.sheet.withAmounts asked given, ?_, rfl⟩
      have hmode' : t.fixingIn.query.isExactIn = true := rfl
      simp only [Effect.constantProduct, if_pos hmode']
      exact Outcome.bind_eq_ok.2 ⟨given, hgiven, rfl⟩
    refine ⟨_, (meets.fixingIn asked b).run_eq_ok_iff.2
      ⟨_, _, _, hacts, run_of_end (t := t.fixingIn) ends, rfl, rfl⟩, rfl, hpaid, huint,
      fun _ => ⟨⟨hpos, hle⟩, ⟨rfl, rfl, rfl⟩, ⟨rfl, rfl, rfl⟩⟩⟩
  | @behind w v r i next e s meets other acts inner closes ih =>
    have hcomputed := inner.isComputed rfl
    cases twin_of_effect hmode hsources other meets.isValid acts with
    | same hother hwanted twin =>
      obtain ⟨hin, -⟩ := amounts_of_conclude hother closes
      obtain ⟨v', hrun', hret⟩ := ih b
      have hpaid : v'.sheet.figures.amountIn = v.sheet.figures.amountIn := fixed_of_run hrun'
      obtain ⟨s', hs', hret'⟩ := hret.close meets honce other hother (.of_effect acts) hcomputed
        hpaid closes
      refine ⟨_, (meets.fixingIn _ b).run_eq_ok_iff.2 ⟨_, v', s', twin _ b, ?_, hs', rfl⟩, hret'⟩
      rw [hin]
      exact hrun'
    | @feeIn fee notes bps twin =>
      cases settled_of_conclude closes with
      | idle idle => rw [hcomputed] at idle; cases idle
      | @raiseIn _ _ gross _ raised =>
        obtain ⟨v', hrun', hret⟩ := ih b
        have hnet : afterFee gross fee = .ok v.sheet.figures.amountIn := by
          rw [afterFee_of_isUint bps (isUint_of_beforeFee raised), net_of_beforeFee bps.1 raised]
        have hacts : Effect.of t.fixingIn r.pc i (w.sheet.withAmounts gross b) =
            .ok (.wrapping (({ w.sheet with notes } : Sheet).withAmounts v.sheet.figures.amountIn b)
              (.restoreIn gross)) := by
          rw [twin, hnet]
          rfl
        refine ⟨_, (meets.fixingIn gross b).run_eq_ok_iff.2
          ⟨_, v', _, hacts, hrun', rfl, rfl⟩, hret.computed, ?_, hret.given,
          fun hl => hret.loaded (hl.behind meets)⟩
        exact Int.lt_of_lt_of_le hret.paid (le_beforeFee bps.1 raised).2
    | @feeOut fee gross bps added twin =>
      cases closes
      obtain ⟨v', hrun', hret⟩ := ih b
      have hlower := lessFee_of_isUint bps hret.given
      obtain ⟨hnonneg, hle⟩ := lessFee_mem bps.1 hlower
      refine ⟨_, (meets.fixingIn _ b).run_eq_ok_iff.2
        ⟨_, v', _, twin _ b, hrun', settle_lowerOut (t := t) hret.computed hlower, rfl⟩, ?_⟩
      refine ⟨hret.computed, hret.paid, ⟨hnonneg, Int.le_trans hle hret.given.2⟩, fun hl => ?_⟩
      obtain ⟨⟨hpos, hcovered⟩, hsame⟩ := hret.loaded (hl.behind meets)
      exact ⟨⟨hpos, Int.le_trans hle hcovered⟩, hsame⟩

end Walk

end SwapMachine
