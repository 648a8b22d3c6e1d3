import SwapMachine.Proofs.PoolHistory

/-!
# SwapMachine.Proofs.Preview — quotes tell what swaps do

A quote stops its walk at the first swap, and a swap walks on to the end.  Where the last record of
a valid program is its only swap nothing is left to walk, so that the two walks take the same steps
and then do the same work that was left for later.

* `Walk.resumed_run`: walks that stop at a swap and walks that do not end alike, apart from the mark
  that says so.
* `quote_eq_swap`: a quote and a swap of such an order answer the same, and what the swap has written
  is never stale.
-/

namespace SwapMachine

/-- A valid program whose last record is its only swap. -/
def Program.EndsInOnlySwap (set : InstructionSet) (program : Bytes) : Prop :=
  ∃ records last, Program.validate set program = .ok (records ++ [last]) ∧
    last.opcode.isSwap = true ∧ ∀ r ∈ records, r.opcode.isSwap = false

/-- A valid program whose last record is its only swap, which is the given instruction. -/
structure Program.EndsIn (set : InstructionSet) (program : Bytes) (i : Instruction) : Prop where
  swap : i.opcode.isSwap = true
  shape : ∃ records last, Program.validate set program = .ok (records ++ [last]) ∧
    last.parse = .ok i ∧ ∀ r ∈ records, r.opcode.isSwap = false

theorem Program.EndsIn.endsInOnlySwap {set : InstructionSet} {program : Bytes} {i : Instruction}
    (h : EndsIn set program i) : EndsInOnlySwap set program := by
  obtain ⟨records, last, hv, hlast, hothers⟩ := h.shape
  exact ⟨records, last, hv, (Instruction.parse_eq_ok hlast).1 ▸ h.swap, hothers⟩

theorem Program.IsPool.exists_endsIn {set : InstructionSet} {program : Bytes} {entries : Entries}
    (h : IsPool set program entries) : ∃ alpha : Nat, (alpha : Int) = FixedPoint.one ∧
      EndsIn set program (.constantProduct alpha) := by
  obtain ⟨first, middle, last, hv, hfirst, ⟨alpha, halpha, hlast⟩, hmiddle⟩ := h.shape
  refine ⟨alpha, halpha, rfl, first :: middle, last, hv, hlast, fun r hr => ?_⟩
  rcases List.mem_cons.1 hr with rfl | hr
  · rw [← (Instruction.parse_eq_ok hfirst).1]
    rfl
  · exact Opcode.isSwap_of_isPoolPart (hmiddle r hr)

theorem Program.IsPool.endsInOnlySwap {set : InstructionSet} {program : Bytes} {entries : Entries}
    (h : IsPool set program entries) : EndsInOnlySwap set program := by
  obtain ⟨alpha, -, hends⟩ := h.exists_endsIn
  exact hends.endsInOnlySwap

namespace Walk

open Program

variable {t : Terms} {stop : Bool}

/-! ### The mark that a walk has been halted -/

/-- The sheet without the mark that its walk has been halted. -/
def Sheet.resumed (s : Sheet) : Sheet := { s with isHalted := false }

/-- The effect on a sheet without the mark. -/
def Effect.resumed (e : Effect) : Effect := ⟨e.sheet.resumed, e.pending⟩

/-- The walk without the mark. -/
def resumed (w : Walk) : Walk := { w with sheet := w.sheet.resumed }

/-- The terms of a walk that does or does not stop at the first swap. -/
def Terms.stopping (t : Terms) (stop : Bool) : Terms := { t with stopAtSwap := stop }

/-- Only swaps look at whether the walk is to stop. -/
theorem effect_stopping_of_not_swap {pc : Nat} {i : Instruction} {s : Sheet}
    (h : i.opcode.isSwap = false) : Effect.of (t.stopping stop) pc i s = Effect.of t pc i s := by
  cases i with
  | constantProduct | pegged | density => cases h
  | _ => rfl

theorem resumed_swapped (t : Terms) (stop : Bool) (pc : Nat) (x : Outcome Sheet) :
    Effect.resumed <$> Effect.swapped (t.stopping stop) pc x =
      Effect.resumed <$> Effect.swapped t pc x := by
  cases x <;> rfl

/-- A swap that stops the walk does nothing else that one which does not stop it would not do. -/
theorem resumed_effect_of_swap {pc : Nat} {i : Instruction} {s : Sheet}
    (h : i.opcode.isSwap = true) :
    Effect.resumed <$> Effect.of (t.stopping stop) pc i s =
      Effect.resumed <$> Effect.of t pc i s := by
  cases i with
  | constantProduct alpha => exact resumed_swapped t stop pc (Effect.constantProduct t pc alpha s)
  | pegged rate => exact resumed_swapped t stop pc (Effect.pegged t.query rate s)
  | density curve => exact resumed_swapped t stop pc (Effect.density t.query curve s)
  | _ => cases h

/-- A swap leaves no work for later. -/
theorem pending_of_swap {pc : Nat} {i : Instruction} {s : Sheet} {e : Effect}
    (hi : i.opcode.isSwap = true) (h : Effect.of t pc i s = .ok e) : e.pending = none := by
  cases i with
  | constantProduct | pegged | density =>
    obtain ⟨_, -, h⟩ := Outcome.bind_eq_ok.1 h
    cases h
    rfl
  | _ => cases hi

theorem destination?_of_swap {q : Query} {i : Instruction} (hi : i.opcode.isSwap = true) :
    i.destination? q = none := by
  cases i with
  | constantProduct | pegged | density => rfl
  | _ => cases hi

theorem resumed_of_if (c : Bool) (x : Outcome Sheet) (s : Sheet) :
    Sheet.resumed <$> (if c then x else pure s) =
      if c then Sheet.resumed <$> x else pure s.resumed := by
  cases c <;> rfl

/-- Work done later neither looks at the mark nor moves it. -/
theorem resumed_pending (p : Pending) (s : Sheet) :
    Sheet.resumed <$> p.settle t s = p.settle t s.resumed := by
  cases p with
  | restoreIn | restoreOut => rfl
  | _ =>
    refine (resumed_of_if _ _ _).trans ?_
    simp only [map_bind, map_pure]
    rfl

/-- The same work done after walks that end alike ends alike. -/
theorem resumed_close (t : Terms) (p : Option Pending) (x : Outcome Walk) :
    resumed <$> (x >>= close t p) = resumed <$> x >>= close t p := by
  cases x with
  | error f => rfl
  | ok w =>
    have hsheet : Sheet.resumed <$> conclude t p w.sheet = conclude t p w.sheet.resumed := by
      cases p with
      | none => rfl
      | some p => exact resumed_pending p w.sheet
    show resumed <$> close t p w = close t p w.resumed
    unfold close
    show _ = (conclude t p w.sheet.resumed >>= fun s => pure { w.resumed with sheet := s })
    rw [← hsheet]
    cases conclude t p w.sheet <;> rfl

/-! ### Walks -/

theorem run_of_isOver {w : Walk} (h : w.isOver t = true) : run t w = .ok w := by
  rw [run, if_pos h]

theorem run_of_end {w : Walk} (h : w.pc = t.program.length) : run t w = .ok w := by
  refine run_of_isOver ?_
  rw [isOver, h, decide_eq_true (Nat.le_refl _), Bool.true_or]

/-- A walk that stands at a record lets it act, walks on, and does the work that the record left. -/
theorem run_of_record {w : Walk} {r : Record} {i : Instruction} {next : Nat}
    (hover : ¬ w.isOver t = true)
    (hr : Record.decodeAt t.instructions t.program w.pc = .ok r) (hi : r.parse = .ok i)
    (hnext : nextPlace t r i = .ok next) :
    run t w = Effect.of t r.pc i w.sheet >>= fun e =>
      run t ⟨next, r.pc, e.sheet⟩ >>= close t e.pending := by
  rw [run_of_not_isOver hover, step_of_record hr hi hnext]
  cases Effect.of t r.pc i w.sheet <;> rfl

/-- A walk that stands at a swap with nothing behind it is done when the swap is. -/
theorem resumed_run_of_last {w : Walk} {r : Record} {i : Instruction}
    (hover : ¬ w.isOver t = true)
    (hr : Record.decodeAt t.instructions t.program w.pc = .ok r) (hi : r.parse = .ok i)
    (hlast : r.next = t.program.length) (hswap : i.opcode.isSwap = true) :
    resumed <$> run t w = Effect.resumed <$> Effect.of t r.pc i w.sheet >>= fun e =>
      pure ⟨r.next, r.pc, e.sheet⟩ := by
  have hnext : nextPlace t r i = .ok r.next := by rw [nextPlace, destination?_of_swap hswap]
  rw [run_of_record hover hr hi hnext]
  cases he : Effect.of t r.pc i w.sheet with
  | error f => rfl
  | ok e =>
    show resumed <$> (run t ⟨r.next, r.pc, e.sheet⟩ >>= close t e.pending) = _
    rw [run_of_end hlast, pending_of_swap hswap he]
    rfl

/-- **Walks that stop at a swap**, and walks that do not, end alike in a program the last record of
which is its only swap. -/
theorem resumed_run (h : EndsInOnlySwap t.instructions t.program) (stop : Bool) {w : Walk}
    (hpc : w.pc ∈ places t.instructions t.program) :
    resumed <$> run (t.stopping stop) w = resumed <$> run t w := by
  obtain ⟨records, last, hv, hlast, hothers⟩ := h
  obtain ⟨hrecords, hw⟩ := validate_eq_ok_iff.1 hv
  induction hn : t.program.length - w.pc using Nat.strongRecOn generalizing w with
  | ind n ih =>
    by_cases hover : w.isOver t = true
    · rw [run_of_isOver hover, run_of_isOver (t := t.stopping stop) hover]
    obtain ⟨r, hr, i, next, hrpc, hi, hop, -, hnext, hm, -⟩ := step_of_wellFormed hw hpc hover
    have hdecode := Scan.decodeAt_of_mem_scan hr
    rw [hrpc] at hdecode
    rw [← hrecords] at hr
    rcases List.mem_append.1 hr with hr | hr
    · rw [run_of_record hover hdecode hi hnext,
        run_of_record (t := t.stopping stop) hover hdecode hi hnext,
        effect_stopping_of_not_swap (hop ▸ hothers r hr)]
      cases Effect.of t r.pc i w.sheet with
      | error f => rfl
      | ok e =>
        have hlt := lt_of_nextPlace hnext
        have hpc_lt := pc_lt_of_not_isOver hover
        have hih := ih (t.program.length - next) (by omega) (w := ⟨next, r.pc, e.sheet⟩) hm rfl
        show resumed <$> (run (t.stopping stop) ⟨next, r.pc, e.sheet⟩ >>= close t e.pending) =
          resumed <$> (run t ⟨next, r.pc, e.sheet⟩ >>= close t e.pending)
        rw [resumed_close, resumed_close, hih]
    · obtain rfl := List.mem_singleton.1 hr
      have hend := Scan.next_last hw.whole hrecords.symm
      have hswap : i.opcode.isSwap = true := by rw [hop, hlast]
      rw [resumed_run_of_last hover hdecode hi hend hswap,
        resumed_run_of_last (t := t.stopping stop) hover hdecode hi hend hswap,
        resumed_effect_of_swap hswap]

end Walk

namespace Engine

open Program

variable {e : Engine} {o : Order} {r : Request} {now : Int}

theorem priceWalk_resumed (r : Request) (q : Query) (x : Outcome Walk) :
    priceWalk r q (Walk.resumed <$> x) = priceWalk r q x := by
  cases x <;> rfl

/-- The price does not depend on whether the walk stops at the swap. -/
theorem price_stopping (h : EndsInOnlySwap e.instructions o.program) (hash : String) :
    price e o hash r now true = price e o hash r now false := by
  unfold price
  cases query o hash r with
  | error f => rfl
  | ok qa =>
    obtain ⟨q, amount⟩ := qa
    let t := terms e o q now false
    have h0 : 0 ∈ places t.instructions t.program := by
      obtain ⟨records, last, hv, -⟩ := h
      exact Scan.zero_mem_boundaries (validate_eq_ok_iff.1 hv).2.whole
    have hwalk (s : Walk.Sheet) :
        priceWalk r q (Walk.through (terms e o q now true) 0 s) =
          priceWalk r q (Walk.through t 0 s) := by
      have hstop : terms e o q now true = t.stopping true := rfl
      rw [hstop, Walk.through_zero, Walk.through_zero, ← priceWalk_resumed,
        Walk.resumed_run h true h0, priceWalk_resumed]
    dsimp only
    rw [hwalk]

theorem priced_stopping (h : EndsInOnlySwap e.instructions o.program) :
    e.priced o r now true = e.priced o r now false := by
  unfold priced
  simp only [price_stopping h]

/-- **Quotes are previews**: in any state of an engine, and with any outside parties, a quote and a
swap of an order whose program is valid and ends in its only swap give the same amounts or fail for
the same cause; and whatever the swap's walk has come to under the order's lock can be committed. -/
theorem quote_eq_swap (e : Engine) (o : Order) (r : Request) (now : Int)
    (h : EndsInOnlySwap e.instructions o.program) :
    (e.quote o r now).outcome = (e.swap o r now).1.outcome ∧
      ∀ p, (price (locked e o) o o.hash r now false).outcome = .ok p →
        ∃ c, (locked e o).store.commit p.overlay = .ok c := by
  constructor
  · rw [quote_outcome, priced_stopping h]
    cases hp : e.priced o r now false with
    | error f => exact (swap_of_unpriced hp).1.symm
    | ok p => exact (swap_of_priced hp).1.symm
  · intro p hp
    exact Store.commit_of_current (origin_of_price hp).2

/-- What an input of 100 gives in the pool with a fee, asked first and then done. -/
theorem quote_eq_swap_feePool :
    EndsInOnlySwap feePoolEngine.instructions feePoolOrder.program ∧
      ∃ f, (feePoolEngine.quote feePoolOrder (feePoolSwap 'a' 'b' 100).request 0).outcome = .ok f ∧
        (feePoolEngine.swap feePoolOrder (feePoolSwap 'a' 'b' 100).request 0).1.outcome = .ok f := by
  have hends := isPool_feePool.endsInOnlySwap
  obtain ⟨hagree, -⟩ :=
    quote_eq_swap feePoolEngine feePoolOrder (feePoolSwap 'a' 'b' 100).request 0 hends
  have hquote : (feePoolEngine.quote feePoolOrder
      (feePoolSwap 'a' 'b' 100).request 0).outcome.toOption.isSome = true := by
    decide +kernel
  obtain ⟨f, hf⟩ := Option.isSome_iff_exists.1 hquote
  replace hf := Outcome.eq_ok_of_toOption hf
  exact ⟨hends, f, hf, hagree ▸ hf⟩

end Engine

end SwapMachine
