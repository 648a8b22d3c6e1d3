import SwapMachine.Proofs.Counterpart
import SwapMachine.Proofs.Preview

/-!
# SwapMachine.Proofs.Straight — programs without jumps

A walk that does not jump lets the records of the program act one after another, each around all
that stands behind it.  Such a walk can be taken apart along the list of the records.

* `Walk.pass`: the records act in turn (`sheet_through`), and so the price is found
  (`Engine.priced_straight`).
* `pass_checks`: checks pass or fail whatever the sheet is.
* `pass_writing`: fees, checks and swaps do not look at the stored state.
* `covers_of_pass`: a swap behind fees and checks gives no more than the balance;
  `prices_of_pass`: one along the constant product prices the trade.
* `Engine.answer_straight`, `Engine.passed_of_answer`: answers by passes, and what swaps store.
-/

namespace SwapMachine

namespace Opcode

/-- The operation checks something or is salt. -/
def isCheck (op : Opcode) : Bool := op.isControl && !op.isJump

/-- The operation may stand before a swap: it checks something or charges a fee. -/
def isToll (op : Opcode) : Bool := op.isCheck || op.isFee

theorem isPoolPart_of_isToll {op : Opcode} (h : op.isToll = true) : op.isPoolPart = true := by
  cases op <;> first | rfl | cases h

theorem isToll_of_isCheck {op : Opcode} (h : op.isCheck = true) : op.isToll = true := by
  rw [isToll, h, Bool.true_or]

theorem isJump_of_isToll {op : Opcode} (h : op.isToll = true) : op.isJump = false := by
  cases op <;> first | rfl | cases h

theorem isJump_of_isSwap {op : Opcode} (h : op.isSwap = true) : op.isJump = false := by
  cases op <;> first | rfl | cases h

end Opcode

namespace Program

/-- A valid program of the given records, none of which jumps. -/
structure IsStraight (set : InstructionSet) (program : Bytes) (records : List Record) : Prop where
  valid : validate set program = .ok records
  ahead : ∀ r ∈ records, r.opcode.isJump = false

theorem parts_of_tolls {tolls : List Record} {last : Record}
    (htolls : ∀ r ∈ tolls, r.opcode.isToll = true) (hlast : last.opcode.isSwap = true) :
    ∀ r ∈ tolls ++ [last], r.opcode.isToll = true ∨ r.opcode.isSwap = true := by
  intro r hr
  rcases List.mem_append.1 hr with hr | hr
  · exact Or.inl (htolls r hr)
  · exact Or.inr (List.mem_singleton.1 hr ▸ hlast)

/-- Records that load stored balances, check, act around all that stands behind with the given
instruction, check or charge fees, and swap. -/
structure Layered (entries : Entries) (layer : Instruction) (first : Record) (checks : List Record)
    (around : Record) (tolls : List Record) (last : Record) : Prop where
  loads : first.parse = .ok (.dynamicBalances entries)
  checks : ∀ r ∈ checks, r.opcode.isCheck = true
  layers : around.parse = .ok layer
  tolls : ∀ r ∈ tolls, r.opcode.isToll = true
  swaps : last.opcode.isSwap = true

namespace Layered

variable {set : InstructionSet} {program : Bytes} {entries : Entries} {layer : Instruction}
  {first around last : Record} {checks tolls : List Record}

theorem isStraight (h : Layered entries layer first checks around tolls last)
    (hlayer : layer.opcode.isJump = false)
    (hv : validate set program = .ok (first :: (checks ++ around :: (tolls ++ [last])))) :
    IsStraight set program (first :: (checks ++ around :: (tolls ++ [last]))) := by
  refine ⟨hv, fun r hr => ?_⟩
  simp only [List.mem_cons, List.mem_append, List.not_mem_nil, or_false] at hr
  rcases hr with rfl | hr | rfl | hr | rfl
  · rw [← (Instruction.parse_eq_ok h.loads).1]; rfl
  · exact Opcode.isJump_of_isToll (Opcode.isToll_of_isCheck (h.checks r hr))
  · rwa [← (Instruction.parse_eq_ok h.layers).1]
  · exact Opcode.isJump_of_isToll (h.tolls r hr)
  · exact Opcode.isJump_of_isSwap h.swaps

theorem endsInOnlySwap (h : Layered entries layer first checks around tolls last)
    (hlayer : layer.opcode.isSwap = false)
    (hv : validate set program = .ok (first :: (checks ++ around :: (tolls ++ [last])))) :
    EndsInOnlySwap set program := by
  have htoll {r : Record} (hr : r.opcode.isToll = true) : r.opcode.isSwap = false :=
    Opcode.isSwap_of_isPoolPart (Opcode.isPoolPart_of_isToll hr)
  refine ⟨first :: (checks ++ around :: tolls), last, ?_, h.swaps, fun r hr => ?_⟩
  · rw [hv, List.cons_append, List.append_assoc, List.cons_append]
  · simp only [List.mem_cons, List.mem_append] at hr
    rcases hr with rfl | hr | rfl | hr
    · rw [← (Instruction.parse_eq_ok h.loads).1]; rfl
    · exact htoll (Opcode.isToll_of_isCheck (h.checks r hr))
    · rwa [← (Instruction.parse_eq_ok h.layers).1]
    · exact htoll (h.tolls r hr)

/-- The records that stand inside the layer do not look at the stored state. -/
theorem parts (h : Layered entries layer first checks around tolls last) :
    ∀ r ∈ tolls ++ [last], r.opcode.isToll = true ∨ r.opcode.isSwap = true :=
  parts_of_tolls h.tolls h.swaps

end Layered

end Program

namespace Curve

theorem Peg.le_of_requireWithin {amountOut balanceOut : Int} {x : Unit}
    (h : Peg.requireWithin amountOut balanceOut = .ok x) : amountOut ≤ balanceOut := by
  unfold Peg.requireWithin at h
  split at h
  · cases h
  · omega

theorem Density.available_le {c : Density} {balanceOut most : Int}
    (h : c.available balanceOut = .ok most) : 0 ≤ balanceOut ∧ most ≤ balanceOut := by
  obtain ⟨hbalance, rfl⟩ := Density.available_eq_ok_iff.1 h
  exact ⟨hbalance, Int.min_le_left _ _⟩

end Curve

namespace Walk

open Program Curve

variable {t : Terms} {pc : Nat} {i : Instruction} {r : Record} {rs : List Record}
  {s v u : Sheet} {e : Effect}

/-! ### Passing records in turn -/

/-- The records act in turn, each around those behind it. -/
def pass (t : Terms) : List Record → Sheet → Outcome Sheet
  | [], s => .ok s
  | r :: rs, s => do
    let i ← r.parse
    let e ← Effect.of t r.pc i s
    let v ← pass t rs e.sheet
    conclude t e.pending v

theorem pass_cons (hi : r.parse = .ok i) (s : Sheet) :
    pass t (r :: rs) s = Effect.of t r.pc i s >>= fun e =>
      pass t rs e.sheet >>= conclude t e.pending := by
  rw [pass, hi]
  rfl

/-- What a pass that succeeds has come to, at a record that is known. -/
theorem effect_of_pass (hi : r.parse = .ok i) (h : pass t (r :: rs) s = .ok u) :
    ∃ e v, Effect.of t r.pc i s = .ok e ∧ pass t rs e.sheet = .ok v ∧
      conclude t e.pending v = .ok u := by
  rw [pass_cons hi] at h
  obtain ⟨e, he, h⟩ := Outcome.bind_eq_ok.1 h
  obtain ⟨v, hv, h⟩ := Outcome.bind_eq_ok.1 h
  exact ⟨e, v, he, hv, h⟩

/-- What a pass that succeeds has come to, at any record. -/
theorem pass_cons_eq_ok (h : pass t (r :: rs) s = .ok u) :
    ∃ i e v, r.parse = .ok i ∧ Acted t r.pc i s e ∧ pass t rs e.sheet = .ok v ∧
      conclude t e.pending v = .ok u := by
  obtain ⟨i, hi, -⟩ := Outcome.bind_eq_ok.1 h
  obtain ⟨e, v, he, hv, hu⟩ := effect_of_pass hi h
  exact ⟨i, e, v, hi, .of_effect he, hv, hu⟩

theorem destination?_of_not_jump {q : Query} (h : i.opcode.isJump = false) :
    i.destination? q = none := by
  cases i <;> first | rfl | cases h

/-- Only a swap that is to stop the walk halts it. -/
theorem Acted.isHalted (h : Acted t pc i s e) (hstop : t.stopAtSwap = false) :
    e.sheet.isHalted = s.isHalted := by
  cases h with
  | output => exact (congrArg (s.isHalted || ·) hstop).trans (Bool.or_false _)
  | input => exact (congrArg (s.isHalted || ·) hstop).trans (Bool.or_false _)
  | _ => rfl

theorem sheet_close (t : Terms) (p : Option Pending) (x : Outcome Walk) :
    Walk.sheet <$> (x >>= close t p) = Walk.sheet <$> x >>= conclude t p := by
  cases x with
  | error f => rfl
  | ok w =>
    show Walk.sheet <$> close t p w = conclude t p w.sheet
    unfold close
    cases conclude t p w.sheet <;> rfl

/-- **A walk without jumps** passes the records from its place on. -/
theorem sheet_run (hstop : t.stopAtSwap = false) {w : Walk} (hhalted : w.sheet.isHalted = false)
    {records : List Record}
    (hscan : Scan.suffix t.instructions w.pc (t.program.drop w.pc) = ⟨records, none⟩)
    (hahead : ∀ r ∈ records, r.opcode.isJump = false) :
    Walk.sheet <$> run t w = pass t records w.sheet := by
  induction hn : t.program.length - w.pc using Nat.strongRecOn generalizing w records with
  | ind n ih =>
    obtain ⟨hge, hs⟩ | ⟨f, hs⟩ | ⟨r, hr, hle, hdecode, hs⟩ :=
      Scan.suffix_drop_cases t.instructions t.program w.pc
    · cases hs.symm.trans hscan
      have hover : w.isOver t = true := by
        rw [isOver, decide_eq_true hge, Bool.true_or]
      rw [run_of_isOver hover]
      rfl
    · cases hs.symm.trans hscan
    · obtain ⟨hrecords, hfault⟩ := Scan.mk.inj (hs.symm.trans hscan)
      subst hrecords
      have hlt : w.pc < r.next := by
        simp only [Record.next, Record.headerSize]
        omega
      have hover : ¬ w.isOver t = true := by
        rw [isOver, hhalted, Bool.or_false, decide_eq_true_eq]
        omega
      cases hi : r.parse with
      | error f =>
        rw [run_of_not_isOver hover, step, hdecode, pass, hi]
        show Walk.sheet <$> ((r.parse >>= _) >>= _) = _
        rw [hi]
        rfl
      | ok i =>
        have hjump : i.opcode.isJump = false := by
          rw [(Instruction.parse_eq_ok hi).1]
          exact hahead r List.mem_cons_self
        have hnext : nextPlace t r i = .ok r.next := by
          rw [nextPlace, destination?_of_not_jump hjump]
        rw [run_of_record hover hdecode hi hnext, pass_cons hi]
        cases he : Effect.of t r.pc i w.sheet with
        | error f => rfl
        | ok e =>
          have hhalted' : e.sheet.isHalted = false :=
            ((Acted.of_effect he).isHalted hstop).trans hhalted
          have hrest := ih (t.program.length - r.next) (by omega) (w := ⟨r.next, r.pc, e.sheet⟩)
            hhalted' (congrArg (Scan.mk _) hfault)
            (fun r' hr' => hahead r' (List.mem_cons_of_mem r hr')) rfl
          exact (sheet_close t e.pending _).trans (congrArg (· >>= conclude t e.pending) hrest)

/-- A walk from the start passes the records of the program. -/
theorem sheet_through {records : List Record}
    (hp : IsStraight t.instructions t.program records) (hstop : t.stopAtSwap = false)
    (f : Figures) (o : Overlay) :
    Walk.sheet <$> through t 0 (.start f o) = pass t records (.start f o) := by
  obtain ⟨rfl, hw⟩ := validate_eq_ok_iff.1 hp.valid
  rw [through_zero]
  refine sheet_run hstop rfl ?_ hp.ahead
  rw [List.drop_zero]
  exact congrArg (Scan.mk _) hw.whole

/-! ### Checks -/

/-- What a check asks for. -/
def condition (t : Terms) : Instruction → Outcome Unit
  | .deadline time => Effect.requireInTime t time
  | .takerHolds token => Effect.requireHolds t token
  | .takerHoldsAtLeast token minimum => Effect.requireHoldsAtLeast t token minimum
  | .takerShareAtLeast token minimum => Effect.requireShareAtLeast t token minimum
  | _ => .ok ()

theorem effect_of_check (h : i.opcode.isCheck = true) (s : Sheet) :
    Effect.of t pc i s = Effect.require s (condition t i) := by
  cases i <;> first | rfl | cases h

/-- What checks in turn ask for. -/
def conditions (t : Terms) : List Record → Outcome Unit
  | [] => .ok ()
  | r :: rs => do
    let i ← r.parse
    condition t i
    conditions t rs

/-- **Checks** pass or fail whatever the sheet is, and leave it to the records behind them. -/
theorem pass_checks {checks : List Record} (h : ∀ r ∈ checks, r.opcode.isCheck = true)
    (rest : List Record) (s : Sheet) :
    pass t (checks ++ rest) s = conditions t checks >>= fun _ => pass t rest s := by
  induction checks with
  | nil => rfl
  | cons r checks ih =>
    rw [List.cons_append, conditions]
    cases hi : r.parse with
    | error f => rw [pass, hi]; rfl
    | ok i =>
      have hcheck : i.opcode.isCheck = true := by
        rw [(Instruction.parse_eq_ok hi).1]
        exact h r List.mem_cons_self
      rw [pass_cons hi, effect_of_check hcheck]
      show _ = (condition t i >>= fun _ => conditions t checks) >>= _
      cases condition t i with
      | error f => rfl
      | ok _ =>
        show pass t (checks ++ rest) s >>= conclude t none = _
        rw [ih fun r' hr' => h r' (List.mem_cons_of_mem r hr')]
        show ((conditions t checks >>= fun _ => pass t rest s) >>= pure) = _
        rw [bind_pure]
        rfl

/-! ### Records that do not look at the stored state -/

/-- The sheet with other writes. -/
def Sheet.writing (o : Overlay) (s : Sheet) : Sheet := { s with overlay := o }

/-- The effect with other writes on the sheet. -/
def Effect.writing (o : Overlay) (e : Effect) : Effect := ⟨e.sheet.writing o, e.pending⟩

theorem swapped_writing (o : Overlay) (x : Outcome Sheet) :
    Effect.swapped t pc (Sheet.writing o <$> x) = Effect.writing o <$> Effect.swapped t pc x := by
  cases x <;> rfl

/-- Checks, fees and swaps do not look at the stored state and leave it alone. -/
theorem effect_writing (h : i.opcode.isToll = true ∨ i.opcode.isSwap = true) (o : Overlay)
    (s : Sheet) : Effect.of t pc i (s.writing o) = Effect.writing o <$> Effect.of t pc i s := by
  cases i with
  | jump | jumpIfTokenIn | jumpIfTokenOut | staticBalances | dynamicBalances | decay | concentrate
  | inert => rcases h with h | h <;> cases h
  | salt | deadline | takerHolds | takerHoldsAtLeast | takerShareAtLeast =>
    rw [effect_of_check rfl, effect_of_check rfl]
    exact Effect.require_onSheet (.writing o) s _
  | flatFeeIn =>
    exact Effect.feeIn_onSheet (.writing o) (fun _ => rfl) (fun _ _ => rfl) t.query _ s
  | flatFeeOut =>
    exact Effect.feeOut_onSheet (.writing o) (fun _ => rfl) (fun _ _ => rfl) t.query _ s
  | dynamicFeeIn source =>
    simp only [Effect.of, map_bind]
    exact congrArg _ (funext fun fee => Effect.feeIn_onSheet (.writing o) (fun _ => rfl)
      (fun _ _ => rfl) t.query fee (s.note pc (.dynamicFee fee)))
  | constantProduct alpha =>
    refine Eq.trans ?_ (swapped_writing o (Effect.constantProduct t pc alpha s))
    simp only [Effect.of, Effect.constantProduct]
    split <;> (simp only [map_bind, map_pure]; rfl)
  | pegged rate =>
    refine Eq.trans ?_ (swapped_writing o (Effect.pegged t.query rate s))
    simp only [Effect.of, Effect.pegged]
    split <;> (simp only [map_bind, map_pure]; rfl)
  | density curve =>
    refine Eq.trans ?_ (swapped_writing o (Effect.density t.query curve s))
    simp only [Effect.of, Effect.density]
    split <;> (simp only [map_bind, map_pure]; rfl)

/-- Checks and fees leave no work for later but that of fees, and swaps leave none. -/
theorem Acted.isFee_of_pending (h : Acted t pc i s e)
    (hi : i.opcode.isToll = true ∨ i.opcode.isSwap = true) {p : Pending}
    (hp : e.pending = some p) : p.isFee = true := by
  cases h with
  | static | stored | decay | concentrate => rcases hi with h | h <;> cases h
  | quiet | output | input => cases hp
  | netIn | grossIn | netOut | grossOut => cases hp; rfl

theorem writing_of_if (c : Bool) (o : Overlay) (x : Outcome Sheet) (s : Sheet) :
    Sheet.writing o <$> (if c then x else pure s) =
      if c then Sheet.writing o <$> x else pure (s.writing o) := by
  cases c <;> rfl

theorem conclude_writing {p : Option Pending} (hp : ∀ q, p = some q → q.isFee = true) (o : Overlay)
    (s : Sheet) : conclude t p (s.writing o) = Sheet.writing o <$> conclude t p s := by
  cases p with
  | none => rfl
  | some p =>
    cases p with
    | book | fade | scale => cases hp _ rfl
    | restoreIn | restoreOut => rfl
    | raiseIn | lowerOut =>
      refine Eq.trans ?_ (writing_of_if _ _ _ _).symm
      simp only [map_bind, map_pure]
      rfl

/-- **Checks, fees and swaps** do not look at the stored state and leave it alone. -/
theorem pass_writing (h : ∀ r ∈ rs, r.opcode.isToll = true ∨ r.opcode.isSwap = true) (o : Overlay)
    (s : Sheet) : pass t rs (s.writing o) = Sheet.writing o <$> pass t rs s := by
  induction rs generalizing s with
  | nil => rfl
  | cons r rs ih =>
    cases hi : r.parse with
    | error f => rw [pass, pass, hi]; rfl
    | ok i =>
      have hpart : i.opcode.isToll = true ∨ i.opcode.isSwap = true := by
        rw [(Instruction.parse_eq_ok hi).1]
        exact h r List.mem_cons_self
      rw [pass_cons hi, pass_cons hi, effect_writing hpart]
      cases he : Effect.of t r.pc i s with
      | error f => rfl
      | ok e =>
        show pass t rs (e.sheet.writing o) >>= conclude t e.pending =
          Sheet.writing o <$> (pass t rs e.sheet >>= conclude t e.pending)
        rw [ih fun r' hr' => h r' (List.mem_cons_of_mem r hr')]
        cases pass t rs e.sheet with
        | error f => rfl
        | ok v =>
          exact conclude_writing (fun q hq => (Acted.of_effect he).isFee_of_pending hpart hq) o v

theorem overlay_of_pass (h : ∀ r ∈ rs, r.opcode.isToll = true ∨ r.opcode.isSwap = true)
    (hv : pass t rs s = .ok v) : v.overlay = s.overlay := by
  have hsame : pass t rs (s.writing s.overlay) = pass t rs s := rfl
  rw [pass_writing h, hv] at hsame
  have := Except.ok.inj hsame
  rw [← this]
  rfl

/-! ### What passes keep -/

/-- A relation between the begin and the end of passes holds if it holds of passes of nothing, and
is handed back from what stands behind a record. -/
theorem pass_induction {R : Sheet → Sheet → Prop} (ended : ∀ s, R s s)
    (acts : ∀ {pc i s e v u}, Acted t pc i s e → i.IsValid → R e.sheet v →
      conclude t e.pending v = .ok u → R s u) (h : pass t rs s = .ok u) : R s u := by
  induction rs generalizing s u with
  | nil => cases h; exact ended s
  | cons r rs ih =>
    obtain ⟨i, e, v, hi, hacted, hv, hu⟩ := pass_cons_eq_ok h
    exact acts hacted (Instruction.parse_eq_ok hi).2 (ih hv) hu

theorem fixed_of_pass (h : pass t rs s = .ok u) :
    u.figures.fixed t.query = s.figures.fixed t.query :=
  pass_induction (R := fun s u => u.figures.fixed t.query = s.figures.fixed t.query)
    (fun _ => rfl) (fun hacted _ hv hu => hacted.fixed hv hu) h

theorem isSound_of_pass (h : pass t rs s = .ok u) (hs : s.IsSound) : u.IsSound := by
  refine pass_induction (R := fun s u => s.IsSound → u.IsSound) (fun _ h => h) ?_ h hs
  intro pc i s e v u hacted hvalid ih hu hs
  obtain ⟨hsheet, hpending⟩ := hacted.isSound hvalid hs
  cases hp : e.pending with
  | none => rw [hp] at hu; cases hu; exact ih hsheet
  | some p =>
    rw [hp] at hu
    exact (settled_of_conclude hu).isSound (hpending p hp) (ih hsheet)

/-- Amounts and balances stay in range behind checks and fees and the swap, whatever is stored. -/
theorem figures_isSound_of_pass (h : ∀ r ∈ rs, r.opcode.isToll = true ∨ r.opcode.isSwap = true)
    (hs : s.figures.IsSound) (hv : pass t rs s = .ok v) : v.figures.IsSound := by
  have hsame := pass_writing (t := t) h (.start "" .empty) s
  rw [hv] at hsame
  exact (isSound_of_pass hsame ⟨hs, Overlay.isSound_start Snapshot.isSound_empty ""⟩).figures

theorem effect_of_load {entries : Entries} {loaded : Overlay} {x y : Int}
    (hinit : Effect.initialise entries s.overlay = .ok loaded)
    (hx : loaded.balance t.query.tokenIn = .ok x) (hy : loaded.balance t.query.tokenOut = .ok y) :
    Effect.of t pc (.dynamicBalances entries) s =
      .ok (.wrapping ((s.writing loaded).withBalances x y) .book) :=
  Outcome.bind_eq_ok.2 ⟨loaded, hinit, Outcome.bind_eq_ok.2 ⟨x, hx,
    Outcome.bind_eq_ok.2 ⟨y, hy, rfl⟩⟩⟩

/-- What a pass has come to that loads the stored balances first and has computed a trade: the trade
has been booked. -/
theorem loaded_of_pass {entries : Entries} (hr : r.parse = .ok (.dynamicBalances entries))
    (h : pass t (r :: rs) s = .ok u) (hc : u.isComputed = true) :
    ∃ loaded x y v o', Effect.initialise entries s.overlay = .ok loaded ∧
      loaded.balance t.query.tokenIn = .ok x ∧ loaded.balance t.query.tokenOut = .ok y ∧
      pass t rs ((s.writing loaded).withBalances x y) = .ok v ∧ v.isComputed = true ∧
      Pending.settleBook t.query v.figures v.overlay = .ok o' ∧ u = v.writing o' := by
  obtain ⟨e, v, he, hv, hu⟩ := effect_of_pass hr h
  obtain ⟨loaded, initialised, he⟩ := Outcome.bind_eq_ok.1 he
  obtain ⟨x, storedIn, he⟩ := Outcome.bind_eq_ok.1 he
  obtain ⟨y, storedOut, he⟩ := Outcome.bind_eq_ok.1 he
  cases he
  cases settled_of_conclude hu with
  | idle idle => rw [hc] at idle; cases idle
  | @book _ o' computed booked =>
    exact ⟨loaded, x, y, v, o', initialised, storedIn, storedOut, hv, computed, booked, rfl⟩

/-! ### What is given is there -/

/-- No swap gives more than the balance. -/
theorem outputOf_le {f : Figures} {out : Int} (h : outputOf f i = some (.ok out)) :
    out ≤ f.balanceOut := by
  cases i with
  | constantProduct => exact (Power.exactIn_le (Option.some.inj h)).1
  | pegged =>
    obtain ⟨_, -, h⟩ := Outcome.bind_eq_ok.1 (Option.some.inj h)
    obtain ⟨_, -, h⟩ := Outcome.bind_eq_ok.1 h
    obtain ⟨_, -, h⟩ := Outcome.bind_eq_ok.1 h
    obtain ⟨_, hwithin, h⟩ := Outcome.bind_eq_ok.1 h
    cases h
    exact Peg.le_of_requireWithin hwithin
  | density curve =>
    obtain ⟨_, -, h⟩ := Outcome.bind_eq_ok.1 (Option.some.inj h)
    obtain ⟨most, hmost, h⟩ := Outcome.bind_eq_ok.1 h
    obtain ⟨hb, hle⟩ := Density.available_le hmost
    obtain ⟨-, hmax, -⟩ := Density.bisect_eq_ok h
    omega
  | _ => cases h

/-- No swap gives an output that is more than the balance. -/
theorem le_of_inputOf {limits : Power.Limits} {f : Figures} {asked : Int}
    (h : inputOf limits f i = some (.ok asked)) : f.amountOut ≤ f.balanceOut := by
  cases i with
  | constantProduct =>
    obtain ⟨q, hq, -⟩ := Outcome.bind_eq_ok.1 (Option.some.inj h)
    obtain ⟨-, -, out, hout, hle⟩ := Power.delivers_of_exactOut hq
    exact Int.le_trans hle (Power.exactIn_le hout).1
  | pegged =>
    obtain ⟨_, -, h⟩ := Outcome.bind_eq_ok.1 (Option.some.inj h)
    obtain ⟨_, -, h⟩ := Outcome.bind_eq_ok.1 h
    obtain ⟨_, hwithin, -⟩ := Outcome.bind_eq_ok.1 h
    exact Peg.le_of_requireWithin hwithin
  | density curve =>
    obtain ⟨-, -, hle, -⟩ := Density.exactOut_eq_ok_iff.1 (Option.some.inj h)
    exact Int.le_trans hle (Int.min_le_left _ _)
  | _ => cases h

/-- A trade has been computed that the balance of the sheet covers. -/
structure Covers (s v : Sheet) : Prop where
  computed : v.isComputed = true
  covered : v.figures.amountOut ≤ s.figures.balanceOut

/-- Checks and fees give no more than what stands behind them. -/
theorem Covers.through (h : Covers e.sheet v) (hacted : Acted t pc i s e)
    (hi : i.opcode.isToll = true) (hvalid : i.IsValid)
    (hfixed : v.figures.fixed t.query = e.sheet.figures.fixed t.query)
    (hu : conclude t e.pending v = .ok u) : Covers s u := by
  refine ⟨(isComputed_of_conclude hu).trans h.computed, ?_⟩
  have hcovered := h.covered
  have hpart := Opcode.isSwap_of_isPoolPart (Opcode.isPoolPart_of_isToll hi)
  unfold Figures.fixed at hfixed
  cases hacted with
  | static | stored | decay | concentrate => cases hi
  | output _ given => rw [outputOf_of_not_swap hpart] at given; cases given
  | input _ asked => rw [inputOf_of_not_swap hpart] at asked; cases asked
  | quiet | netIn => cases hu; exact hcovered
  | grossIn => cases settled_of_conclude hu <;> exact hcovered
  | @netOut _ fee =>
    cases settled_of_conclude hu with
    | lowerOut _ lowered =>
      exact Int.le_trans (lessFee_mem (Int.natCast_nonneg fee) lowered).2 hcovered
    | idle => exact hcovered
  | @grossOut _ fee gross exactOut added =>
    cases hu
    rw [exactOut] at hfixed
    have hgross : v.figures.amountOut = gross := hfixed
    rw [hgross] at hcovered
    exact Int.le_trans (le_beforeFee (Int.natCast_nonneg fee) added).2 hcovered

/-- **Fees and checks before a swap** end with a trade that the balance covers. -/
theorem covers_of_pass {last : Record} (hlast : last.opcode.isSwap = true) {tolls : List Record}
    (htolls : ∀ r ∈ tolls, r.opcode.isToll = true) (h : pass t (tolls ++ [last]) s = .ok u) :
    Covers s u := by
  induction tolls generalizing s u with
  | nil =>
    obtain ⟨i, e, v, hi, hacted, hv, hu⟩ := pass_cons_eq_ok h
    cases hv
    obtain ⟨hin, hout⟩ := hacted.swap ((Instruction.parse_eq_ok hi).1 ▸ hlast)
    cases hmode : t.query.isExactIn with
    | true =>
      obtain ⟨given, hgiven, rfl⟩ := hin hmode
      cases hu
      exact ⟨rfl, outputOf_le hgiven⟩
    | false =>
      obtain ⟨asked, notes, hasked, rfl⟩ := hout hmode
      cases hu
      exact ⟨rfl, le_of_inputOf hasked⟩
  | cons r tolls ih =>
    obtain ⟨i, e, v, hi, hacted, hv, hu⟩ := pass_cons_eq_ok h
    obtain ⟨hop, hvalid⟩ := Instruction.parse_eq_ok hi
    have hcovers := ih (fun r' hr' => htolls r' (List.mem_cons_of_mem r hr')) hv
    have hi : i.opcode.isToll = true := hop ▸ htolls r List.mem_cons_self
    exact hcovers.through hacted hi hvalid (fixed_of_pass hv) hu

/-! ### Fees before a swap along the constant product -/

/-- Fees and checks before a swap along the constant product price the trade. -/
theorem prices_of_pass {last : Record} {alpha : Nat} (halpha : (alpha : Int) = FixedPoint.one)
    (hlast : last.parse = .ok (.constantProduct alpha)) {tolls : List Record}
    (htolls : ∀ r ∈ tolls, r.opcode.isToll = true) (hs : IsOpen s)
    (h : pass t (tolls ++ [last]) s = .ok u) : Prices s u := by
  induction tolls generalizing s u with
  | nil =>
    obtain ⟨e, v, he, hv, hu⟩ := effect_of_pass hlast h
    obtain ⟨hprices, hpending⟩ := Prices.of_swap halpha (.of_effect he)
    rw [hpending] at hu
    cases hv
    cases hu
    exact hprices
  | cons r tolls ih =>
    obtain ⟨i, e, v, hi, hacted, hv, hu⟩ := pass_cons_eq_ok h
    obtain ⟨hop, hvalid⟩ := Instruction.parse_eq_ok hi
    have hpart : i.opcode.isPoolPart = true :=
      Opcode.isPoolPart_of_isToll (hop ▸ htolls r List.mem_cons_self)
    have hinner := ih (fun r' hr' => htolls r' (List.mem_cons_of_mem r hr'))
      (Prices.isOpen_of_acted hacted hpart hvalid hs) hv
    exact hinner.through hacted hpart hvalid hs (fixed_of_pass hv) hu

end Walk

namespace Engine

open Program

variable {e : Engine} {o : Order} {r : Request} {now : Int} {records : List Record}

/-- **The price** at a program without jumps is what passing its records comes to. -/
theorem priced_straight (hp : IsStraight e.instructions o.program records) :
    e.priced o r now false = (do
      let hash ← e.accept o
      let (q, amount) ← query o hash r
      let s ← Walk.pass (terms e o q now false) records
        (.start (figures r.isExactIn amount) (e.store.overlay hash))
      let f ← fill r q.order s
      return ⟨q, f, s.overlay⟩) := by
  refine congrArg (e.accept o >>= ·) (funext fun hash => ?_)
  unfold price
  cases query o hash r with
  | error f => rfl
  | ok qa =>
    obtain ⟨q, amount⟩ := qa
    have hsheet := Walk.sheet_through (t := terms e o q now false) hp rfl
      (figures r.isExactIn amount) (e.store.overlay hash)
    show (priceWalk r q (Walk.through (terms e o q now false) 0
      (.start (figures r.isExactIn amount) (e.store.overlay hash)))).outcome =
        (Walk.pass _ _ _ >>= _)
    rw [← hsheet]
    cases Walk.through (terms e o q now false) 0
        (.start (figures r.isExactIn amount) (e.store.overlay hash)) with
    | error f => rfl
    | ok w =>
      dsimp only [priceWalk]
      show _ = (fill r q.order w.sheet >>= _)
      cases fill r q.order w.sheet <;> rfl

/-- What is answered does not depend on the writes that a walk ends with. -/
theorem fills_writing (o₀ : Overlay) (q : Query) (x : Outcome Walk.Sheet) :
    (Priced.fill <$> do
      let s ← x
      let f ← fill r q.order s
      return (⟨q, f, s.overlay⟩ : Priced)) =
      (Walk.Sheet.writing o₀ <$> x >>= fill r q.order) := by
  cases x with
  | error f => rfl
  | ok s =>
    show Priced.fill <$> (fill r q.order s >>= _) = fill r q.order s
    cases fill r q.order s <;> rfl

/-- **Answers** at a program without jumps the last record of which is its only swap. -/
theorem answer_straight {c : Call} (hp : IsStraight e.instructions c.order.program records)
    (hends : EndsInOnlySwap e.instructions c.order.program) (o₀ : Overlay) :
    e.answer c = (do
      let hash ← e.accept c.order
      let (q, amount) ← query c.order hash c.request
      let s ← Walk.Sheet.writing o₀ <$> Walk.pass ((e.facing c).terms c.order q c.now false) records
        (.start (figures c.request.isExactIn amount) (e.store.overlay hash))
      fill c.request q.order s) := by
  have hpriced : e.priceOf c = (e.facing c).priced c.order c.request c.now false := by
    unfold priceOf
    cases c.isSwap with
    | true => rfl
    | false => exact priced_stopping (e := e.facing c) hends
  rw [answer_eq, hpriced, priced_straight (e := e.facing c) hp, map_bind]
  refine congrArg (e.accept c.order >>= ·) (funext fun hash => ?_)
  rw [map_bind]
  refine congrArg (query c.order hash c.request >>= ·) (funext fun qa => ?_)
  exact fills_writing o₀ qa.1 _

/-- A swap that is answered has passed the records of its order's program, and what the writes read
at the end is stored. -/
structure Passed (e : Engine) (records : List Record) (c : Call) (f : Fill) (q : Query)
    (amount : Int) (s : Walk.Sheet) : Prop where
  accepted : e.accept c.order = .ok c.order.hash
  query : query c.order c.order.hash c.request = .ok (q, amount)
  pass : Walk.pass ((e.facing c).terms c.order q c.now false) records
    (.start (figures c.request.isExactIn amount) (e.store.overlay c.order.hash)) = .ok s
  computed : s.isComputed = true
  fill : f = ⟨s.figures.amountIn, s.figures.amountOut, c.order.hash⟩
  balance? : ∀ token, ((e.serve c).store.overlay c.order.hash).balance? token =
    s.overlay.balance? token
  fade? : ∀ token side, ((e.serve c).store.overlay c.order.hash).fade? token side =
    s.overlay.fade? token side
  scale? : ((e.serve c).store.overlay c.order.hash).scale? = s.overlay.scale?

theorem passed_of_answer {c : Call} {f : Fill}
    (hp : IsStraight e.instructions c.order.program records) (hswap : c.isSwap = true)
    (h : e.answer c = .ok f) : ∃ q amount s, Passed e records c f q amount s := by
  obtain ⟨p, hpriced, rfl⟩ := answer_eq_ok h
  have hafter := serve_of_priced hswap hpriced
  rw [priceOf, hswap] at hpriced
  obtain ⟨horder, hbase⟩ := origin_of_price (priced_eq_ok hpriced)
  rw [Bool.not_true, priced_straight (e := e.facing c) hp] at hpriced
  obtain ⟨hash, hhash, hpriced⟩ := Outcome.bind_eq_ok.1 hpriced
  obtain rfl := accept_eq_ok hhash
  obtain ⟨⟨q, amount⟩, hq, hpriced⟩ := Outcome.bind_eq_ok.1 hpriced
  obtain ⟨s, hs, hpriced⟩ := Outcome.bind_eq_ok.1 hpriced
  obtain ⟨g, hg, hpriced⟩ := Outcome.bind_eq_ok.1 hpriced
  cases hpriced
  obtain ⟨hcomputed, hfill, -⟩ := fill_eq_ok hg
  rw [(query_eq_ok hq).1] at hfill
  have hbalance := Store.get?_publish hbase
  have hfade := Store.fade_publish hbase
  have hscale := Store.scale_publish hbase
  rw [horder] at hbalance hfade hscale
  refine ⟨q, amount, s, hhash, hq, hs, hcomputed, hfill, ?_, ?_, ?_⟩
  · rw [hafter]; exact hbalance
  · rw [hafter]; exact hfade
  · rw [hafter]; exact hscale

end Engine

end SwapMachine
