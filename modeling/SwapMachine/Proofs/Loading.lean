import SwapMachine.Proofs.Booking
import SwapMachine.Proofs.Frame

/-!
# SwapMachine.Proofs.Loading — programs that load the stored balances once, at the start

Only loading leaves booking for later, and only these two touch stored balances.  So in a program
that loads at the start and nowhere else, the rest of the walk finds the balances as they were
loaded, and in the end the amounts are booked that the walk ends with.

* `acted_of_ahead`: what a step behind the first record does.
* `sameBalances_of_run`: what the walk behind the first record leaves alone.
* `moves_of_through`: a walk from the start moves its final amounts between two balances.
-/

namespace SwapMachine

/-- A valid program that loads the stored balances first and nowhere else. -/
structure Program.LoadsFirst (set : InstructionSet) (program : Bytes) (entries : Entries) :
    Prop where
  shape : ∃ first rest, Program.validate set program = .ok (first :: rest) ∧
    first.parse = .ok (.dynamicBalances entries) ∧ ∀ r ∈ rest, r.opcode ≠ .dynamicBalances

namespace Walk

open Program

variable {t : Terms} {pc : Nat} {i : Instruction} {s v : Sheet} {e : Effect} {entries : Entries}
  {f : Figures} {o : Overlay} {u : Walk}

/-- An instruction that does not load balances leaves them alone and books nothing later. -/
theorem Acted.sameBalances (h : Acted t pc i s e) (hi : i.opcode ≠ .dynamicBalances) :
    Overlay.SameBalances s.overlay e.sheet.overlay ∧ e.pending ≠ some .book := by
  cases h with
  | stored => exact absurd rfl hi
  | _ => exact ⟨.refl _, nofun⟩

theorem sameBalances_of_conclude {p : Option Pending} (h : conclude t p v = .ok s)
    (hp : p ≠ some .book) : Overlay.SameBalances v.overlay s.overlay := by
  cases p with
  | none => cases h; exact .refl _
  | some p => exact (settled_of_conclude h).sameBalances fun hbook => hp (congrArg some hbook)

theorem wellFormed_of_loadsFirst (hp : LoadsFirst t.instructions t.program entries) :
    WellFormed t.instructions t.program := by
  obtain ⟨first, rest, hv, -⟩ := hp.shape
  exact (validate_eq_ok_iff.1 hv).2

/-- A step behind the first record meets an instruction that does not load balances. -/
theorem acted_of_ahead (hp : LoadsFirst t.instructions t.program entries) {w w' : Walk}
    {p : Option Pending} (hpc : 0 < w.pc) (hplace : w.pc ∈ places t.instructions t.program)
    (hover : ¬ w.isOver t = true) (hstep : step t w = .ok (w', p)) :
    ∃ r ∈ (Scan.of t.instructions t.program).records, ∃ i e, r.parse = .ok i ∧
      i.opcode ≠ .dynamicBalances ∧ Acted t r.pc i w.sheet e ∧ w'.sheet = e.sheet ∧
      p = e.pending := by
  obtain ⟨first, rest, hv, -, hrest⟩ := hp.shape
  obtain ⟨hrecords, hw⟩ := validate_eq_ok_iff.1 hv
  obtain ⟨r, hr, i, next, hrpc, hi, hop, -, -, -, heq⟩ := step_of_wellFormed hw hplace hover
  rw [heq] at hstep
  obtain ⟨e, he, hstep⟩ := Outcome.bind_eq_ok.1 hstep
  cases hstep
  refine ⟨r, hr, i, e, hi, ?_, .of_effect he, rfl, rfl⟩
  -- the record is not the first one, which stands at the start
  rw [hop]
  rw [← hrecords] at hr
  rcases List.mem_cons.1 hr with rfl | hr
  · rw [Scan.pc_first hrecords.symm] at hrpc
    omega
  · exact hrest r hr

/-- A walk that stands behind the first record leaves the balances alone. -/
theorem sameBalances_of_run (hp : LoadsFirst t.instructions t.program entries) {w u : Walk}
    (hpc : 0 < w.pc) (hplace : w.pc ∈ places t.instructions t.program) (h : run t w = .ok u) :
    Overlay.SameBalances w.sheet.overlay u.sheet.overlay := by
  have hw := wellFormed_of_loadsFirst hp
  refine run_induction (R := fun w u => 0 < w.pc → w.pc ∈ places t.instructions t.program →
    Overlay.SameBalances w.sheet.overlay u.sheet.overlay) (fun w _ _ _ => .refl _) ?_ h hpc hplace
  intro w w' p v s hover hstep _ ih hs hpc hplace
  have hinner := ih (Nat.lt_trans hpc (pc_lt_of_step hstep))
    (pc_mem_places_of_step hw hplace hover hstep)
  obtain ⟨r, -, i, e, -, hload, hacted, hsheet, rfl⟩ := acted_of_ahead hp hpc hplace hover hstep
  rw [hsheet] at hinner
  obtain ⟨hsame, hbook⟩ := hacted.sameBalances hload
  exact (hsame.trans hinner).trans (sameBalances_of_conclude hs hbook)

/-- The walk is not over at the start, and finds the stored balances there. -/
theorem start_of_loadsFirst (hp : LoadsFirst t.instructions t.program entries) (f : Figures)
    (o : Overlay) : ¬ isOver t ⟨0, 0, .start f o⟩ = true ∧
      ∃ r : Record, Record.decodeAt t.instructions t.program 0 = .ok r ∧
        r.parse = .ok (.dynamicBalances entries) := by
  obtain ⟨first, rest, hv, hfirst, -⟩ := hp.shape
  obtain ⟨hrecords, -⟩ := validate_eq_ok_iff.1 hv
  have hpc : first.pc = 0 := Scan.pc_first hrecords.symm
  have hdecode := Scan.decodeAt_of_mem_scan (hrecords ▸ List.mem_cons_self)
  have hle := (Record.decodeAt_eq_ok hdecode).2
  refine ⟨?_, first, hpc ▸ hdecode, hfirst⟩
  simp only [Record.next, Record.headerSize] at hle
  simp only [isOver, Sheet.start, Bool.or_false, decide_eq_true_eq]
  omega

/-- A walk from the start has loaded balances of `x` and `y`, has gone on from `w` to `v`, and has
then booked its amounts, if it has met a swap. -/
structure Loaded (t : Terms) (entries : Entries) (f : Figures) (o : Overlay) (u : Walk)
    (loaded : Overlay) (x y : Int) (w v : Walk) : Prop where
  initialised : Effect.initialise entries o = .ok loaded
  storedIn : loaded.balance t.query.tokenIn = .ok x
  storedOut : loaded.balance t.query.tokenOut = .ok y
  ahead : 0 < w.pc
  place : w.pc ∈ places t.instructions t.program
  sheet : w.sheet = { Sheet.start f o with overlay := loaded }.withBalances x y
  run : Walk.run t w = .ok v
  settled : Settled t .book v.sheet u.sheet

theorem loaded_of_through (hp : LoadsFirst t.instructions t.program entries)
    (h : through t 0 (.start f o) = .ok u) :
    ∃ loaded x y w v, Loaded t entries f o u loaded x y w v := by
  have hw := wellFormed_of_loadsFirst hp
  have hplace : 0 ∈ places t.instructions t.program := Scan.zero_mem_boundaries hw.whole
  obtain ⟨hover, first, hdecode, hfirst⟩ := start_of_loadsFirst hp f o
  rw [through_zero] at h
  obtain ⟨w, p, v, s, hstep, hrun, hs, rfl⟩ := run_eq_ok hover h
  obtain ⟨r, i, e, hr, hi, -, hacted, hsheet, rfl⟩ := acted_of_step hstep
  obtain rfl : first = r := Except.ok.inj (hdecode.symm.trans hr)
  obtain rfl : i = .dynamicBalances entries := Except.ok.inj (hi.symm.trans hfirst)
  cases hacted with
  | quiet h => cases h
  | netIn _ asked | grossIn _ asked => cases asked
  | output _ given => cases given
  | input _ asked => cases asked
  | @stored _ _ loaded x y initialised storedIn storedOut =>
    exact ⟨loaded, x, y, w, v, initialised, storedIn, storedOut, pc_lt_of_step hstep,
      pc_mem_places_of_step hw hplace hover hstep, hsheet, hrun, settled_of_conclude hs⟩

/-- An amount of `a` is added to the balance `x` of the token paid in, and an amount of `b` is taken
from the balance `y` of the token paid out, in new writes. -/
structure Moves (t : Terms) (entries : Entries) (o o' : Overlay) (a b x y : Int) : Prop where
  heldIn : o.held entries t.query.tokenIn = some x
  heldOut : o.held entries t.query.tokenOut = some y
  order : o'.order = o.order
  base : o'.base = o.base
  balance? : ∀ token, o'.balance? token =
    if token = t.query.tokenOut then some (y - b)
    else if token = t.query.tokenIn then some (x + a) else o.held entries token

theorem Moves.balance?_tokenIn {o' : Overlay} {a b x y : Int} (h : Moves t entries o o' a b x y)
    (hne : t.query.tokenIn ≠ t.query.tokenOut) : o'.balance? t.query.tokenIn = some (x + a) := by
  rw [h.balance?, if_neg hne, if_pos rfl]

theorem Loaded.moves {loaded : Overlay} {x y : Int} {w v : Walk}
    (hl : Loaded t entries f o u loaded x y w v)
    (hp : LoadsFirst t.instructions t.program entries) (hc : u.sheet.isComputed = true) :
    Moves t entries o u.sheet.overlay u.sheet.figures.amountIn u.sheet.figures.amountOut x y := by
  obtain ⟨horder, hbase, hheld⟩ : loaded.order = o.order ∧ loaded.base = o.base ∧
      ∀ token, loaded.balance? token = o.held entries token := initialise_eq_ok hl.initialised
  have hx := Overlay.balance_eq_ok_iff.1 hl.storedIn
  have hy := Overlay.balance_eq_ok_iff.1 hl.storedOut
  have hsame := sameBalances_of_run hp hl.ahead hl.place hl.run
  rw [hl.sheet] at hsame
  have hsettled := hl.settled
  have hcomputed := hsettled.isComputed.symm.trans hc
  generalize v.sheet = s at hsettled hsame hcomputed
  generalize u.sheet = s' at hsettled
  cases hsettled with
  | idle idle =>
    rw [idle] at hcomputed
    cases hcomputed
  | book _ booked =>
    obtain ⟨x', y', hx', hy', -, -, horder', hbase', hbalance⟩ := settleBook_eq_ok booked
    rw [hsame.balance?] at hx' hy'
    obtain rfl : x = x' := Option.some.inj (hx.symm.trans hx')
    obtain rfl : y = y' := Option.some.inj (hy.symm.trans hy')
    refine ⟨(hheld _).symm.trans hx, (hheld _).symm.trans hy, ?_, ?_, fun token => ?_⟩
    · exact horder'.trans (hsame.order.trans horder)
    · exact hbase'.trans (hsame.base.trans hbase)
    · rw [hbalance, (hsame.balance? token).trans (hheld token)]

/-- **A walk from the start** that computes a trade moves its amounts between the balances. -/
theorem moves_of_through (hp : LoadsFirst t.instructions t.program entries)
    (h : through t 0 (.start f o) = .ok u) (hc : u.sheet.isComputed = true) :
    ∃ x y, Moves t entries o u.sheet.overlay u.sheet.figures.amountIn u.sheet.figures.amountOut
      x y := by
  obtain ⟨loaded, x, y, w, v, hl⟩ := loaded_of_through hp h
  exact ⟨x, y, hl.moves hp hc⟩

end Walk

end SwapMachine
