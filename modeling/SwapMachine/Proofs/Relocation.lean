import SwapMachine.Proofs.Preview

/-!
# SwapMachine.Proofs.Relocation — walks through records that stand elsewhere

Where a record stands is told by notes, by the place of the first swap and by faults; figures, state
and the kinds of faults do not tell it.  So a walk can be followed through a program in which the
records stand elsewhere, and in which records that do nothing stand between them.

* `Outcome.Agree`, `Sheet.Alike`: the same but for places.
* `Walk.Effect.agree`: an instruction does the same wherever it stands and jumps.
* `Walk.Corresponds`: places at which the same stands, or an idle record in front of it.
* `Walk.run_agree`: walks from corresponding places, when what stands there leads to such places.
-/

namespace SwapMachine

namespace Outcome

variable {α β γ δ : Type}

/-- Faults of one kind, or answers that are related. -/
inductive Agree (R : α → β → Prop) : Outcome α → Outcome β → Prop
  | fault {f f' : Fault} (h : f'.kind = f.kind) : Agree R (.error f) (.error f')
  | answer {a : α} {b : β} (h : R a b) : Agree R (.ok a) (.ok b)

theorem Agree.bind {R : α → β → Prop} {S : γ → δ → Prop} {x : Outcome α} {y : Outcome β}
    {g : α → Outcome γ} {h : β → Outcome δ} (hxy : Agree R x y)
    (hgh : ∀ a b, x = .ok a → y = .ok b → R a b → Agree S (g a) (h b)) :
    Agree S (x >>= g) (y >>= h) := by
  cases hxy with
  | fault hf => exact .fault hf
  | answer hab => exact hgh _ _ rfl rfl hab

theorem Agree.mono {R S : α → β → Prop} {x : Outcome α} {y : Outcome β} (h : Agree R x y)
    (hRS : ∀ a b, R a b → S a b) : Agree S x y := by
  cases h with
  | fault hf => exact .fault hf
  | answer hab => exact .answer (hRS _ _ hab)

/-- What agrees with an answer is an answer. -/
theorem Agree.answers {R : α → β → Prop} {a : α} {y : Outcome β} (h : Agree R (.ok a) y) :
    ∃ b, y = .ok b ∧ R a b := by
  cases h with
  | answer hab => exact ⟨_, rfl, hab⟩

theorem map_bind_eq {c : β → γ} {x : Outcome α} {g : α → Outcome β} {h : α → Outcome γ}
    (hgh : ∀ a, c <$> g a = h a) : c <$> (x >>= g) = x >>= h := by
  cases x with
  | error f => rfl
  | ok a => exact hgh a

/-- Outcomes with the same part agree in it. -/
theorem agree_of_map_eq {c : α → γ} {x y : Outcome α} (h : c <$> x = c <$> y) :
    Agree (fun a b => c b = c a) x y := by
  cases x with
  | error f =>
    cases y with
    | error g =>
      cases h
      exact .fault rfl
    | ok b => cases h
  | ok a =>
    cases y with
    | error g => cases h
    | ok b => exact .answer (Except.ok.inj h).symm

end Outcome

/-- The jump to another place; what is no jump stays as it is. -/
def Instruction.retarget (target : Nat) : Instruction → Instruction
  | jump _ => jump target
  | jumpIfTokenIn token _ => jumpIfTokenIn token target
  | jumpIfTokenOut token _ => jumpIfTokenOut token target
  | i => i

/-- A jump goes to its target or on. -/
theorem Instruction.destination?_of_target {q : Query} {i : Instruction} {n : Nat}
    (h : i.target? = some n) : i.destination? q = some n ∨ i.destination? q = none := by
  cases i with
  | jump =>
    cases h
    exact Or.inl rfl
  | jumpIfTokenIn | jumpIfTokenOut =>
    cases h
    simp only [destination?]
    split
    · exact Or.inl rfl
    · exact Or.inr rfl
  | _ => cases h

theorem Instruction.destination?_retarget {q : Query} (target : Nat) (i : Instruction) :
    (i.retarget target).destination? q = (i.destination? q).map fun _ => target := by
  cases i with
  | jumpIfTokenIn | jumpIfTokenOut =>
    simp only [retarget, destination?]
    split <;> rfl
  | _ => rfl

namespace Walk

open Number Curve

/-- The same terms for another program. -/
def Terms.reading (t : Terms) (program : Bytes) : Terms := { t with program }

@[simp] theorem Terms.program_reading (t : Terms) (program : Bytes) :
    (t.reading program).program = program := rfl

@[simp] theorem Terms.query_reading (t : Terms) (program : Bytes) :
    (t.reading program).query = t.query := rfl

/-! ### Sheets without places -/

/-- The sheet without the places that it tells. -/
def Sheet.unplaced (s : Sheet) : Sheet := { s with notes := [], swapPc := none }

/-- The sheets differ at most in the places that they tell. -/
structure Sheet.Alike (s s' : Sheet) : Prop where
  figures : s'.figures = s.figures
  overlay : s'.overlay = s.overlay
  isComputed : s'.isComputed = s.isComputed
  isHalted : s'.isHalted = s.isHalted

theorem Sheet.unplaced_eq_iff {s s' : Sheet} : s'.unplaced = s.unplaced ↔ s.Alike s' := by
  constructor
  · intro h
    obtain ⟨hfigures, hoverlay, -, -, hcomputed, hhalted⟩ := Sheet.mk.inj h
    exact ⟨hfigures, hoverlay, hcomputed, hhalted⟩
  · rintro ⟨hfigures, hoverlay, hcomputed, hhalted⟩
    rw [unplaced, unplaced, hfigures, hoverlay, hcomputed, hhalted]

/-- The effect without the places that its sheet tells. -/
def Effect.unplaced (e : Effect) : Effect := { e with sheet := e.sheet.unplaced }

namespace Effect

variable {t : Terms} {pc pc' : Nat} {i : Instruction} {s s' : Sheet}

theorem require_unplaced (s : Sheet) (condition : Outcome Unit) :
    Effect.unplaced <$> require s condition = require s.unplaced condition :=
  (require_onSheet .unplaced s condition).symm

theorem feeIn_unplaced (q : Query) (fee : Int) (s : Sheet) :
    Effect.unplaced <$> feeIn q fee s = feeIn q fee s.unplaced :=
  (feeIn_onSheet .unplaced (fun _ => rfl) (fun _ _ => rfl) q fee s).symm

theorem feeOut_unplaced (q : Query) (fee : Int) (s : Sheet) :
    Effect.unplaced <$> feeOut q fee s = feeOut q fee s.unplaced :=
  (feeOut_onSheet .unplaced (fun _ => rfl) (fun _ _ => rfl) q fee s).symm

/-- What a swap computes may tell places, as its effect does. -/
theorem swapped_unplaced {x x' : Outcome Sheet}
    (h : Sheet.unplaced <$> x = Sheet.unplaced <$> x') :
    Effect.unplaced <$> swapped t pc x = Effect.unplaced <$> swapped t pc' x' := by
  cases x with
  | error f =>
    cases x' with
    | error g =>
      cases h
      rfl
    | ok b => cases h
  | ok a =>
    cases x' with
    | error g => cases h
    | ok b =>
      obtain ⟨hfigures, hoverlay, -, hhalted⟩ := Sheet.unplaced_eq_iff.1 (Except.ok.inj h)
      have hswapped : (b.swapped pc' t.stopAtSwap).Alike (a.swapped pc t.stopAtSwap) :=
        ⟨hfigures, hoverlay, rfl, congrArg (· || t.stopAtSwap) hhalted⟩
      exact congrArg (fun s => Except.ok (now s)) (Sheet.unplaced_eq_iff.2 hswapped)

/-- **An instruction** does the same wherever it stands and whatever places are told. -/
theorem of_unplaced (t : Terms) (pc : Nat) (i : Instruction) (s : Sheet) :
    Effect.unplaced <$> of t pc i s = Effect.unplaced <$> of t 0 i s.unplaced := by
  cases i with
  | jump | jumpIfTokenIn | jumpIfTokenOut | salt | inert => rfl
  | deadline | takerHolds | takerHoldsAtLeast | takerShareAtLeast =>
    exact (require_unplaced s _).trans (require_unplaced s.unplaced _).symm
  | staticBalances entries =>
    simp only [of, staticBalances, map_bind, map_pure, bind_assoc, pure_bind]
    rfl
  | dynamicBalances entries =>
    simp only [of, dynamicBalances, map_bind, map_pure]
    rfl
  | decay period =>
    simp only [of, decay, map_bind, map_pure]
    rfl
  | concentrate c =>
    simp only [of, concentrate, map_bind, map_pure]
    rfl
  | flatFeeIn fee =>
    exact (feeIn_unplaced t.query fee s).trans (feeIn_unplaced t.query fee s.unplaced).symm
  | flatFeeOut fee =>
    exact (feeOut_unplaced t.query fee s).trans (feeOut_unplaced t.query fee s.unplaced).symm
  | dynamicFeeIn source =>
    simp only [of, map_bind]
    refine congrArg _ (funext fun fee => ?_)
    exact (feeIn_unplaced t.query fee (s.note pc (.dynamicFee fee))).trans
      (feeIn_unplaced t.query fee (s.unplaced.note 0 (.dynamicFee fee))).symm
  | constantProduct alpha =>
    refine swapped_unplaced ?_
    simp only [constantProduct]
    split <;> (simp only [map_bind, map_pure]; rfl)
  | pegged rate =>
    refine swapped_unplaced ?_
    simp only [pegged]
    split <;> (simp only [map_bind, map_pure]; rfl)
  | density curve =>
    refine swapped_unplaced ?_
    simp only [density]
    split <;> (simp only [map_bind, map_pure]; rfl)

/-- Instructions that differ in the place that they jump to have the same effect. -/
theorem of_retarget (t : Terms) (pc target : Nat) (i : Instruction) (s : Sheet) :
    of t pc (i.retarget target) s = of t pc i s := by
  cases i <;> rfl

theorem of_reading (t : Terms) (program : Bytes) (pc : Nat) (i : Instruction) (s : Sheet) :
    of (t.reading program) pc i s = of t pc i s := by
  cases i <;> rfl

/-- Effects on sheets that differ in places. -/
theorem agree (t : Terms) (pc pc' : Nat) (i : Instruction) (hs : s.Alike s') :
    Outcome.Agree (fun e e' => e.sheet.Alike e'.sheet ∧ e'.pending = e.pending)
      (of t pc i s) (of t pc' i s') := by
  have hsame : Effect.unplaced <$> of t pc i s = Effect.unplaced <$> of t pc' i s' := by
    rw [of_unplaced t pc, of_unplaced t pc', Sheet.unplaced_eq_iff.2 hs]
  refine (Outcome.agree_of_map_eq hsame).mono fun e e' h => ?_
  obtain ⟨hsheet, hpending⟩ := Effect.mk.inj h
  exact ⟨Sheet.unplaced_eq_iff.1 hsheet, hpending⟩

end Effect

/-! ### Work that was left for later -/

theorem settle_unplaced (t : Terms) (p : Pending) (s : Sheet) :
    Sheet.unplaced <$> p.settle t s = p.settle t s.unplaced := by
  obtain ⟨figures, overlay, notes, swapPc, isComputed, isHalted⟩ := s
  cases isComputed with
  | false => cases p <;> rfl
  | true =>
    cases p with
    | restoreIn | restoreOut => rfl
    | book | fade | raiseIn | lowerOut => exact Outcome.map_bind_eq fun _ => rfl
    | scale => exact Outcome.map_bind_eq fun _ => Outcome.map_bind_eq fun _ => rfl

theorem conclude_reading (t : Terms) (program : Bytes) (p : Option Pending) (s : Sheet) :
    conclude (t.reading program) p s = conclude t p s := by
  rcases p with - | p
  · rfl
  · cases p <;> rfl

/-- Work on sheets that differ in places. -/
theorem conclude_agree (t : Terms) (p : Option Pending) {s s' : Sheet} (hs : s.Alike s') :
    Outcome.Agree Sheet.Alike (conclude t p s) (conclude t p s') := by
  cases p with
  | none => exact .answer hs
  | some p =>
    have hsame : Sheet.unplaced <$> p.settle t s = Sheet.unplaced <$> p.settle t s' := by
      rw [settle_unplaced, settle_unplaced, Sheet.unplaced_eq_iff.2 hs]
    exact (Outcome.agree_of_map_eq hsame).mono fun _ _ h => Sheet.unplaced_eq_iff.1 h

/-! ### Walks -/

variable {t : Terms} {program : Bytes} {R : Nat → Nat → Prop}

/-- What stands at a place, and the place that comes next. -/
structure Fetched where
  record : Record
  instruction : Instruction
  next : Nat

/-- All of a step but its effect. -/
def fetch (t : Terms) (pc : Nat) : Outcome Fetched := do
  let r ← Record.decodeAt t.instructions t.program pc
  let i ← r.parse
  return ⟨r, i, ← nextPlace t r i⟩

theorem run_of_fetch {w : Walk} (hover : ¬ w.isOver t = true) :
    run t w = fetch t w.pc >>= fun x =>
      Effect.of t x.record.pc x.instruction w.sheet >>= fun e =>
        run t ⟨x.next, x.record.pc, e.sheet⟩ >>= close t e.pending := by
  rw [run_of_not_isOver hover]
  simp only [step, fetch, bind_assoc, pure_bind]

theorem lt_of_fetch {pc : Nat} {x : Fetched} (h : fetch t pc = .ok x) : pc < x.next := by
  obtain ⟨r, hr, h⟩ := Outcome.bind_eq_ok.1 h
  obtain ⟨i, -, h⟩ := Outcome.bind_eq_ok.1 h
  obtain ⟨next, hnext, h⟩ := Outcome.bind_eq_ok.1 h
  cases h
  exact (Record.decodeAt_eq_ok hr).1 ▸ lt_of_nextPlace hnext

/-- The same instruction but for where it jumps, and next places that are related. -/
structure Fetched.Alike (R : Nat → Nat → Prop) (x x' : Fetched) : Prop where
  instruction : ∃ target, x'.instruction = x.instruction.retarget target
  next : R x.next x'.next

/-- Both places are behind all records, or the same stands at both, or a salt stands at the second
and a related place behind it. -/
inductive Corresponds (t t' : Terms) (R : Nat → Nat → Prop) (pc pc' : Nat) : Prop
  | ended (h : t.program.length ≤ pc) (h' : t'.program.length ≤ pc')
  | same (h : pc < t.program.length) (h' : pc' < t'.program.length)
    (hx : (fetch t pc).Agree (Fetched.Alike R) (fetch t' pc'))
  | salted (h' : pc' < t'.program.length) {x : Fetched} (hx : fetch t' pc' = .ok x)
    (hsalt : ∃ bytes, x.instruction = .salt bytes) (hR : R pc x.next)

theorem isOver_iff {w : Walk} :
    w.isOver t = true ↔ t.program.length ≤ w.pc ∨ w.sheet.isHalted = true := by
  rw [isOver, Bool.or_eq_true, decide_eq_true_eq]

theorem not_isOver {w : Walk} (h : w.pc < t.program.length) (hs : ¬ w.sheet.isHalted = true) :
    ¬ w.isOver t = true :=
  fun hover => (isOver_iff.1 hover).elim (Nat.not_le.2 h) hs

/-- A walk goes on behind a salt. -/
theorem run_of_salt {w : Walk} {x : Fetched} (hover : ¬ w.isOver t = true)
    (hx : fetch t w.pc = .ok x) (hsalt : ∃ bytes, x.instruction = .salt bytes) :
    run t w = run t ⟨x.next, x.record.pc, w.sheet⟩ := by
  obtain ⟨bytes, hsalt⟩ := hsalt
  have heffect : Effect.of t x.record.pc x.instruction w.sheet = .ok (.now w.sheet) := by
    rw [hsalt]
    rfl
  rw [run_of_fetch hover, hx]
  show (Effect.of t x.record.pc x.instruction w.sheet >>= fun e =>
    run t ⟨x.next, x.record.pc, e.sheet⟩ >>= close t e.pending) = _
  rw [heffect]
  show run t ⟨x.next, x.record.pc, w.sheet⟩ >>= close t none = _
  cases run t ⟨x.next, x.record.pc, w.sheet⟩ <;> rfl

theorem close_agree (p : Option Pending) {w w' : Walk} (hs : w.sheet.Alike w'.sheet) :
    Outcome.Agree (fun u u' => u.sheet.Alike u'.sheet) (close t p w)
      (close (t.reading program) p w') := by
  unfold close
  rw [conclude_reading]
  exact (conclude_agree t p hs).bind fun _ _ _ _ h => .answer h

/-- **Walks from corresponding places** agree, whatever places they come through. -/
theorem run_agree (hR : ∀ pc pc', R pc pc' → Corresponds t (t.reading program) R pc pc')
    {w w' : Walk} (hplace : R w.pc w'.pc) (hs : w.sheet.Alike w'.sheet) :
    Outcome.Agree (fun u u' => u.sheet.Alike u'.sheet) (run t w)
      (run (t.reading program) w') := by
  -- on what is left of the second program: a salt moves the second walk alone
  induction hn : program.length - w'.pc using Nat.strongRecOn generalizing w w' with
  | ind n ih =>
    by_cases hhalted : w.sheet.isHalted = true
    · rw [run_of_isOver (isOver_iff.2 (Or.inr hhalted)),
        run_of_isOver (isOver_iff.2 (Or.inr (hs.isHalted.trans hhalted)))]
      exact .answer hs
    have hhalted' : ¬ w'.sheet.isHalted = true := hs.isHalted ▸ hhalted
    cases hR _ _ hplace with
    | ended h h' =>
      rw [run_of_isOver (isOver_iff.2 (Or.inl h)), run_of_isOver (isOver_iff.2 (Or.inl h'))]
      exact .answer hs
    | same h h' hx =>
      rw [run_of_fetch (not_isOver h hhalted), run_of_fetch (not_isOver h' hhalted')]
      refine hx.bind fun x x' _ hx' hxx => ?_
      have hlt : w'.pc < x'.next := lt_of_fetch hx'
      obtain ⟨target, hinstruction⟩ := hxx.instruction
      rw [hinstruction, Effect.of_reading, Effect.of_retarget]
      refine (Effect.agree t _ _ x.instruction hs).bind fun e e' _ _ hee => ?_
      obtain ⟨hsheet, hpending⟩ := hee
      rw [hpending]
      refine (ih _ ?_ hxx.next hsheet rfl).bind fun u u' _ _ h => close_agree e.pending h
      exact hn ▸ Nat.sub_lt_sub_left h' hlt
    | salted h' hx hsalt hnext =>
      rw [run_of_salt (not_isOver h' hhalted') hx hsalt]
      exact ih _ (hn ▸ Nat.sub_lt_sub_left h' (lt_of_fetch hx)) hnext hs rfl

end Walk

end SwapMachine
