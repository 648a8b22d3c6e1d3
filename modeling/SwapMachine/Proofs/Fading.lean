import SwapMachine.Proofs.BackSwap
import SwapMachine.Proofs.Codec
import SwapMachine.Proofs.Improvement

/-!
# SwapMachine.Proofs.Fading — the penalty on trades that follow each other only fades

What is left of the fading amounts is added to the incoming balance and taken from the outgoing one,
and both make trades worse.  It falls with time, so that what is answered gets better, until nothing
is left of it.

* `Walk.found`, `Walk.left`: the balance that is loaded for a token, and what is left of a fading
  amount; all that a walk answers depends on them (`Walk.writing_pass_fading`).
* `Walk.left_antitone`, `Walk.left_eq_zero`: what is left falls with time, to nothing.
* `Engine.penalty_fades`: an answer that is given is given later, and is no worse, unless the
  incoming balance was made of a fading amount alone; once nothing is left, fading amounts have no
  part in the answer.
-/

namespace SwapMachine

open Block Number FixedPoint

/-! ### Fading amounts -/

namespace Fade

variable {f : Fade} {now later period : Int}

theorem value_nonneg (f : Fade) (now : Int) (hperiod : 0 < period) : 0 ≤ f.value now period :=
  have hleft : f.valueAt now period = .ok (f.value now period) := if_neg (Int.not_le.2 hperiod)
  valueAt_nonneg hleft

/-- What is left falls with time. -/
theorem value_antitone (f : Fade) (hperiod : 0 < period) (h : now ≤ later) :
    f.value later period ≤ f.value now period := by
  have hnonneg := f.value_nonneg now hperiod
  unfold value at hnonneg ⊢
  dsimp only at hnonneg ⊢
  split
  · exact hnonneg
  · rw [if_neg (by omega)]
    exact floorDiv_le_floorDiv hperiod (Int.mul_le_mul_of_nonneg_left (by omega) f.base_nonneg)

/-- After the period nothing is left. -/
theorem value_eq_zero (h : f.start + period ≤ now) : f.value now period = 0 :=
  if_pos (by omega)

end Fade

/-- Less that is taken away leaves more, but no more than all. -/
theorem withoutOffset_antitone {balance offset offset' : Int} (hbalance : 0 ≤ balance)
    (hoffset : 0 ≤ offset') (h : offset' ≤ offset) :
    withoutOffset balance offset ≤ withoutOffset balance offset' ∧
      withoutOffset balance offset' ≤ balance ∧ 0 ≤ withoutOffset balance offset' := by
  simp only [withoutOffset]
  omega

/-! ### Programs -/

namespace Program

/-- Records that load balances, let amounts fade over a period, charge fees, and swap along the
constant product. -/
structure Fades (load : Instruction) (period : Nat) (first fade : Record) (fees : List Record)
    (last : Record) : Prop where
  loads : first.parse = .ok load ∧ load.opcode.isLoad = true
  fades : fade.parse = .ok (.decay period)
  fees : ∀ r ∈ fees, r.opcode.isFee = true
  swaps : ∃ alpha : Nat, (alpha : Int) = one ∧ last.parse = .ok (.constantProduct alpha)

/-- A valid program of such records. -/
def IsFadingPool (set : InstructionSet) (program : Bytes) (load : Instruction) (period : Nat) :
    Prop :=
  ∃ first fade fees last, Fades load period first fade fees last ∧
    validate set program = .ok (first :: fade :: (fees ++ [last]))

namespace Fades

variable {set : InstructionSet} {program : Bytes} {load : Instruction} {period : Nat}
  {first fade last : Record} {fees : List Record}

theorem period_pos (h : Fades load period first fade fees last) : 0 < period :=
  (Instruction.parse_eq_ok h.fades).2

theorem isSwap (h : Fades load period first fade fees last) : last.opcode.isSwap = true := by
  obtain ⟨alpha, -, hlast⟩ := h.swaps
  rw [← (Instruction.parse_eq_ok hlast).1]
  rfl

theorem tolls (h : Fades load period first fade fees last) :
    ∀ r ∈ fees, r.opcode.isToll = true :=
  fun r hr => Opcode.isToll_of_isFee (h.fees r hr)

theorem feesAndSwap (h : Fades load period first fade fees last) :
    ∀ r ∈ fees ++ [last], r.opcode.isFee = true ∨ r.opcode.isSwap = true := by
  intro r hr
  rcases List.mem_append.1 hr with hr | hr
  · exact Or.inl (h.fees r hr)
  · exact Or.inr (List.mem_singleton.1 hr ▸ h.isSwap)

/-- The records before the swap neither jump nor swap. -/
theorem before (h : Fades load period first fade fees last) :
    ∀ r ∈ first :: fade :: fees, r.opcode.isJump = false ∧ r.opcode.isSwap = false := by
  intro r hr
  rcases List.mem_cons.1 hr with rfl | hr
  · obtain ⟨hparse, hload⟩ := h.loads
    rw [← (Instruction.parse_eq_ok hparse).1]
    cases load <;> first | exact ⟨rfl, rfl⟩ | cases hload
  · rcases List.mem_cons.1 hr with rfl | hr
    · rw [← (Instruction.parse_eq_ok h.fades).1]
      exact ⟨rfl, rfl⟩
    · have htoll := h.tolls r hr
      exact ⟨Opcode.isJump_of_isToll htoll,
        Opcode.isSwap_of_isPoolPart (Opcode.isPoolPart_of_isToll htoll)⟩

theorem isStraight (h : Fades load period first fade fees last)
    (hv : validate set program = .ok (first :: fade :: (fees ++ [last]))) :
    IsStraight set program (first :: fade :: (fees ++ [last])) := by
  refine ⟨hv, fun r hr => ?_⟩
  have hmem : r ∈ (first :: fade :: fees) ++ [last] := hr
  rcases List.mem_append.1 hmem with hr | hr
  · exact (h.before r hr).1
  · rw [List.mem_singleton.1 hr]
    exact Opcode.isJump_of_isSwap h.isSwap

theorem endsInOnlySwap (h : Fades load period first fade fees last)
    (hv : validate set program = .ok (first :: fade :: (fees ++ [last]))) :
    EndsInOnlySwap set program :=
  ⟨first :: fade :: fees, last, hv, h.isSwap, fun r hr => (h.before r hr).2⟩

end Fades

end Program

namespace Walk

open Program Curve

variable {t : Terms} {pc : Nat} {i load : Instruction} {period : Nat} {first fade last r : Record}
  {rs fees : List Record} {f : Figures} {o o' : Overlay} {s v u : Sheet} {token : String}
  {side : Side} {now later x y n : Int}

/-! ### Another time -/

/-- The terms of the walk at another time. -/
def Terms.atTime (t : Terms) (now : Int) : Terms := { t with now }

/-- Fees and swaps do not look at the clock. -/
theorem effect_atTime (hi : i.opcode.isFee = true ∨ i.opcode.isSwap = true) (now : Int)
    (s : Sheet) : Effect.of (t.atTime now) pc i s = Effect.of t pc i s := by
  cases i with
  | flatFeeIn | flatFeeOut | dynamicFeeIn | constantProduct | pegged | density => rfl
  | _ => rcases hi with h | h <;> cases h

theorem conclude_atTime {p : Option Pending} (hp : ∀ q, p = some q → q.isFee = true) (now : Int)
    (s : Sheet) : conclude (t.atTime now) p s = conclude t p s := by
  cases p with
  | none => rfl
  | some p =>
    cases p with
    | book | fade | scale => cases hp _ rfl
    | restoreIn | restoreOut | raiseIn | lowerOut => rfl

theorem pass_atTime (h : ∀ r ∈ rs, r.opcode.isFee = true ∨ r.opcode.isSwap = true) (now : Int)
    (s : Sheet) : pass (t.atTime now) rs s = pass t rs s := by
  induction rs generalizing s with
  | nil => rfl
  | cons r rs ih =>
    have hpart := h r List.mem_cons_self
    cases hi : r.parse with
    | error f => rw [pass, pass, hi]; rfl
    | ok i =>
      rw [← (Instruction.parse_eq_ok hi).1] at hpart
      rw [pass_cons hi, pass_cons hi, effect_atTime hpart]
      refine Outcome.bind_congr fun e he => ?_
      rw [ih fun r' hr' => h r' (List.mem_cons_of_mem r hr')]
      refine Outcome.bind_congr fun v _ => conclude_atTime (fun q hq => ?_) now v
      exact (Acted.of_effect he).isFee_of_pending (hpart.imp_left Opcode.isToll_of_isFee) hq

/-! ### What a walk finds -/

/-- The balance that a record which loads balances finds for a token. -/
def found : Instruction → Overlay → String → Outcome Int
  | .staticBalances entries, _, token => Effect.listed entries token
  | .dynamicBalances entries, o, token =>
    match o.held entries token with
    | some amount => .ok amount
    | none => .error (.state (.noBalance token o.order))
  | _, _, _ => .ok 0

/-- What is left of a fading amount. -/
def left (o : Overlay) (token : String) (side : Side) (now : Int) (period : Nat) : Int :=
  match o.fade? token side with
  | some fade => fade.value now period
  | none => 0

theorem fadeLeft_eq_left (hperiod : 0 < period) :
    fadeLeft t o token side period = .ok (left o token side t.now period) := by
  unfold fadeLeft left
  cases o.fade? token side with
  | none => rfl
  | some fade => exact if_neg (by omega)

theorem left_nonneg (o : Overlay) (token : String) (side : Side) (now : Int)
    (hperiod : 0 < period) : 0 ≤ left o token side now period := by
  unfold left
  split
  · exact Fade.value_nonneg _ now (by omega)
  · exact Int.le_refl 0

theorem left_antitone (o : Overlay) (token : String) (side : Side) (hperiod : 0 < period)
    (h : now ≤ later) : left o token side later period ≤ left o token side now period := by
  unfold left
  split
  · exact Fade.value_antitone _ (by omega) h
  · exact Int.le_refl 0

theorem left_eq_zero
    (h : ∀ fade, o.fade? token side = some fade → fade.start + period ≤ now) :
    left o token side now period = 0 := by
  unfold left
  split
  · exact Fade.value_eq_zero (h _ ‹_›)
  · rfl

theorem left_congr (h : o.fade? token side = o'.fade? token side) (now : Int) (period : Nat) :
    left o token side now period = left o' token side now period := by
  unfold left
  rw [h]

/-- **Loading** finds the balances of both tokens, and leaves fading amounts alone. -/
theorem effect_of_found (t : Terms) (pc : Nat) (hload : load.opcode.isLoad = true) (f : Figures)
    (o : Overlay) : ∃ loaded p, (Effect.of t pc load (.start f o) = do
        let x ← found load o t.query.tokenIn
        let y ← found load o t.query.tokenOut
        return ⟨.widened f loaded x y, p⟩) ∧
      (∀ token side, loaded.fade? token side = o.fade? token side) ∧
      (p = none ∨ p = some .book ∧
        ∀ token n, found load o token = .ok n → loaded.balance? token = some n) := by
  cases load with
  | staticBalances entries =>
    refine ⟨o, none, ?_, fun _ _ => rfl, Or.inl rfl⟩
    simp only [Effect.of, Effect.staticBalances, found]
    cases Effect.listed entries t.query.tokenIn with
    | error => rfl
    | ok x => cases Effect.listed entries t.query.tokenOut <;> rfl
  | dynamicBalances entries =>
    obtain ⟨loaded, hinit⟩ := exists_initialise entries o
    obtain ⟨horder, -, hheld⟩ := initialise_eq_ok hinit
    have hbalance : found (.dynamicBalances entries) o = loaded.balance := by
      funext token
      rw [Overlay.balance, hheld, horder]
      rfl
    refine ⟨loaded, some .book, ?_, (sameRest_of_initialise hinit).fade?, Or.inr ⟨rfl, ?_⟩⟩
    · exact hbalance ▸ congrArg (· >>= _) hinit
    · intro token n h
      exact Overlay.balance_eq_ok_iff.1 ((congrFun hbalance token).symm.trans h)
  | _ => cases hload

/-- **What a walk answers** depends on the balances that it finds and on what is left of the fading
amounts. -/
theorem writing_pass_fading (hf : Fades load period first fade fees last)
    (hamounts : f.IsSound) (hfound : ∀ token n, found load o token = .ok n → 0 ≤ n)
    (o₀ : Overlay) :
    Sheet.writing o₀ <$> pass t (first :: fade :: (fees ++ [last])) (.start f o) = (do
      let x ← found load o t.query.tokenIn
      let y ← found load o t.query.tokenOut
      pass t (fees ++ [last]) (.widened f o₀ (x + left o t.query.tokenIn .incoming t.now period)
        (withoutOffset y (left o t.query.tokenOut .outgoing t.now period)))) := by
  obtain ⟨hparse, hload⟩ := hf.loads
  obtain ⟨loaded, p, heffect, hfades, hp⟩ := effect_of_found t first.pc hload f o
  have hperiod := hf.period_pos
  rw [pass_cons hparse, heffect]
  cases hx : found load o t.query.tokenIn with
  | error => rfl
  | ok x =>
    cases hy : found load o t.query.tokenOut with
    | error => rfl
    | ok y =>
      set a := left o t.query.tokenIn .incoming t.now period with ha
      set b := left o t.query.tokenOut .outgoing t.now period with hb
      have ha' : 0 ≤ a := left_nonneg _ _ _ _ hperiod
      have hb' : 0 ≤ b := left_nonneg _ _ _ _ hperiod
      have hdecay : Effect.of t fade.pc (.decay period) (.widened f loaded x y) =
          .ok (.wrapping (.widened f loaded (x + a) (withoutOffset y b)) (.fade period)) := by
        refine Outcome.bind_eq_ok.2 ⟨a, ?_, Outcome.bind_eq_ok.2 ⟨b, ?_, rfl⟩⟩
        · exact (fadeLeft_eq_left hperiod).trans (congrArg _ (left_congr (hfades _ _) _ _))
        · exact (fadeLeft_eq_left hperiod).trans (congrArg _ (left_congr (hfades _ _) _ _))
      show Sheet.writing o₀ <$> (pass t (fade :: (fees ++ [last])) (.widened f loaded x y) >>=
        conclude t p) = pass t (fees ++ [last]) (.widened f o₀ (x + a) (withoutOffset y b))
      have hinner : pass t (fees ++ [last]) (.widened f o₀ (x + a) (withoutOffset y b)) =
          Sheet.writing o₀ <$>
            pass t (fees ++ [last]) (.widened f loaded (x + a) (withoutOffset y b)) :=
        pass_writing (parts_of_tolls hf.tolls hf.isSwap) o₀
          (.widened f loaded (x + a) (withoutOffset y b))
      rw [pass_cons hf.fades, hdecay, hinner]
      show Sheet.writing o₀ <$> (pass t (fees ++ [last])
        (.widened f loaded (x + a) (withoutOffset y b)) >>= conclude t (some (.fade period)) >>=
          conclude t p) = _
      cases hv : pass t (fees ++ [last]) (.widened f loaded (x + a) (withoutOffset y b)) with
      | error => rfl
      | ok v =>
        have hx' := hfound _ x hx
        obtain ⟨o', ho'⟩ := exists_settled (t := t) hperiod hf.isSwap hf.tolls hamounts
          ⟨hx', Int.add_nonneg hx' ha'⟩ ⟨hfound _ y hy, hb'⟩
          (hp.imp_right fun ⟨hbook, hreads⟩ => ⟨hbook, hreads _ x hx, hreads _ y hy⟩) hv
        show Sheet.writing o₀ <$> (conclude t (some (.fade period)) v >>= conclude t p) = _
        rw [ho']
        rfl

end Walk

/-! ### Answers -/

/-- The amounts that a record lists fit in 256 bits. -/
theorem Instruction.isUint_of_listed {block : Bytes} {entries : Entries} {token : String} {n : Nat}
    (hparse : Reader.whole Reader.balances block = .ok entries)
    (h : entries.lookup token = some n) : IsUint n := by
  obtain ⟨-, hwritten⟩ := codes_balances.whole_eq_ok_iff.1 hparse
  obtain ⟨_, -, hwritten⟩ := Outcome.bind_eq_ok.1 hwritten
  obtain ⟨back, hback, -⟩ := Outcome.bind_eq_ok.1 hwritten
  obtain ⟨l₁, l₂, rfl, -⟩ := List.lookup_eq_some_iff.1 h
  have hlt : n < 256 ^ 32 := amount_lt_of_entries hback (token, n) (by simp)
  have hmax : maxUint + 1 = ((256 ^ 32 : Nat) : Int) := by decide
  constructor <;> omega

/-- A record that loads balances finds what fits in 256 bits if only that is stored. -/
theorem Walk.isUint_of_found {load : Instruction} {first : Record} {o : Overlay} {token : String}
    {n : Int} (hparse : first.parse = .ok load) (hload : load.opcode.isLoad = true)
    (hstored : ∀ token n, o.balance? token = some n → IsUint n)
    (h : found load o token = .ok n) : IsUint n := by
  obtain ⟨pc, op, args⟩ := first
  obtain ⟨rfl, -⟩ := Instruction.parse_eq_ok hparse
  cases load with
  | staticBalances entries =>
    obtain ⟨entries', hread, hsame⟩ := Outcome.bind_eq_ok.1 hparse
    cases hsame
    rw [found, Effect.listed] at h
    split at h
    · cases h
      exact Instruction.isUint_of_listed hread ‹_›
    · cases h
  | dynamicBalances entries =>
    obtain ⟨entries', hread, hsame⟩ := Outcome.bind_eq_ok.1 hparse
    cases hsame
    rw [found] at h
    split at h
    · cases h
      rename_i hheld
      rcases Option.or_eq_some_iff.1 hheld with hheld | ⟨-, hlisted⟩
      · exact hstored token n hheld
      · obtain ⟨m, hm, rfl⟩ := Option.map_eq_some_iff.1 hlisted
        exact Instruction.isUint_of_listed hread hm
    · cases h
  | _ => cases hload

/-- The state without fading amounts. -/
def Snapshot.unfaded (s : Snapshot) : Snapshot := { s with fades := .empty }

/-- The store in which an order has no fading amounts. -/
def Store.unfaded (s : Store) (order : String) : Store :=
  { s with states := s.states.insert order (s.snapshot order).unfaded }

theorem Store.overlay_unfaded (s : Store) (order : String) :
    (s.unfaded order).overlay order = .start order (s.snapshot order).unfaded := by
  rw [overlay, snapshot, unfaded, Index.get?_insert, if_pos rfl]
  rfl

/-- A fill for the same request that is no worse for the taker. -/
structure Fill.NoWorse (isExactIn : Bool) (f f' : Fill) : Prop where
  order : f'.order = f.order
  fixed : if isExactIn then f'.amountIn = f.amountIn else f'.amountOut = f.amountOut
  paid : f'.amountIn ≤ f.amountIn
  given : f.amountOut ≤ f'.amountOut

namespace Engine

open Program Walk

variable {e : Engine} {c : Call} {load : Instruction} {period : Nat} {later : Int}
  {first fade last : Record} {fees : List Record}

/-- The engine with an order that has no fading amounts. -/
def unfaded (e : Engine) (o : Order) : Engine := { e with store := e.store.unfaded o.hash }

/-- The call at another time. -/
def Call.atTime (c : Call) (now : Int) : Call := { c with now }

/-- The stored balances of an order fit in 256 bits. -/
def StoresUint (e : Engine) (o : Order) : Prop :=
  ∀ token n, (e.store.overlay o.hash).balance? token = some n → IsUint n

/-- **Answers** by the balances that are found and what is left of the fading amounts. -/
theorem answer_fading (hf : Fades load period first fade fees last)
    (hv : validate e.instructions c.order.program = .ok (first :: fade :: (fees ++ [last])))
    (hstored : e.StoresUint c.order) (o₀ : Overlay) :
    e.answer c = (do
      let hash ← e.accept c.order
      let (q, amount) ← query c.order hash c.request
      let o := e.store.overlay hash
      let x ← found load o q.tokenIn
      let y ← found load o q.tokenOut
      let s ← pass ((e.facing c).terms c.order q c.now false) (fees ++ [last])
        (.widened (figures c.request.isExactIn amount) o₀
          (x + left o q.tokenIn .incoming c.now period)
          (withoutOffset y (left o q.tokenOut .outgoing c.now period)))
      fill c.request q.order s) := by
  rw [answer_straight (hf.isStraight hv) (hf.endsInOnlySwap hv) o₀]
  refine Outcome.bind_congr fun hash hhash => Outcome.bind_congr fun qa hq => ?_
  obtain rfl := accept_eq_ok hhash
  have hamounts : (figures c.request.isExactIn qa.2).IsSound := by
    obtain ⟨-, -, -, ⟨-, hpos⟩, -⟩ := query_eq_ok hq
    unfold figures
    split <;> constructor <;> dsimp only <;> omega
  dsimp only
  rw [writing_pass_fading hf hamounts (fun token n h =>
    (isUint_of_found hf.loads.1 hf.loads.2 hstored h).1) o₀]
  simp only [bind_assoc]
  rfl

/-- Answers at other times and without fading amounts have the same beginning. -/
theorem found_congr (load : Instruction) (o o' : Overlay) (horder : o'.order = o.order)
    (hbalance : ∀ token, o'.balance? token = o.balance? token) (token : String) :
    found load o' token = found load o token := by
  cases load with
  | dynamicBalances entries => rw [found, found, Overlay.held, Overlay.held, hbalance, horder]
  | _ => rfl

/-- A fill of a better sheet is no worse. -/
theorem noWorse_of_improves {q : Query} {u u' : Sheet} (h : Improves u u')
    (hfixed : u'.figures.fixed q = u.figures.fixed q) (hash : String) :
    Fill.NoWorse q.isExactIn ⟨u.figures.amountIn, u.figures.amountOut, hash⟩
      ⟨u'.figures.amountIn, u'.figures.amountOut, hash⟩ := by
  refine ⟨rfl, ?_, h.paid.2, h.given.2.1⟩
  rw [Figures.fixed, Figures.fixed] at hfixed
  split at hfixed
  · rwa [if_pos ‹_›]
  · rwa [if_neg ‹_›]

section Later

variable (hf : Fades load period first fade fees last)
  (hv : validate e.instructions c.order.program = .ok (first :: fade :: (fees ++ [last])))
  (hstored : e.StoresUint c.order)

include hf hv hstored

/-- The answer to a query that finds these balances. -/
theorem answer_of_found {q : Query} {amount x y : Int}
    (haccept : e.accept c.order = .ok c.order.hash)
    (hq : query c.order c.order.hash c.request = .ok (q, amount))
    (hx : found load (e.store.overlay c.order.hash) q.tokenIn = .ok x)
    (hy : found load (e.store.overlay c.order.hash) q.tokenOut = .ok y) (o₀ : Overlay) :
    e.answer c = pass ((e.facing c).terms c.order q c.now false) (fees ++ [last])
      (.widened (figures c.request.isExactIn amount) o₀
        (x + left (e.store.overlay c.order.hash) q.tokenIn .incoming c.now period)
        (withoutOffset y
          (left (e.store.overlay c.order.hash) q.tokenOut .outgoing c.now period))) >>=
      fill c.request q.order := by
  rw [answer_fading hf hv hstored o₀, haccept]
  show (query c.order c.order.hash c.request >>= _) = _
  rw [hq]
  show (found load (e.store.overlay c.order.hash) q.tokenIn >>= _) = _
  rw [hx]
  show (found load (e.store.overlay c.order.hash) q.tokenOut >>= _) = _
  rw [hy]
  rfl

/-- Later, the same request finds the same balances, and fading amounts of which less is left. -/
theorem answer_later (hlater : c.now ≤ later) {f : Fill} (h : e.answer c = .ok f) :
    ∃ q amount x, query c.order c.order.hash c.request = .ok (q, amount) ∧
      found load (e.store.overlay c.order.hash) q.tokenIn = .ok x ∧
      if x + left (e.store.overlay c.order.hash) q.tokenIn .incoming later period = 0 then
        e.answer (c.atTime later) = .error (.curve .emptyBalance)
      else ∃ f', e.answer (c.atTime later) = .ok f' ∧ f.NoWorse c.request.isExactIn f' := by
  have hperiod := hf.period_pos
  obtain ⟨alpha, halpha, hlast⟩ := hf.swaps
  set o₀ := Overlay.start "" .empty
  rw [answer_fading hf hv hstored o₀] at h
  obtain ⟨hash, haccept, h⟩ := Outcome.bind_eq_ok.1 h
  obtain rfl := accept_eq_ok haccept
  obtain ⟨⟨q, amount⟩, hq, h⟩ := Outcome.bind_eq_ok.1 h
  obtain ⟨x, hx, h⟩ := Outcome.bind_eq_ok.1 h
  obtain ⟨y, hy, h⟩ := Outcome.bind_eq_ok.1 h
  obtain ⟨u, hu, hfill⟩ := Outcome.bind_eq_ok.1 h
  refine ⟨q, amount, x, hq, hx, ?_⟩
  set o := e.store.overlay c.order.hash
  set t := (e.facing c).terms c.order q c.now false
  set before : Sheet := .widened (figures c.request.isExactIn amount) o₀
    (x + left o q.tokenIn .incoming c.now period)
    (withoutOffset y (left o q.tokenOut .outgoing c.now period))
  have hlate : e.answer (c.atTime later) = pass t (fees ++ [last]) (before.withBalances
      (x + left o q.tokenIn .incoming later period)
      (withoutOffset y (left o q.tokenOut .outgoing later period))) >>=
        fill c.request q.order := by
    rw [answer_of_found (c := c.atTime later) hf hv hstored haccept hq hx hy o₀]
    exact congrArg (· >>= fill c.request q.order) (pass_atTime (t := t) hf.feesAndSwap later _)
  have hleftIn := left_antitone o q.tokenIn .incoming hperiod hlater
  have hnonneg := left_nonneg o q.tokenIn .incoming later hperiod
  have hxfits := isUint_of_found hf.loads.1 hf.loads.2 hstored hx
  have hyfits := isUint_of_found hf.loads.1 hf.loads.2 hstored hy
  obtain ⟨hless, hmost, hleast⟩ := withoutOffset_antitone hyfits.1
    (left_nonneg o q.tokenOut .outgoing later hperiod)
    (left_antitone o q.tokenOut .outgoing hperiod hlater)
  split
  case isTrue hempty =>
    rw [hlate, hempty, pass_empty hlast hf.fees hleast hu]
    rfl
  case isFalse hpos =>
    have hin : 0 < x + left o q.tokenIn .incoming later period := by
      have := hxfits.1
      omega
    obtain ⟨u', hu', himproves⟩ := pass_improves halpha hlast hf.fees
      ⟨hin, Int.add_le_add_left hleftIn x⟩ ⟨hless, Int.le_trans hmost hyfits.2⟩ hu
    have hfill' := fill_improves hfill himproves
    have hfixed : u'.figures.fixed q = u.figures.fixed q :=
      (fixed_of_pass hu').trans (fixed_of_pass hu).symm
    obtain ⟨-, hmode, -⟩ := query_eq_ok hq
    obtain ⟨-, rfl, -⟩ := fill_eq_ok hfill
    exact ⟨_, hlate.trans (Outcome.bind_eq_ok.2 ⟨u', hu', hfill'⟩),
      hmode ▸ noWorse_of_improves himproves hfixed _⟩

/-- Where nothing is left of the fading amounts of a request, they have no part in the answer. -/
theorem answer_unfaded (hover : ∀ q amount, query c.order c.order.hash c.request = .ok (q, amount) →
    left (e.store.overlay c.order.hash) q.tokenIn .incoming c.now period = 0 ∧
      left (e.store.overlay c.order.hash) q.tokenOut .outgoing c.now period = 0) :
    e.answer c = (e.unfaded c.order).answer c := by
  have hoverlay : (e.unfaded c.order).store.overlay c.order.hash =
      .start c.order.hash (e.store.snapshot c.order.hash).unfaded :=
    Store.overlay_unfaded e.store c.order.hash
  have hstored' : (e.unfaded c.order).StoresUint c.order := by
    intro token n h
    rw [hoverlay] at h
    exact hstored token n h
  set o₀ := Overlay.start "" .empty
  rw [answer_fading hf hv hstored o₀, answer_fading (e := e.unfaded c.order) hf hv hstored' o₀]
  refine Outcome.bind_congr fun hash hhash => Outcome.bind_congr fun qa hq => ?_
  obtain rfl := accept_eq_ok hhash
  obtain ⟨hin, hout⟩ := hover qa.1 qa.2 hq
  have hfound := found_congr load (e.store.overlay c.order.hash)
    (.start c.order.hash (e.store.snapshot c.order.hash).unfaded) rfl fun _ => rfl
  have hnothing (token : String) (side : Side) :
      left (.start c.order.hash (e.store.snapshot c.order.hash).unfaded) token side c.now period =
        0 := rfl
  dsimp only
  rw [hoverlay, hfound, hfound, hin, hout, hnothing, hnothing]
  rfl

end Later

/-- **The penalty only fades.**  An order whose program loads balances, listed or stored ones, lets
amounts fade, charges fees and swaps along the constant product; balances that fit in 256 bits and
any fading amounts are stored.  If a call is answered, then so is the same call at a later time,
with amounts that are no worse for the taker — unless the incoming balance has been made of a fading
amount alone, and nothing is left of that.  Once the periods of the two amounts that count are over,
the answer is the one without any fading amounts, be it a fill or a fault. -/
theorem penalty_fades (hp : IsFadingPool e.instructions c.order.program load period)
    (hstored : e.StoresUint c.order) (hlater : c.now ≤ later) :
    (∀ f, e.answer c = .ok f → ∃ q amount x,
      query c.order c.order.hash c.request = .ok (q, amount) ∧
      found load (e.store.overlay c.order.hash) q.tokenIn = .ok x ∧
      if x + left (e.store.overlay c.order.hash) q.tokenIn .incoming later period = 0 then
        e.answer (c.atTime later) = .error (.curve .emptyBalance)
      else ∃ f', e.answer (c.atTime later) = .ok f' ∧ f.NoWorse c.request.isExactIn f') ∧
    ((∀ q amount, query c.order c.order.hash c.request = .ok (q, amount) →
        (∀ fade, (e.store.overlay c.order.hash).fade? q.tokenIn .incoming = some fade →
          fade.start + period ≤ later) ∧
        (∀ fade, (e.store.overlay c.order.hash).fade? q.tokenOut .outgoing = some fade →
          fade.start + period ≤ later)) →
      e.answer (c.atTime later) = (e.unfaded c.order).answer (c.atTime later)) := by
  obtain ⟨first, fade, fees, last, hf, hv⟩ := hp
  refine ⟨fun f h => answer_later hf hv hstored hlater h, fun hover => ?_⟩
  refine answer_unfaded (c := c.atTime later) hf hv hstored fun q amount hq => ?_
  obtain ⟨hin, hout⟩ := hover q amount hq
  exact ⟨left_eq_zero hin, left_eq_zero hout⟩

/-! ### Pools with a penalty -/

/-- An engine that has the given state for the order of a program. -/
def poolEngine (program : Bytes) (s : Snapshot) : Engine :=
  { feePoolEngine with store := ⟨Index.empty.insert (poolOrder program).hash s, []⟩ }

theorem overlay_poolEngine (program : Bytes) (s : Snapshot) :
    (poolEngine program s).store.overlay (poolOrder program).hash =
      .start (poolOrder program).hash s := by
  rw [poolEngine, Store.overlay, Store.snapshot, Index.get?_insert, if_pos rfl]
  rfl

/-- What it answers, read off the records of the program. -/
theorem answer_poolEngine {program : Bytes} (hp : IsFadingPool .standard program load period)
    (s : Snapshot) (horder : c.order = poolOrder program) :
    (poolEngine program s).answer c = (do
      let hash ← feePoolEngine.accept c.order
      let (q, amount) ← query c.order hash c.request
      let v ← Sheet.writing (.start "" .empty) <$>
        pass ((feePoolEngine.facing c).terms c.order q c.now false)
          (Scan.of .standard program).records
          (.start (figures c.request.isExactIn amount) (.start hash s))
      fill c.request q.order v) := by
  obtain ⟨first, fade, fees, last, hf, hv⟩ := hp
  have hprogram : program = c.order.program := by rw [horder, poolOrder]
  rw [answer_straight (e := poolEngine program s) (hprogram ▸ hf.isStraight hv)
    (hprogram ▸ hf.endsInOnlySwap hv) (.start "" .empty), (validate_eq_ok_iff.1 hv).1]
  refine Outcome.bind_congr fun hash hhash => ?_
  obtain rfl := accept_eq_ok hhash
  rw [horder, overlay_poolEngine]
  rfl

/-- Balances of both tokens, if any, and an amount that fades on the incoming side of the first. -/
def penalized (balances : List (String × Int)) (base : Nat) : Snapshot :=
  ⟨⟨balances⟩, ⟨[(⟨addressOf 'a', .incoming⟩, ⟨base, 0, Int.natCast_nonneg base⟩)]⟩, none, 1⟩

/-- The only amount that fades starts at time zero. -/
theorem start_of_penalized {program : Bytes} {balances : List (String × Int)} {base : Nat}
    {token : String} {side : Side} {fade : Fade}
    (h : ((poolEngine program (penalized balances base)).store.overlay
      (poolOrder program).hash).fade? token side = some fade) : fade.start = 0 := by
  rw [overlay_poolEngine] at h
  replace h : (if (⟨token, side⟩ : FadeKey) = ⟨addressOf 'a', .incoming⟩ then
    some (⟨base, 0, Int.natCast_nonneg base⟩ : Fade) else none) = some fade := h
  split at h
  · cases h
    rfl
  · cases h

theorem storesUint_penalized {program : Bytes} {balances : List (String × Int)} {base : Nat}
    (h : ∀ b ∈ balances, IsUint b.2) :
    (poolEngine program (penalized balances base)).StoresUint (poolOrder program) := by
  intro token n hn
  rw [overlay_poolEngine] at hn
  replace hn : Index.find? token balances = some n := hn
  induction balances with
  | nil => cases hn
  | cons b balances ih =>
    rw [Index.find?] at hn
    split at hn
    · cases hn
      exact h b List.mem_cons_self
    · exact ih (fun b' hb' => h b' (List.mem_cons_of_mem b hb')) hn

/-- The pool `fadingPool` with 500 that fade on top of the incoming balance. -/
def penalizedPool : Engine :=
  poolEngine fadingPool (penalized [(addressOf 'a', 1000), (addressOf 'b', 2000)] 500)

theorem isFadingPool_fadingPool :
    IsFadingPool .standard fadingPool (.dynamicBalances feePoolEntries) 300 := by
  let first : Record := ⟨0, .dynamicBalances, (fadingPool.drop 2).take 105⟩
  let fade : Record := ⟨107, .decay, [0, 0, 1, 44]⟩
  let fee : Record := ⟨113, .flatFeeIn, [0, 30]⟩
  let last : Record := ⟨117, .constantProduct, fadingPool.drop 119⟩
  have hvalid : (validate .standard fadingPool).toOption = some [first, fade, fee, last] := by
    decide +kernel
  have hfirst : first.parse.toOption = some (.dynamicBalances feePoolEntries) := by decide +kernel
  have hlast : last.parse.toOption = some (.constantProduct 1000000000000000000) := by
    decide +kernel
  refine ⟨first, fade, [fee], last, ⟨⟨Outcome.eq_ok_of_toOption hfirst, rfl⟩, rfl, ?_, _, rfl,
    Outcome.eq_ok_of_toOption hlast⟩, Outcome.eq_ok_of_toOption hvalid⟩
  intro r hr
  rw [List.mem_singleton.1 hr]
  rfl

/-- What 100 give there is told at time zero and after the period, and then it is no worse and what
it would be without the amount that fades. -/
theorem penalty_fades_fadingPool :
    IsFadingPool penalizedPool.instructions fadingPool (.dynamicBalances feePoolEntries) 300 ∧
      penalizedPool.StoresUint (poolOrder fadingPool) ∧
      ∃ f f', penalizedPool.answer (poolCall fadingPool true false 'a' 'b' 100) = .ok f ∧
        penalizedPool.answer ((poolCall fadingPool true false 'a' 'b' 100).atTime 300) = .ok f' ∧
        f.NoWorse true f' ∧
        (penalizedPool.unfaded (poolOrder fadingPool)).answer
          ((poolCall fadingPool true false 'a' 'b' 100).atTime 300) = .ok f' := by
  have hpool : IsFadingPool penalizedPool.instructions fadingPool (.dynamicBalances feePoolEntries)
      300 := isFadingPool_fadingPool
  have hstored : penalizedPool.StoresUint (poolOrder fadingPool) := storesUint_penalized (by decide)
  have hsome : (penalizedPool.answer
      (poolCall fadingPool true false 'a' 'b' 100)).toOption.isSome = true := by
    rw [penalizedPool, answer_poolEngine isFadingPool_fadingPool _ rfl]
    decide +kernel
  have hsome' : (penalizedPool.answer
      ((poolCall fadingPool true false 'a' 'b' 100).atTime 300)).toOption.isSome = true := by
    rw [penalizedPool, answer_poolEngine isFadingPool_fadingPool _ rfl]
    decide +kernel
  obtain ⟨f, hf⟩ := Option.isSome_iff_exists.1 hsome
  replace hf := Outcome.eq_ok_of_toOption hf
  have hlate : (poolCall fadingPool true false 'a' 'b' 100).now ≤ 300 := by decide
  obtain ⟨hfades, hunfaded⟩ := penalty_fades (c := poolCall fadingPool true false 'a' 'b' 100)
    hpool hstored hlate
  obtain ⟨q, amount, x, -, -, hlater⟩ := hfades f hf
  split at hlater
  case isTrue =>
    rw [hlater] at hsome'
    cases hsome'
  case isFalse =>
    obtain ⟨f', hf', hbetter⟩ := hlater
    have hsame := hunfaded fun q amount _ =>
      ⟨fun fade h => by rw [start_of_penalized h]; decide,
        fun fade h => by rw [start_of_penalized h]; decide⟩
    exact ⟨hpool, hstored, f, f', hf, hf', hbetter, hsame.symm.trans hf'⟩

/-- The program `fadingPool` with listed balances, nothing of the first token, a period of ten
seconds and no fee. -/
def emptyPool : Bytes :=
  [0x10, 105, 2] ++ List.replicate 20 0xaa ++ List.replicate 32 0
    ++ List.replicate 20 0xbb ++ List.replicate 30 0 ++ [0x03, 0xe8]
    ++ [0x18, 4, 0, 0, 0, 10] ++ feePool.drop 111

theorem isFadingPool_emptyPool : IsFadingPool .standard emptyPool
    (.staticBalances [(addressOf 'a', 0), (addressOf 'b', 1000)]) 10 := by
  let first : Record := ⟨0, .staticBalances, (emptyPool.drop 2).take 105⟩
  let fade : Record := ⟨107, .decay, [0, 0, 0, 10]⟩
  let last : Record := ⟨113, .constantProduct, emptyPool.drop 115⟩
  have hvalid : (validate .standard emptyPool).toOption = some [first, fade, last] := by
    decide +kernel
  have hfirst : first.parse.toOption =
      some (.staticBalances [(addressOf 'a', 0), (addressOf 'b', 1000)]) := by
    decide +kernel
  have hlast : last.parse.toOption = some (.constantProduct 1000000000000000000) := by
    decide +kernel
  exact ⟨first, fade, [], last, ⟨⟨Outcome.eq_ok_of_toOption hfirst, rfl⟩, rfl, nofun, _, rfl,
    Outcome.eq_ok_of_toOption hlast⟩, Outcome.eq_ok_of_toOption hvalid⟩

/-- An incoming balance that is made of a fading amount alone: a call that is answered at time zero
is turned down when the amount has faded. -/
theorem penalty_fades_to_nothing :
    IsFadingPool (poolEngine emptyPool (penalized [] 10)).instructions emptyPool
        (.staticBalances [(addressOf 'a', 0), (addressOf 'b', 1000)]) 10 ∧
      (poolEngine emptyPool (penalized [] 10)).StoresUint (poolOrder emptyPool) ∧
      (∃ f, (poolEngine emptyPool (penalized [] 10)).answer
        (poolCall emptyPool true false 'a' 'b' 10) = .ok f) ∧
      ∀ f, (poolEngine emptyPool (penalized [] 10)).answer
        ((poolCall emptyPool true false 'a' 'b' 10).atTime 10) ≠ .ok f := by
  have hsome : ((poolEngine emptyPool (penalized [] 10)).answer
      (poolCall emptyPool true false 'a' 'b' 10)).toOption.isSome = true := by
    rw [answer_poolEngine isFadingPool_emptyPool _ rfl]
    decide +kernel
  have hnone : ((poolEngine emptyPool (penalized [] 10)).answer
      ((poolCall emptyPool true false 'a' 'b' 10).atTime 10)).toOption = none := by
    rw [answer_poolEngine isFadingPool_emptyPool _ rfl]
    decide +kernel
  obtain ⟨f, hf⟩ := Option.isSome_iff_exists.1 hsome
  refine ⟨isFadingPool_emptyPool, storesUint_penalized nofun, ⟨f, Outcome.eq_ok_of_toOption hf⟩,
    fun f' hf' => ?_⟩
  rw [hf'] at hnone
  cases hnone

end Engine

end SwapMachine
