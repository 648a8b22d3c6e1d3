import SwapMachine.Walk.Effect

/-!
# SwapMachine.Proofs.Booking — stored balances: how they are loaded and booked

* `Overlay.held o entries`: what an order has of a token: the balance that is stored or written, or
  else the listed one.
* `initialise_eq_ok`: loading writes down what the order has of each listed token.
* `settleBook_eq_ok`, `balance?_of_booked`: booking moves the amounts of a trade between two
  balances.
-/

namespace SwapMachine

namespace Overlay

variable {o o' : Overlay} {token other : String} {x y amount : Int}

theorem balance_eq_ok_iff : o.balance token = .ok x ↔ o.balance? token = some x := by
  unfold balance
  cases o.balance? token with
  | none => exact iff_of_false (fun h => nomatch h) (fun h => nomatch h)
  | some a =>
    constructor
    · intro h
      exact congrArg some (Except.ok.inj h)
    · intro h
      exact congrArg Except.ok (Option.some.inj h)

/-- What writing a balance does. -/
theorem setBalance_eq_ok (h : o.setBalance token amount = .ok o') :
    0 ≤ amount ∧ o'.order = o.order ∧ o'.base = o.base ∧
      ∀ other, o'.balance? other = if other = token then some amount else o.balance? other := by
  unfold setBalance at h
  split at h
  · cases h
  · cases h
    refine ⟨by omega, rfl, rfl, fun other => ?_⟩
    simp only [balance?, Index.get?_insert]
    split <;> rfl

/-- The writes read the same fading amounts and the same scale. -/
structure SameRest (o o' : Overlay) : Prop where
  fade? : ∀ token side, o'.fade? token side = o.fade? token side
  scale? : o'.scale? = o.scale?

theorem SameRest.refl (o : Overlay) : SameRest o o := ⟨fun _ _ => rfl, rfl⟩

theorem SameRest.trans {o'' : Overlay} (h : SameRest o o') (h' : SameRest o' o'') :
    SameRest o o'' :=
  ⟨fun token side => (h'.fade? token side).trans (h.fade? token side), h'.scale?.trans h.scale?⟩

theorem sameRest_of_setBalance (h : o.setBalance token amount = .ok o') : SameRest o o' := by
  unfold setBalance at h
  split at h
  · cases h
  · cases h
    exact ⟨fun _ _ => rfl, rfl⟩

/-- The amount listed for a token. -/
def listed? (entries : Entries) (token : String) : Option Int :=
  (entries.lookup token).map fun amount : Nat => (amount : Int)

/-- What the order has of a token: the balance that is stored or written, or else the listed one. -/
def held (o : Overlay) (entries : Entries) (token : String) : Option Int :=
  (o.balance? token).or (listed? entries token)

theorem listed?_nonneg {entries : Entries} (h : listed? entries token = some x) : 0 ≤ x := by
  obtain ⟨n, -, rfl⟩ := Option.map_eq_some_iff.1 h
  exact Int.natCast_nonneg n

end Overlay

namespace Walk

open Overlay

/-- **Loading** gives each listed token without a balance the listed one, and changes no other. -/
theorem initialise_eq_ok {entries : Entries} {o o' : Overlay}
    (h : Effect.initialise entries o = .ok o') :
    o'.order = o.order ∧ o'.base = o.base ∧ ∀ token, o'.balance? token = o.held entries token := by
  induction entries generalizing o with
  | nil =>
    cases h
    exact ⟨rfl, rfl, fun token => by simp [held, listed?]⟩
  | cons e entries ih =>
    obtain ⟨listed, amount⟩ := e
    rw [Effect.initialise] at h
    by_cases hb : o.hasBalance listed = true
    · rw [if_pos hb] at h
      obtain ⟨h1, h2, h3⟩ := ih h
      refine ⟨h1, h2, fun token => ?_⟩
      rw [h3, held, held, listed?, listed?, List.lookup_cons]
      by_cases ht : token = listed
      · subst ht
        obtain ⟨x, hx⟩ := Option.isSome_iff_exists.1 hb
        rw [hx]
        rfl
      · rw [beq_false_of_ne ht]
    · rw [if_neg hb] at h
      obtain ⟨o₁, ho₁, h⟩ := Outcome.bind_eq_ok.1 h
      obtain ⟨-, horder, hbase, hset⟩ := setBalance_eq_ok ho₁
      obtain ⟨h1, h2, h3⟩ := ih h
      refine ⟨h1.trans horder, h2.trans hbase, fun token => ?_⟩
      rw [h3, held, held, hset, listed?, listed?, List.lookup_cons]
      by_cases ht : token = listed
      · subst ht
        have hnone : o.balance? token = none := Option.not_isSome_iff_eq_none.1 hb
        rw [if_pos rfl, hnone, beq_self_eq_true]
        rfl
      · rw [if_neg ht, beq_false_of_ne ht]

theorem sameRest_of_initialise {entries : Entries} {o o' : Overlay}
    (h : Effect.initialise entries o = .ok o') : SameRest o o' := by
  induction entries generalizing o with
  | nil => cases h; exact .refl _
  | cons e entries ih =>
    rw [Effect.initialise] at h
    split at h
    · exact ih h
    · obtain ⟨o₁, ho₁, h⟩ := Outcome.bind_eq_ok.1 h
      exact (sameRest_of_setBalance ho₁).trans (ih h)

/-- Listed amounts can be loaded into any state. -/
theorem exists_initialise (entries : Entries) (o : Overlay) :
    ∃ o', Effect.initialise entries o = .ok o' := by
  induction entries generalizing o with
  | nil => exact ⟨o, rfl⟩
  | cons e entries ih =>
    obtain ⟨listed, amount⟩ := e
    rw [Effect.initialise]
    by_cases hb : o.hasBalance listed = true
    · rw [if_pos hb]
      exact ih o
    · have hset : o.setBalance listed amount =
          .ok { o with balances := o.balances.insert listed amount } :=
        if_neg (Int.not_lt.2 (Int.natCast_nonneg amount))
      rw [if_neg hb, hset]
      exact ih _

/-- Loading does nothing when each listed token has a balance. -/
theorem initialise_of_hasBalance {entries : Entries} {o : Overlay}
    (h : ∀ e ∈ entries, o.hasBalance e.1 = true) : Effect.initialise entries o = .ok o := by
  induction entries with
  | nil => rfl
  | cons e entries ih =>
    rw [Effect.initialise, if_pos (h e List.mem_cons_self)]
    exact ih fun e' he' => h e' (List.mem_cons_of_mem e he')

/-- **Booking** takes the amount out from one balance and adds the amount in to the other. -/
theorem settleBook_eq_ok {q : Query} {f : Figures} {o o' : Overlay}
    (h : Pending.settleBook q f o = .ok o') :
    ∃ x y, o.balance? q.tokenIn = some x ∧ o.balance? q.tokenOut = some y ∧
      f.amountOut ≤ y ∧ 0 ≤ x + f.amountIn ∧ o'.order = o.order ∧ o'.base = o.base ∧
      ∀ token, o'.balance? token =
        if token = q.tokenOut then some (y - f.amountOut)
        else if token = q.tokenIn then some (x + f.amountIn) else o.balance? token := by
  obtain ⟨y, hy, h⟩ := Outcome.bind_eq_ok.1 h
  dsimp only at h
  split at h
  · cases h
  · rename_i hle
    obtain ⟨x, hx, h⟩ := Outcome.bind_eq_ok.1 h
    obtain ⟨o₁, ho₁, h⟩ := Outcome.bind_eq_ok.1 h
    obtain ⟨hnew, horder, hbase, hset⟩ := setBalance_eq_ok ho₁
    obtain ⟨-, horder', hbase', hset'⟩ := setBalance_eq_ok h
    refine ⟨x, y, balance_eq_ok_iff.1 hx, balance_eq_ok_iff.1 hy, by omega, hnew,
      horder'.trans horder, hbase'.trans hbase, fun token => ?_⟩
    rw [hset', hset]

/-- **Booking on loaded balances** that have not been written since. -/
theorem balance?_of_booked {q : Query} {f : Figures} {loaded o o' : Overlay} {x y : Int}
    (hx : loaded.balance q.tokenIn = .ok x) (hy : loaded.balance q.tokenOut = .ok y)
    (hsame : ∀ token, o.balance? token = loaded.balance? token)
    (h : Pending.settleBook q f o = .ok o') :
    f.amountOut ≤ y ∧ ∀ token, o'.balance? token =
      if token = q.tokenOut then some (y - f.amountOut)
      else if token = q.tokenIn then some (x + f.amountIn) else loaded.balance? token := by
  obtain ⟨x', y', hx', hy', hcovered, -, -, -, hbalance⟩ := settleBook_eq_ok h
  rw [hsame] at hx' hy'
  obtain rfl := Option.some.inj ((balance_eq_ok_iff.1 hx).symm.trans hx')
  obtain rfl := Option.some.inj ((balance_eq_ok_iff.1 hy).symm.trans hy')
  refine ⟨hcovered, fun token => ?_⟩
  rw [hbalance, hsame]

theorem sameRest_of_settleBook {q : Query} {f : Figures} {o o' : Overlay}
    (h : Pending.settleBook q f o = .ok o') : SameRest o o' := by
  obtain ⟨_, -, h⟩ := Outcome.bind_eq_ok.1 h
  dsimp only at h
  split at h
  · cases h
  · obtain ⟨_, -, h⟩ := Outcome.bind_eq_ok.1 h
    obtain ⟨_, ho₁, h⟩ := Outcome.bind_eq_ok.1 h
    exact (sameRest_of_setBalance ho₁).trans (sameRest_of_setBalance h)

/-- Booking succeeds if the amount out is there, and the other balance does not become negative. -/
theorem settleBook_of_covered {q : Query} {f : Figures} {o : Overlay} {x y : Int}
    (hx : o.balance? q.tokenIn = some x) (hy : o.balance? q.tokenOut = some y)
    (hleft : f.amountOut ≤ y) (hnew : 0 ≤ x + f.amountIn) :
    ∃ o', Pending.settleBook q f o = .ok o' := by
  have hset (o : Overlay) (token : String) {amount : Int} (h : 0 ≤ amount) :
      ∃ o', o.setBalance token amount = .ok o' := ⟨_, if_neg (Int.not_lt.2 h)⟩
  obtain ⟨o₁, ho₁⟩ := hset o q.tokenIn hnew
  obtain ⟨o₂, ho₂⟩ := hset o₁ q.tokenOut (Int.sub_nonneg.2 hleft)
  refine ⟨o₂, Outcome.bind_eq_ok.2 ⟨y, balance_eq_ok_iff.2 hy, ?_⟩⟩
  refine (if_neg (by omega)).trans ?_
  exact Outcome.bind_eq_ok.2 ⟨x, balance_eq_ok_iff.2 hx, Outcome.bind_eq_ok.2 ⟨o₁, ho₁, ho₂⟩⟩

end Walk

end SwapMachine
