import SwapMachine.Proofs.PoolHistory

/-!
# SwapMachine.Proofs.Isolation — what calls leave alone

* `Index.insert_comm`, `Store.publish_comm`: writes to two orders can be published in either order.
* `Engine.Isolated`: all that one call can do to the store.
* `calls_isolated`: every call keeps to that, and calls on orders with different hashes commute.
-/

namespace SwapMachine

namespace Index

variable {κ ν : Type} [DecidableEq κ] [Ord κ] [Std.LawfulEqOrd κ] {k k' : κ} {e : κ × ν}

theorem place_of_eq (h : compare k e.1 = .eq) (v : ν) (es : List (κ × ν)) :
    place k v (e :: es) = (k, v) :: es := by
  rw [place, if_pos (Std.LawfulEqOrd.eq_of_compare h)]

theorem place_of_lt (h : compare k e.1 = .lt) (v : ν) (es : List (κ × ν)) :
    place k v (e :: es) = (k, v) :: e :: es := by
  have hne : k ≠ e.1 := by
    intro heq
    rw [heq, Std.ReflOrd.compare_self] at h
    cases h
  rw [place, if_neg hne, if_pos h]

theorem place_of_gt (h : compare k e.1 = .gt) (v : ν) (es : List (κ × ν)) :
    place k v (e :: es) = e :: place k v es := by
  have hne : k ≠ e.1 := by
    intro heq
    rw [heq, Std.ReflOrd.compare_self] at h
    cases h
  rw [place, if_neg hne, if_neg (by rw [h]; decide)]

variable [Std.TransOrd κ]

theorem place_comm_of_lt (hlt : compare k k' = .lt) (v v' : ν) (es : List (κ × ν)) :
    place k v (place k' v' es) = place k' v' (place k v es) := by
  have hgt : compare k' k = .gt := Std.OrientedCmp.gt_of_lt hlt
  induction es with
  | nil => exact (place_of_lt hlt v []).trans (place_of_gt hgt v' []).symm
  | cons e es ih =>
    cases he : compare k e.1 with
    | lt =>
      -- whatever stands in front after `k'` has been put, `k` comes before it
      rw [place_of_lt he, place_of_gt (e := (k, v)) hgt]
      cases he' : compare k' e.1 with
      | lt => rw [place_of_lt he', place_of_lt (e := (k', v')) hlt]
      | eq => rw [place_of_eq he', place_of_lt (e := (k', v')) hlt]
      | gt => rw [place_of_gt he', place_of_lt he]
    | eq =>
      have he' : compare k' e.1 = .gt := by rwa [← Std.LawfulEqOrd.eq_of_compare he]
      rw [place_of_eq he, place_of_gt (e := (k, v)) hgt, place_of_gt he', place_of_eq he]
    | gt =>
      have he' : compare k' e.1 = .gt := Std.TransCmp.gt_trans hgt he
      rw [place_of_gt he', place_of_gt he, place_of_gt he, place_of_gt he', ih]

/-- Values can be put at two keys in either order. -/
theorem insert_comm (t : Index κ ν) (hne : k ≠ k') (v v' : ν) :
    (t.insert k v).insert k' v' = (t.insert k' v').insert k v := by
  unfold insert
  congr 1
  cases h : compare k k' with
  | lt => exact (place_comm_of_lt h v v' t.entries).symm
  | eq => exact absurd (Std.LawfulEqOrd.eq_of_compare h) hne
  | gt => exact place_comm_of_lt (Std.OrientedCmp.lt_of_gt h) v' v t.entries

end Index

namespace Store

variable {s : Store} {o o' : Overlay}

/-- Writes to two orders can be published in either order. -/
theorem publish_comm (s : Store) (hne : o.order ≠ o'.order) :
    (s.publish o).publish o' = (s.publish o').publish o := by
  cases hd : o.isDirty with
  | false => rw [publish_of_clean hd, publish_of_clean hd]
  | true =>
    cases hd' : o'.isDirty with
    | false => rw [publish_of_clean hd', publish_of_clean hd']
    | true =>
      simp only [publish_of_dirty hd, publish_of_dirty hd']
      rw [Index.insert_comm _ hne]

/-- The second store is the first one with the writes published for one order. -/
structure HasPublished (s s' : Store) (order : String) (o : Overlay) : Prop where
  base : o.base = s.snapshot order
  written : o.isDirty = true → s'.states.get? order = some o.result ∧
    o.result.version = (s.snapshot order).version + 1
  clean : o.isDirty = false → s'.states = s.states
  others : ∀ other, other ≠ order → s'.states.get? other = s.states.get? other

theorem hasPublished_publish (hbase : o.base = s.snapshot o.order) :
    HasPublished s (s.publish o) o.order o := by
  refine ⟨hbase, fun hd => ?_, fun hd => ?_, fun other hne => ?_⟩
  · rw [publish_of_dirty hd, ← hbase, Index.get?_insert, if_pos rfl]
    exact ⟨rfl, rfl⟩
  · rw [publish_of_clean hd]
  · cases hd : o.isDirty with
    | true => rw [publish_of_dirty hd, Index.get?_insert, if_neg hne]
    | false => rw [publish_of_clean hd]

end Store

namespace Engine

variable {e : Engine} {c d : Call}

/-! ### One call -/

/-- All that a call can do to the store: a quote and a call that fails do nothing, and a swap that is
answered publishes the writes of its walk under the hash of its order.  The locks that are held after
it are those that were held before. -/
structure Isolated (e : Engine) (c : Call) : Prop where
  quote : c.isSwap = false → (e.serve c).store = e.store
  failed : ∀ f, e.answer c = .error f → (e.serve c).store = e.store
  swapped : ∀ f, c.isSwap = true → e.answer c = .ok f → ∃ p, e.priceOf c = .ok p ∧ f = p.fill ∧
    e.store.HasPublished (e.serve c).store c.order.hash p.overlay
  held : (e.serve c).store.held = e.store.held

/-- What a call publishes, if it does. -/
def published (e : Engine) (c : Call) : Option Overlay :=
  if c.isSwap then Priced.overlay <$> (e.priceOf c).toOption else none

theorem order_of_published {o : Overlay} (h : e.published c = some o) : o.order = c.order.hash := by
  unfold published at h
  split at h
  · obtain ⟨p, hp, rfl⟩ := Option.map_eq_some_iff.1 h
    exact (origin_of_price (priced_eq_ok (Outcome.eq_ok_of_toOption hp))).1
  · cases h

/-- **A call** publishes something or does nothing, and beside the store it changes nothing but the
parties. -/
theorem serve_eq (e : Engine) (c : Call) :
    e.serve c = { e.facing c with
                  store := match e.published c with
                    | some o => e.store.publish o
                    | none => e.store } := by
  cases hp : e.priceOf c with
  | error f =>
    have hnone : e.published c = none := by
      rw [published, hp]
      split <;> rfl
    rw [serve_of_unpriced hp, hnone]
    rfl
  | ok p =>
    cases hswap : c.isSwap with
    | false =>
      rw [serve_of_quote hswap, published, hswap, if_neg Bool.false_ne_true]
      rfl
    | true =>
      rw [serve_of_priced hswap hp, published, if_pos hswap, hp]
      rfl

/-- Calls do not change which orders are accepted. -/
theorem accept_serve (e : Engine) (c : Call) (o : Order) : (e.serve c).accept o = e.accept o := by
  rw [serve_eq]
  rfl

theorem serve_settings (e : Engine) (c : Call) : (e.serve c).settings = e.settings := by
  rw [serve_eq]
  rfl

theorem isolated (e : Engine) (c : Call) : Isolated e c := by
  refine ⟨fun hquote => ?_, fun f h => ?_, fun f hswap h => ?_, ?_⟩
  · rw [serve_of_quote hquote]
    rfl
  · rw [serve_of_unpriced (answer_eq_error h)]
    rfl
  · obtain ⟨p, hp, rfl⟩ := answer_eq_ok h
    obtain ⟨horder, hbase⟩ := origin_of_price (priced_eq_ok hp)
    refine ⟨p, hp, rfl, ?_⟩
    rw [serve_of_priced hswap hp, ← horder]
    exact Store.hasPublished_publish hbase
  · rw [serve_eq]
    dsimp only
    split
    · exact Store.held_publish e.store _
    · rfl

/-! ### Two calls -/

/-- Two calls can be made in either order: both answers and what is stored in the end are the same. -/
structure Commute (e : Engine) (c d : Call) : Prop where
  first : (e.serve d).answer c = e.answer c
  second : (e.serve c).answer d = e.answer d
  store : ((e.serve c).serve d).store = ((e.serve d).serve c).store

/-- A price depends on what is stored for the order only. -/
theorem price_of_snapshot {s : Store} {hash : String}
    (h : s.snapshot hash = e.store.snapshot hash) (o : Order) (r : Request) (now : Int)
    (stopAtSwap : Bool) :
    price { e with store := s } o hash r now stopAtSwap = price e o hash r now stopAtSwap := by
  have hoverlay : s.overlay hash = e.store.overlay hash := by
    rw [Store.overlay, Store.overlay, h]
  unfold price
  cases query o hash r with
  | error f => rfl
  | ok qa =>
    dsimp only
    rw [hoverlay]
    rfl

theorem priceOf_serve (hne : c.order.hash ≠ d.order.hash) :
    (e.serve d).priceOf c = e.priceOf c := by
  have hsame : (e.serve d).store.snapshot c.order.hash = (e.facing c).store.snapshot c.order.hash :=
    snapshot_serve_of_ne hne
  have hfacing : (e.serve d).facing c = { e.facing c with store := (e.serve d).store } := by
    rw [serve_eq]
    rfl
  unfold priceOf priced
  rw [hfacing]
  show ((e.facing c).accept c.order >>= _) = _
  cases ha : (e.facing c).accept c.order with
  | error f => rfl
  | ok hash =>
    obtain rfl := accept_eq_ok ha
    exact congrArg Report.outcome (price_of_snapshot hsame _ _ _ _)

theorem answer_serve (hne : c.order.hash ≠ d.order.hash) : (e.serve d).answer c = e.answer c := by
  rw [answer_eq, answer_eq, priceOf_serve hne]

theorem published_serve (hne : c.order.hash ≠ d.order.hash) :
    (e.serve d).published c = e.published c := by
  rw [published, published, priceOf_serve hne]

theorem commute (hne : c.order.hash ≠ d.order.hash) : Commute e c d := by
  refine ⟨answer_serve hne, answer_serve hne.symm, ?_⟩
  rw [serve_eq (e.serve c) d, serve_eq (e.serve d) c]
  dsimp only
  rw [published_serve hne, published_serve hne.symm, serve_eq e c, serve_eq e d]
  cases hc : e.published c with
  | none => rfl
  | some o =>
    cases hd : e.published d with
    | none => rfl
    | some o' =>
      have horders : o.order ≠ o'.order := by
        rw [order_of_published hc, order_of_published hd]
        exact hne
      exact Store.publish_comm e.store horders

/-- Calls in turn give back every lock that they take. -/
theorem held_run (e : Engine) (calls : List Call) : (e.run calls).store.held = e.store.held := by
  induction calls generalizing e with
  | nil => rfl
  | cons c calls ih => rw [run_cons, ih, (isolated e c).held]

/-- **Calls are isolated**: in any state of an engine and whatever the outside parties answer, a call
leaves every snapshot as it is, except that a swap that is answered replaces the one of its order by
the result of its writes; after any calls the locks that are held are those from before, none if
there were none; and two calls are on orders of the same hash or can be made in either order. -/
theorem calls_isolated (e : Engine) :
    (∀ c, Isolated e c) ∧ (∀ calls, (e.run calls).store.held = e.store.held) ∧
      ∀ c d : Call, c.order.hash = d.order.hash ∨ Commute e c d := by
  refine ⟨isolated e, held_run e, fun c d => ?_⟩
  by_cases heq : c.order.hash = d.order.hash
  · exact Or.inl heq
  · exact Or.inr (commute heq)

/-- The first swap of 100 in the pool with a fee leaves the order at version 1 and holds no lock. -/
theorem isolated_feePoolSwap :
    (∃ p, feePoolEngine.priceOf (feePoolSwap 'a' 'b' 100) = .ok p ∧
      (feePoolEngine.serve (feePoolSwap 'a' 'b' 100)).store.states.get? feePoolOrder.hash =
        some p.overlay.result ∧ p.overlay.result.version = 1) ∧
    (feePoolEngine.run thereAndBack).store.held = [] := by
  obtain ⟨hone, hmany, -⟩ := calls_isolated feePoolEngine
  have hwrites : ((feePoolEngine.priceOf (feePoolSwap 'a' 'b' 100)).toOption.map
      fun p => p.overlay.isDirty) = some true := by
    decide +kernel
  obtain ⟨p, hp, hdirty⟩ := Option.map_eq_some_iff.1 hwrites
  replace hp := Outcome.eq_ok_of_toOption hp
  have hanswer : feePoolEngine.answer (feePoolSwap 'a' 'b' 100) = .ok p.fill := by
    rw [answer_eq, hp]
    rfl
  obtain ⟨p', hp', -, hpublished⟩ := (hone (feePoolSwap 'a' 'b' 100)).swapped _ rfl hanswer
  obtain rfl := Except.ok.inj (hp.symm.trans hp')
  exact ⟨⟨p, hp, hpublished.written hdirty⟩, hmany thereAndBack⟩

end Engine

end SwapMachine
