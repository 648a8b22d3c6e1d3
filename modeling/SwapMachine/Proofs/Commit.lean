import SwapMachine.State.Store

/-!
# SwapMachine.Proofs.Commit — what commits do to snapshots

* `Store.commit_eq_ok`: a commit of writes is admitted by the version and replaces one snapshot.
* `Store.publish`: the store that a commit leaves; a commit of writes over the snapshot that is
  current succeeds (`commit_of_current`).
* `Store.get?_publish`, `fade_publish`, `scale_publish`: after the writes are published, each
  balance, fading amount and the scale is what they read before.
-/

namespace SwapMachine

theorem Overlay.get?_result (o : Overlay) (token : String) :
    o.result.balances.get? token = o.balance? token :=
  Index.get?_overlay _ _ _

theorem Overlay.balance?_of_clean {o : Overlay} (h : o.isDirty = false) (token : String) :
    o.balance? token = o.base.balances.get? token := by
  simp only [isDirty, Bool.or_eq_false_iff, Bool.not_eq_false', Index.isEmpty,
    List.isEmpty_iff] at h
  rw [balance?, Index.get?, h.1.1]
  rfl

theorem Overlay.fade?_of_clean {o : Overlay} (h : o.isDirty = false) (token : String)
    (side : Side) : o.fade? token side = o.base.fades.get? ⟨token, side⟩ := by
  simp only [isDirty, Bool.or_eq_false_iff, Bool.not_eq_false', Index.isEmpty,
    List.isEmpty_iff] at h
  rw [fade?, Index.get?, h.1.2]
  rfl

theorem Overlay.scale?_of_clean {o : Overlay} (h : o.isDirty = false) : o.scale? = o.base.scale := by
  simp only [isDirty, Bool.or_eq_false_iff, Option.isSome_eq_false_iff, Option.isNone_iff_eq_none]
    at h
  rw [scale?, h.2]
  rfl

namespace Store

@[simp] theorem snapshot_insert (s : Store) (order other : String) (x : Snapshot) :
    ({ s with states := s.states.insert order x } : Store).snapshot other =
      if other = order then x else s.snapshot other := by
  simp only [snapshot, Index.get?_insert]
  split <;> rfl

@[simp] theorem snapshot_erase (s : Store) (order other : String) :
    ({ s with states := s.states.erase order } : Store).snapshot other =
      if other = order then .empty else s.snapshot other := by
  simp only [snapshot, Index.get?_erase]
  split <;> rfl

/-- What a successful commit of pending writes does: it is admitted by the version, and replaces one
snapshot by the result of the writes. -/
theorem commit_eq_ok {s : Store} {o : Overlay} {c : Commit} (hd : o.isDirty = true)
    (h : s.commit o = .ok c) :
    (s.snapshot o.order).version = o.base.version ∧ c.snapshot = o.result ∧
      c.store = { s with states := s.states.insert o.order o.result } := by
  unfold commit at h
  rw [hd] at h
  simp only [Bool.not_true, Bool.false_eq_true, if_false] at h
  split at h
  · cases h
  · rename_i hv
    cases h
    exact ⟨Decidable.not_not.1 hv, rfl, rfl⟩

theorem commit_of_clean {s : Store} {o : Overlay} (hd : o.isDirty = false) :
    s.commit o = .ok ⟨s, o.base, []⟩ := by
  unfold commit
  rw [hd]
  rfl

/-! ### Publishing -/

/-- The store with the result of pending writes as the order's snapshot, if there are writes. -/
def publish (s : Store) (o : Overlay) : Store :=
  if o.isDirty then { s with states := s.states.insert o.order o.result } else s

theorem publish_of_dirty {s : Store} {o : Overlay} (hd : o.isDirty = true) :
    s.publish o = { s with states := s.states.insert o.order o.result } :=
  if_pos hd

theorem publish_of_clean {s : Store} {o : Overlay} (hd : o.isDirty = false) : s.publish o = s := by
  rw [publish, hd, if_neg Bool.false_ne_true]

/-- A commit that succeeds publishes the writes. -/
theorem store_of_commit {s : Store} {o : Overlay} {c : Commit} (h : s.commit o = .ok c) :
    c.store = s.publish o := by
  cases hd : o.isDirty with
  | true =>
    obtain ⟨-, -, hs⟩ := commit_eq_ok hd h
    rw [hs, publish_of_dirty hd]
  | false =>
    rw [commit_of_clean hd] at h
    cases h
    exact (publish_of_clean hd).symm

/-- Writes over the snapshot that is current are never stale. -/
theorem commit_of_current {s : Store} {o : Overlay} (h : o.base = s.snapshot o.order) :
    ∃ c, s.commit o = .ok c := by
  unfold commit
  split
  · exact ⟨_, rfl⟩
  · dsimp only
    rw [← h, if_neg fun hne => hne rfl]
    exact ⟨_, rfl⟩

@[simp] theorem held_publish (s : Store) (o : Overlay) : (s.publish o).held = s.held := by
  unfold publish
  split <;> rfl

theorem snapshot_publish_of_ne {s : Store} {o : Overlay} {other : String} (hne : other ≠ o.order) :
    (s.publish o).snapshot other = s.snapshot other := by
  cases hd : o.isDirty with
  | true => rw [publish_of_dirty hd, snapshot_insert, if_neg hne]
  | false => rw [publish_of_clean hd]

/-- After the writes are published, each balance is what they read before. -/
theorem get?_publish {s : Store} {o : Overlay} (hbase : o.base = s.snapshot o.order)
    (token : String) :
    ((s.publish o).snapshot o.order).balances.get? token = o.balance? token := by
  cases hd : o.isDirty with
  | true => rw [publish_of_dirty hd, snapshot_insert, if_pos rfl, o.get?_result]
  | false => rw [publish_of_clean hd, Overlay.balance?_of_clean hd, hbase]

/-- Each fading amount is what the writes read before. -/
theorem fade_publish {s : Store} {o : Overlay} (hbase : o.base = s.snapshot o.order)
    (token : String) (side : Side) :
    ((s.publish o).snapshot o.order).fades.get? ⟨token, side⟩ = o.fade? token side := by
  cases hd : o.isDirty with
  | true => rw [publish_of_dirty hd, snapshot_insert, if_pos rfl]; exact Index.get?_overlay _ _ _
  | false => rw [publish_of_clean hd, Overlay.fade?_of_clean hd, hbase]

/-- The scale is what the writes read before. -/
theorem scale_publish {s : Store} {o : Overlay} (hbase : o.base = s.snapshot o.order) :
    ((s.publish o).snapshot o.order).scale = o.scale? := by
  cases hd : o.isDirty with
  | true => rw [publish_of_dirty hd, snapshot_insert, if_pos rfl]; rfl
  | false => rw [publish_of_clean hd, Overlay.scale?_of_clean hd, hbase]

/-- Publishing does not depend on locks. -/
theorem unlock_publish_lock (s : Store) (o : Overlay) (order : String) :
    ((s.lock order).publish o).unlock order = s.publish o := by
  have hlock (t : Store) : (t.lock order).unlock order = t := by
    simp only [lock, unlock, List.erase_cons_head]
  cases hd : o.isDirty with
  | true =>
    rw [publish_of_dirty hd, publish_of_dirty hd]
    exact hlock { s with states := s.states.insert o.order o.result }
  | false =>
    rw [publish_of_clean hd, publish_of_clean hd]
    exact hlock s

end Store

end SwapMachine
