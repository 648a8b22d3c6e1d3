import SwapMachine.Proofs.Commit

/-!
# SwapMachine.Proofs.Session — pending writes of many callers on one store

A session is a store together with the pending writes that callers have begun on it, each under a
name.  Actions of all callers come in any order; one that fails changes nothing.

A commit compares versions only, and versions start anew when an order is forgotten.  So pending
writes that were begun before the order was forgotten can be committed over a snapshot that they
have never seen (`commit_loses_update`).

* `commit_iff_agrees`: a commit puts the writes over the current snapshot exactly if that snapshot
  agrees with the one that the writes started from wherever nothing is written; this is so if the
  order has not been forgotten since.
-/

namespace SwapMachine

/-! ### The same writes over another snapshot -/

/-- Snapshots that answer all reads alike. -/
structure Snapshot.Same (a b : Snapshot) : Prop where
  balances : ∀ token, a.balances.get? token = b.balances.get? token
  fades : ∀ key, a.fades.get? key = b.fades.get? key
  scale : a.scale = b.scale
  version : a.version = b.version

namespace Overlay

/-- The same writes, pending over another snapshot. -/
def rebase (o : Overlay) (s : Snapshot) : Overlay := { o with base := s }

/-- The snapshot that the writes started from and another one agree wherever nothing is written. -/
structure Agrees (o : Overlay) (s : Snapshot) : Prop where
  balances : ∀ token, o.balances.get? token = none →
    o.base.balances.get? token = s.balances.get? token
  fades : ∀ key, o.fades.get? key = none → o.base.fades.get? key = s.fades.get? key
  scale : o.scale = none → o.base.scale = s.scale

theorem or_eq_or_iff {α : Type} {w a b : Option α} :
    w.or a = w.or b ↔ (w = none → a = b) := by
  cases w <;> simp

theorem result_same_iff {o : Overlay} {s : Snapshot} (h : o.base.version = s.version) :
    o.result.Same (o.rebase s).result ↔ o.Agrees s := by
  constructor
  · intro hs
    refine ⟨fun token => ?_, fun key => ?_, ?_⟩
    · have := hs.balances token
      simp only [result, rebase, Index.get?_overlay] at this
      exact or_eq_or_iff.1 this
    · have := hs.fades key
      simp only [result, rebase, Index.get?_overlay] at this
      exact or_eq_or_iff.1 this
    · exact or_eq_or_iff.1 hs.scale
  · intro ha
    refine ⟨fun token => ?_, fun key => ?_, ?_, ?_⟩
    · simp only [result, rebase, Index.get?_overlay]
      exact or_eq_or_iff.2 (ha.balances token)
    · simp only [result, rebase, Index.get?_overlay]
      exact or_eq_or_iff.2 (ha.fades key)
    · exact or_eq_or_iff.2 ha.scale
    · simp only [result, rebase, h]

theorem rebase_base (o : Overlay) : o.rebase o.base = o := rfl

end Overlay

/-! ### Sessions -/

/-- A store and the pending writes on it by name. -/
structure Session where
  store : Store
  pending : Nat → Option Overlay

namespace Session

/-- What a caller does. -/
inductive Action where
  | start (name : Nat) (order : String)
  | setBalance (name : Nat) (token : String) (amount : Int)
  | setFade (name : Nat) (token : String) (side : Side) (fade : Fade)
  | setScale (name : Nat) (scale : Int)
  | commit (name : Nat)
  | forget (order : String)

/-- A new store on which nothing is pending. -/
def fresh : Session := ⟨.empty, fun _ => none⟩

/-- The session with other pending writes under a name. -/
def put (s : Session) (name : Nat) (o : Overlay) : Session :=
  { s with pending := fun n => if n = name then some o else s.pending n }

/-- The session after one more write under a name, unless it fails. -/
def write (s : Session) (name : Nat) (w : Overlay → Outcome Overlay) : Session :=
  match s.pending name with
  | none => s
  | some o =>
    match w o with
    | .ok o' => s.put name o'
    | .error _ => s

/-- The session after the commit of what is pending under a name, unless it fails. -/
def commit (s : Session) (name : Nat) : Session :=
  match s.pending name with
  | none => s
  | some o =>
    match s.store.commit o with
    | .ok c => { s with store := c.store }
    | .error _ => s

/-- The session after an order has been forgotten, unless that fails. -/
def forget (s : Session) (order : String) : Session :=
  match s.store.forget order with
  | .ok (store, _) => { s with store }
  | .error _ => s

/-- The session after an action. -/
def act (s : Session) : Action → Session
  | .start name order => s.put name (s.store.overlay order)
  | .setBalance name token amount => s.write name fun o => o.setBalance token amount
  | .setFade name token side fade => s.write name fun o => .ok (o.setFade token side fade)
  | .setScale name scale => s.write name fun o => o.setScale scale
  | .commit name => s.commit name
  | .forget order => s.forget order

/-- The session after actions in turn. -/
def run (s : Session) (actions : List Action) : Session := actions.foldl act s

@[simp] theorem run_nil (s : Session) : s.run [] = s := rfl

@[simp] theorem run_cons (s : Session) (a : Action) (actions : List Action) :
    s.run (a :: actions) = (s.act a).run actions := rfl

theorem run_append (s : Session) (xs ys : List Action) : s.run (xs ++ ys) = (s.run xs).run ys :=
  List.foldl_append

/-! ### What an action leaves alone -/

/-- A write keeps the order and the snapshot that it started from. -/
def KeepsBase (w : Overlay → Outcome Overlay) : Prop :=
  ∀ o o', w o = .ok o' → o'.order = o.order ∧ o'.base = o.base

theorem keepsBase_setBalance (token : String) (amount : Int) :
    KeepsBase fun o => o.setBalance token amount := by
  intro o o' h
  simp only [Overlay.setBalance] at h
  split at h
  · cases h
  · cases h; exact ⟨rfl, rfl⟩

theorem keepsBase_setFade (token : String) (side : Side) (fade : Fade) :
    KeepsBase fun o => .ok (o.setFade token side fade) := by
  intro o o' h
  cases h
  exact ⟨rfl, rfl⟩

theorem keepsBase_setScale (scale : Int) : KeepsBase fun o => o.setScale scale := by
  intro o o' h
  simp only [Overlay.setScale] at h
  split at h
  · cases h
  · cases h; exact ⟨rfl, rfl⟩

theorem pending_commit (s : Session) (name : Nat) : (s.commit name).pending = s.pending := by
  unfold commit
  split
  · rfl
  · split <;> rfl

theorem pending_forget (s : Session) (order : String) : (s.forget order).pending = s.pending := by
  unfold forget
  split <;> rfl

theorem store_write (s : Session) (name : Nat) (w : Overlay → Outcome Overlay) :
    (s.write name w).store = s.store := by
  unfold write
  split
  · rfl
  · split <;> rfl

/-- Writes under one name keep the order and the first snapshot of what is pending under another or
the same name. -/
theorem origin_write {s : Session} {name other : Nat} {w : Overlay → Outcome Overlay} {o : Overlay}
    (hw : KeepsBase w) (h : s.pending other = some o) :
    ∃ o', (s.write name w).pending other = some o' ∧ o'.order = o.order ∧ o'.base = o.base := by
  unfold write
  split
  · exact ⟨o, h, rfl, rfl⟩
  · rename_i p hp
    split
    · rename_i p' hwp
      by_cases hn : other = name
      · subst hn
        rw [h] at hp; cases hp
        exact ⟨p', if_pos rfl, hw o p' hwp⟩
      · exact ⟨o, (if_neg hn).trans h, rfl, rfl⟩
    · exact ⟨o, h, rfl, rfl⟩

/-- Pending writes keep their order and the snapshot that they started from until others are begun
under their name. -/
theorem origin_act {s : Session} {name : Nat} {o : Overlay} {a : Action}
    (h : s.pending name = some o) (ha : ∀ order, a ≠ .start name order) :
    ∃ o', (s.act a).pending name = some o' ∧ o'.order = o.order ∧ o'.base = o.base := by
  cases a with
  | start other order =>
    have hn : name ≠ other := by
      rintro rfl
      exact ha order rfl
    exact ⟨o, (if_neg hn).trans h, rfl, rfl⟩
  | setBalance other token amount => exact origin_write (keepsBase_setBalance token amount) h
  | setFade other token side fade => exact origin_write (keepsBase_setFade token side fade) h
  | setScale other scale => exact origin_write (keepsBase_setScale scale) h
  | commit other => exact ⟨o, by rw [act, pending_commit, h], rfl, rfl⟩
  | forget order => exact ⟨o, by rw [act, pending_forget, h], rfl, rfl⟩

theorem origin_run {s : Session} {name : Nat} {o : Overlay} {actions : List Action}
    (h : s.pending name = some o) (ha : ∀ order, .start name order ∉ actions) :
    ∃ o', (s.run actions).pending name = some o' ∧ o'.order = o.order ∧ o'.base = o.base := by
  induction actions generalizing s o with
  | nil => exact ⟨o, h, rfl, rfl⟩
  | cons a actions ih =>
    obtain ⟨o₁, h₁, horder, hbase⟩ :=
      origin_act h fun order hne => ha order (hne ▸ List.mem_cons_self)
    obtain ⟨o₂, h₂, horder', hbase'⟩ := ih h₁ fun order hm => ha order (List.mem_cons_of_mem a hm)
    exact ⟨o₂, h₂, horder'.trans horder, hbase'.trans hbase⟩

/-! ### Versions -/

/-- A later snapshot of an order that has not been forgotten: the same one, or one of a higher
version. -/
def NotBefore (x y : Snapshot) : Prop := y = x ∨ x.version < y.version

theorem NotBefore.trans {x y z : Snapshot} (hxy : NotBefore x y) (hyz : NotBefore y z) :
    NotBefore x z := by
  rcases hxy with rfl | hxy
  · exact hyz
  · rcases hyz with rfl | hyz
    · exact Or.inr hxy
    · exact Or.inr (Nat.lt_trans hxy hyz)

theorem NotBefore.eq_of_version {x y : Snapshot} (h : NotBefore x y) (hv : y.version = x.version) :
    y = x := by
  rcases h with h | h
  · exact h
  · omega

theorem notBefore_commit (s : Session) (name : Nat) (order : String) :
    NotBefore (s.store.snapshot order) ((s.commit name).store.snapshot order) := by
  unfold commit
  split
  · exact Or.inl rfl
  · rename_i o ho
    split
    · rename_i c hc
      cases hd : o.isDirty with
      | false =>
        rw [Store.commit_of_clean hd] at hc
        cases hc
        exact Or.inl rfl
      | true =>
        obtain ⟨hv, -, hs⟩ := Store.commit_eq_ok hd hc
        simp only [hs, Store.snapshot_insert]
        split
        · rename_i heq
          subst heq
          rw [NotBefore, hv]
          exact Or.inr (Nat.lt_succ_self _)
        · exact Or.inl rfl
    · exact Or.inl rfl

theorem snapshot_forget (s : Session) {order other : String} (h : order ≠ other) :
    (s.forget other).store.snapshot order = s.store.snapshot order := by
  unfold forget Store.forget
  split
  · rename_i hf
    split at hf
    · cases hf
    · cases hf
      rw [Store.snapshot_erase, if_neg h]
  · rfl

/-- Every action but forgetting the order keeps its snapshot or raises its version. -/
theorem notBefore_act (s : Session) {a : Action} {order : String} (ha : a ≠ .forget order) :
    NotBefore (s.store.snapshot order) ((s.act a).store.snapshot order) := by
  cases a with
  | start => exact Or.inl rfl
  | setBalance | setFade | setScale => exact Or.inl (by rw [act, store_write])
  | commit name => exact s.notBefore_commit name order
  | forget other => exact Or.inl (s.snapshot_forget fun h => ha (h ▸ rfl))

theorem notBefore_run (s : Session) {actions : List Action} {order : String}
    (h : .forget order ∉ actions) :
    NotBefore (s.store.snapshot order) ((s.run actions).store.snapshot order) := by
  induction actions generalizing s with
  | nil => exact Or.inl rfl
  | cons a actions ih =>
    have h1 := notBefore_act s (a := a) fun hne => h (hne ▸ List.mem_cons_self)
    exact h1.trans (ih _ fun hm => h (List.mem_cons_of_mem a hm))

/-! ### Commits in sessions -/

theorem exists_last_start (actions : List Action) (name : Nat) :
    (∀ order, .start name order ∉ actions) ∨
      ∃ before order after, actions = before ++ .start name order :: after ∧
        ∀ other, .start name other ∉ after := by
  induction actions with
  | nil => exact Or.inl fun order h => (List.not_mem_nil h).elim
  | cons a actions ih =>
    rcases ih with h | ⟨before, order, after, rfl, h⟩
    · by_cases ha : ∃ order, a = .start name order
      · obtain ⟨order, rfl⟩ := ha
        exact Or.inr ⟨[], order, actions, rfl, h⟩
      · refine Or.inl fun order hm => ?_
        rcases List.mem_cons.1 hm with hm | hm
        · exact ha ⟨order, hm.symm⟩
        · exact h order hm
    · exact Or.inr ⟨a :: before, order, after, rfl, h⟩

theorem pending_write_none {s : Session} {name other : Nat} {w : Overlay → Outcome Overlay}
    (h : s.pending other = none) : (s.write name w).pending other = none := by
  unfold write
  split
  · exact h
  · rename_i o ho
    have hne : other ≠ name := by
      rintro rfl
      rw [h] at ho; cases ho
    split
    · exact (if_neg hne).trans h
    · exact h

theorem pending_run_none {s : Session} {name : Nat} {actions : List Action}
    (h : s.pending name = none) (ha : ∀ order, .start name order ∉ actions) :
    (s.run actions).pending name = none := by
  induction actions generalizing s with
  | nil => exact h
  | cons a actions ih =>
    refine ih ?_ fun order hm => ha order (List.mem_cons_of_mem a hm)
    cases a with
    | start other order =>
      have hne : name ≠ other := by
        rintro rfl
        exact ha order List.mem_cons_self
      exact (if_neg hne).trans h
    | setBalance | setFade | setScale => exact pending_write_none h
    | commit other => rw [act, pending_commit, h]
    | forget order => rw [act, pending_forget, h]

/-- What is pending was begun by the last start under its name, on the snapshot that was current
then. -/
theorem exists_start_of_pending {actions : List Action} {name : Nat} {o : Overlay}
    (h : (fresh.run actions).pending name = some o) :
    ∃ before after, actions = before ++ .start name o.order :: after ∧
      (∀ other, .start name other ∉ after) ∧
      o.base = (fresh.run before).store.snapshot o.order := by
  rcases exists_last_start actions name with hnone | ⟨before, order, after, rfl, hafter⟩
  · rw [pending_run_none rfl hnone] at h
    cases h
  · have hput : ((fresh.run before).act (.start name order)).pending name =
        some ((fresh.run before).store.overlay order) := if_pos rfl
    obtain ⟨o', ho', horder, hbase⟩ := origin_run hput hafter
    rw [run_append, run_cons, ho'] at h
    cases h
    change o.order = order at horder
    refine ⟨before, after, by rw [horder], hafter, ?_⟩
    rw [hbase, horder]
    rfl

/-- Since writes were begun under the name, their order has been forgotten. -/
def ForgottenSince (actions : List Action) (name : Nat) (order : String) : Prop :=
  ∃ before after, actions = before ++ .start name order :: after ∧
    (∀ other, .start name other ∉ after) ∧ .forget order ∈ after

/-- Where the order has not been forgotten since, a version that still fits means that the current
snapshot is the one that the writes started from. -/
theorem base_eq_current {actions : List Action} {name : Nat} {o : Overlay}
    (h : (fresh.run actions).pending name = some o)
    (hv : ((fresh.run actions).store.snapshot o.order).version = o.base.version)
    (hf : ¬ ForgottenSince actions name o.order) :
    (fresh.run actions).store.snapshot o.order = o.base := by
  obtain ⟨before, after, rfl, hafter, hbase⟩ := exists_start_of_pending h
  have hnot : .forget o.order ∉ after := fun hm => hf ⟨before, after, rfl, hafter, hm⟩
  rw [run_append, run_cons] at hv ⊢
  rw [hbase] at hv ⊢
  exact (notBefore_run ((fresh.run before).act (.start name o.order)) hnot).eq_of_version hv

/-- **Commits**: after any actions of any callers, a commit of pending writes that succeeds makes
its result current, one version on.  That is the current snapshot with the writes put over it
exactly if the current snapshot agrees, wherever nothing is written, with the one that the writes
started from; and it is so whenever the order has not been forgotten since the writes were begun. -/
theorem commit_iff_agrees {actions : List Action} {name : Nat} {o : Overlay} {c : Store.Commit}
    (ho : (fresh.run actions).pending name = some o) (hd : o.isDirty = true)
    (hc : (fresh.run actions).store.commit o = .ok c) :
    let current := (fresh.run actions).store.snapshot o.order
    c.store.snapshot o.order = c.snapshot ∧ c.snapshot.version = current.version + 1 ∧
      (c.snapshot.Same (o.rebase current).result ↔ o.Agrees current) ∧
      (¬ ForgottenSince actions name o.order → c.snapshot = (o.rebase current).result) := by
  obtain ⟨hv, hresult, hstore⟩ := Store.commit_eq_ok hd hc
  refine ⟨?_, ?_, ?_, fun hf => ?_⟩
  · rw [hstore, hresult, Store.snapshot_insert, if_pos rfl]
  · rw [hresult, hv]
    rfl
  · rw [hresult]
    exact Overlay.result_same_iff hv.symm
  · rw [hresult, base_eq_current ho hv hf, Overlay.rebase_base]

/-- Two callers in turn on one order. -/
def inTurn : List Action :=
  [.start 1 "h", .setBalance 1 "a" 1, .commit 1, .start 2 "h", .setBalance 2 "b" 2]

/-- The second of two callers in turn commits over what the first has stored. -/
theorem commit_inTurn :
    ∃ o c, (fresh.run inTurn).pending 2 = some o ∧ o.isDirty = true ∧
      (fresh.run inTurn).store.commit o = .ok c ∧ ¬ ForgottenSince inTurn 2 o.order ∧
      c.snapshot = (o.rebase ((fresh.run inTurn).store.snapshot o.order)).result := by
  have hnot : ¬ ForgottenSince inTurn 2 "h" := by
    rintro ⟨before, after, h, -, hm⟩
    have hmem : Action.forget "h" ∈ inTurn := by
      rw [h]
      exact List.mem_append_right _ (List.mem_cons_of_mem _ hm)
    simp [inTurn] at hmem
  exact ⟨_, _, rfl, rfl, rfl, hnot, (commit_iff_agrees rfl rfl rfl).2.2.2 hnot⟩

/-- One caller begins writes on an order that has a balance of `a`; the order is forgotten, another
caller stores a balance of `b`, and the first one goes on to write a balance of `c`. -/
def acrossForget : List Action :=
  [.start 1 "h", .setBalance 1 "a" 1, .commit 1, .start 2 "h", .forget "h", .start 3 "h",
    .setBalance 3 "b" 5, .commit 3, .setBalance 2 "c" 9]

/-- The commit of the first caller is admitted: the balance of `b`, which was current and which it
has not written, is lost, and the forgotten balance of `a` comes back. -/
theorem commit_loses_update :
    ∃ o c, (fresh.run acrossForget).pending 2 = some o ∧ o.isDirty = true ∧
      (fresh.run acrossForget).store.commit o = .ok c ∧
      ((fresh.run acrossForget).store.snapshot "h").balances.get? "b" = some 5 ∧
      o.balances.get? "b" = none ∧ c.snapshot.balances.get? "b" = none ∧
      ((fresh.run acrossForget).store.snapshot "h").balances.get? "a" = none ∧
      c.snapshot.balances.get? "a" = some 1 ∧
      ¬ c.snapshot.Same (o.rebase ((fresh.run acrossForget).store.snapshot "h")).result := by
  refine ⟨_, _, rfl, rfl, rfl, rfl, rfl, rfl, rfl, rfl, fun h => ?_⟩
  exact absurd (h.balances "b") (by decide)

end Session

end SwapMachine
