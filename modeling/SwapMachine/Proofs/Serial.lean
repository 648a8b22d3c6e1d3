import Mathlib.Data.List.Induction
import SwapMachine.Proofs.Session

/-!
# SwapMachine.Proofs.Serial — sessions in which nothing is forgotten are serial

Reading and taking snapshots change nothing, so they may come anywhere between the actions of a
session; what they give after any actions is what is stated.

* `Extends name actions o o'`: what actions of all callers make of the writes that are pending under
  a name; each key has what was written last.
* `commits s order actions`: the pending writes to an order that are committed, in turn.  The version
  of the order counts them (`version_run`), and while nothing is forgotten its snapshot consists of
  them (`snapshot_run`).
* `serial`: hence what callers read, which commits succeed, and what is stored.
-/

namespace SwapMachine

/-- The snapshot with pending writes put over it, one version on. -/
def Snapshot.under (s : Snapshot) (o : Overlay) : Snapshot := (o.rebase s).result

/-- A balance that is required is the one that is there, and a failure if there is none. -/
theorem Overlay.balance_eq (o : Overlay) (token : String) :
    o.balance token = (o.balance? token).elim (.error (.state (.noBalance token o.order))) .ok := by
  rw [balance]
  cases o.balance? token <;> rfl

theorem Overlay.requireScale_eq (o : Overlay) :
    o.requireScale = o.scale?.elim (.error (.state (.noScale o.order))) .ok := by
  rw [requireScale]
  cases o.scale? <;> rfl

namespace Store

/-- Writes can be committed exactly if their snapshot has the version that they started from. -/
theorem exists_commit_iff {s : Store} {o : Overlay} (hd : o.isDirty = true) :
    (∃ c, s.commit o = .ok c) ↔ (s.snapshot o.order).version = o.base.version := by
  constructor
  · rintro ⟨c, hc⟩
    exact (commit_eq_ok hd hc).1
  · intro hv
    unfold commit
    rw [hd]
    exact ⟨_, if_neg (not_not_intro hv)⟩

/-- Writes that have been committed cannot be committed once more. -/
theorem not_exists_commit {s : Store} {o : Overlay} {c : Commit} (hd : o.isDirty = true)
    (h : s.commit o = .ok c) : ¬ ∃ c', c.store.commit o = .ok c' := by
  rw [exists_commit_iff hd, (commit_eq_ok hd h).2.2, snapshot_insert, if_pos rfl]
  exact Nat.succ_ne_self _

end Store

namespace Session

variable {s : Session} {name other : Nat} {o o' o'' : Overlay} {a : Action}
  {actions more : List Action} {order : String}

/-! ### What is written last -/

/-- The balance of a token that an action writes under a name; a negative one is refused. -/
def Action.balance? (name : Nat) (token : String) : Action → Option Int
  | .setBalance n t amount => if n = name ∧ token = t ∧ 0 ≤ amount then some amount else none
  | _ => none

/-- The fading amount at a key that an action writes under a name. -/
def Action.fade? (name : Nat) (key : FadeKey) : Action → Option Fade
  | .setFade n token side fade => if n = name ∧ key = ⟨token, side⟩ then some fade else none
  | _ => none

/-- The liquidity scale that an action writes under a name; a negative one is refused. -/
def Action.scale? (name : Nat) : Action → Option Int
  | .setScale n scale => if n = name ∧ 0 ≤ scale then some scale else none
  | _ => none

/-- What is written last along actions. -/
def last {α : Type} (written? : Action → Option α) (actions : List Action) : Option α :=
  actions.reverse.findSome? written?

theorem last_singleton {α : Type} (written? : Action → Option α) (a : Action) :
    last written? [a] = written? a := by
  simp [last]

theorem last_append {α : Type} (written? : Action → Option α) (actions more : List Action) :
    last written? (actions ++ more) = (last written? more).or (last written? actions) := by
  simp [last, List.findSome?_append]

/-- What actions make of the writes that are pending under a name, if none are begun there. -/
structure Extends (name : Nat) (actions : List Action) (o o' : Overlay) : Prop where
  balances : ∀ token, o'.balances.get? token =
    (last (Action.balance? name token) actions).or (o.balances.get? token)
  fades : ∀ key, o'.fades.get? key = (last (Action.fade? name key) actions).or (o.fades.get? key)
  scale : o'.scale = (last (Action.scale? name) actions).or o.scale

theorem Extends.nil (name : Nat) (o : Overlay) : Extends name [] o o :=
  ⟨fun _ => rfl, fun _ => rfl, rfl⟩

theorem Extends.append (h : Extends name actions o o') (h' : Extends name more o' o'') :
    Extends name (actions ++ more) o o'' := by
  refine ⟨fun token => ?_, fun key => ?_, ?_⟩
  · rw [h'.balances, h.balances, last_append, Option.or_assoc]
  · rw [h'.fades, h.fades, last_append, Option.or_assoc]
  · rw [h'.scale, h.scale, last_append, Option.or_assoc]

/-- An action that writes nothing under the name leaves the writes there as they are. -/
theorem extends_of_none (hbalance : ∀ token, a.balance? name token = none)
    (hfade : ∀ key, a.fade? name key = none) (hscale : a.scale? name = none) :
    Extends name [a] o o := by
  refine ⟨fun token => ?_, fun key => ?_, ?_⟩
  · rw [last_singleton, hbalance, Option.none_or]
  · rw [last_singleton, hfade, Option.none_or]
  · rw [last_singleton, hscale, Option.none_or]

theorem pending_write_of_ne {w : Overlay → Outcome Overlay} (h : other ≠ name) :
    (s.write other w).pending name = s.pending name := by
  unfold write
  split
  · rfl
  · split
    · exact if_neg h.symm
    · rfl

theorem pending_write_of_ok {w : Overlay → Outcome Overlay} (h : s.pending name = some o)
    (hw : w o = .ok o') : (s.write name w).pending name = some o' := by
  unfold write
  rw [h]
  dsimp only
  rw [hw]
  exact if_pos rfl

theorem write_of_error {w : Overlay → Outcome Overlay} {f : Fault} (h : s.pending name = some o)
    (hw : w o = .error f) : s.write name w = s := by
  unfold write
  rw [h]
  dsimp only
  rw [hw]

theorem extends_act (h : s.pending name = some o) (ha : ∀ order, a ≠ .start name order) :
    ∃ o', (s.act a).pending name = some o' ∧ Extends name [a] o o' := by
  cases a with
  | start other order =>
    have hne : name ≠ other := by
      rintro rfl
      exact ha order rfl
    exact ⟨o, (if_neg hne).trans h, extends_of_none (fun _ => rfl) (fun _ => rfl) rfl⟩
  | setBalance other token amount =>
    by_cases hn : other = name
    · subst hn
      by_cases hneg : amount < 0
      · refine ⟨o, ?_, extends_of_none (fun _ => if_neg fun hall => ?_) (fun _ => rfl) rfl⟩
        · rw [act, write_of_error h (if_pos hneg), h]
        · omega
      · refine ⟨_, pending_write_of_ok h (if_neg hneg), fun t => ?_, fun _ => rfl, rfl⟩
        rw [Index.get?_insert, last_singleton, Action.balance?]
        by_cases ht : t = token
        · rw [if_pos ht, if_pos ⟨rfl, ht, by omega⟩, Option.some_or]
        · rw [if_neg ht, if_neg fun hall => ht hall.2.1, Option.none_or]
    · exact ⟨o, (pending_write_of_ne hn).trans h,
        extends_of_none (fun _ => if_neg fun hall => hn hall.1) (fun _ => rfl) rfl⟩
  | setFade other token side fade =>
    by_cases hn : other = name
    · subst hn
      refine ⟨_, pending_write_of_ok h rfl, fun _ => rfl, fun key => ?_, rfl⟩
      rw [Overlay.setFade, Index.get?_insert, last_singleton, Action.fade?]
      by_cases hk : key = ⟨token, side⟩
      · rw [if_pos hk, if_pos ⟨rfl, hk⟩, Option.some_or]
      · rw [if_neg hk, if_neg fun hall => hk hall.2, Option.none_or]
    · exact ⟨o, (pending_write_of_ne hn).trans h,
        extends_of_none (fun _ => rfl) (fun _ => if_neg fun hall => hn hall.1) rfl⟩
  | setScale other scale =>
    by_cases hn : other = name
    · subst hn
      by_cases hneg : scale < 0
      · refine ⟨o, ?_, extends_of_none (fun _ => rfl) (fun _ => rfl) (if_neg fun hall => ?_)⟩
        · rw [act, write_of_error h (if_pos hneg), h]
        · omega
      · refine ⟨_, pending_write_of_ok h (if_neg hneg), fun _ => rfl, fun _ => rfl, ?_⟩
        rw [last_singleton, Action.scale?, if_pos ⟨rfl, by omega⟩, Option.some_or]
    · exact ⟨o, (pending_write_of_ne hn).trans h,
        extends_of_none (fun _ => rfl) (fun _ => rfl) (if_neg fun hall => hn hall.1)⟩
  | commit other =>
    exact ⟨o, by rw [act, pending_commit, h], extends_of_none (fun _ => rfl) (fun _ => rfl) rfl⟩
  | forget order =>
    exact ⟨o, by rw [act, pending_forget, h], extends_of_none (fun _ => rfl) (fun _ => rfl) rfl⟩

theorem extends_run (h : s.pending name = some o) (ha : ∀ order, .start name order ∉ actions) :
    ∃ o', (s.run actions).pending name = some o' ∧ Extends name actions o o' := by
  induction actions generalizing s o with
  | nil => exact ⟨o, h, .nil name o⟩
  | cons a actions ih =>
    obtain ⟨o₁, h₁, hext⟩ := extends_act h fun order hne => ha order (hne ▸ List.mem_cons_self)
    obtain ⟨o₂, h₂, hext'⟩ := ih h₁ fun order hm => ha order (List.mem_cons_of_mem a hm)
    exact ⟨o₂, h₂, hext.append hext'⟩

/-! ### Commits -/

/-- The pending writes to an order that an action commits. -/
def committed? (s : Session) (order : String) : Action → Option Overlay
  | .commit name => (s.pending name).filter fun o =>
    decide (o.order = order) && o.isDirty && (s.store.commit o).isOk
  | _ => none

/-- The pending writes to an order that are committed along actions, in turn. -/
def commits (s : Session) (order : String) : List Action → List Overlay
  | [] => []
  | a :: actions => (s.committed? order a).toList ++ (s.act a).commits order actions

theorem commits_append (s : Session) (order : String) (actions more : List Action) :
    s.commits order (actions ++ more) =
      s.commits order actions ++ (s.run actions).commits order more := by
  induction actions generalizing s with
  | nil => rfl
  | cons a actions ih => rw [List.cons_append, commits, ih, commits, List.append_assoc, run_cons]

theorem commits_singleton (s : Session) (order : String) (a : Action) :
    s.commits order [a] = (s.committed? order a).toList :=
  List.append_nil _

theorem isOk_iff {α : Type} {x : Outcome α} : x.isOk = true ↔ ∃ r, x = .ok r := by
  cases x with
  | error f => exact iff_of_false Bool.false_ne_true fun ⟨_, h⟩ => nomatch h
  | ok r => exact iff_of_true rfl ⟨r, rfl⟩

theorem committed?_commit_iff : s.committed? order (.commit name) = some o ↔
    s.pending name = some o ∧ o.order = order ∧ o.isDirty = true ∧
      ∃ c, s.store.commit o = .ok c := by
  rw [committed?, Option.filter_eq_some_iff, Bool.and_eq_true, Bool.and_eq_true, decide_eq_true_iff,
    isOk_iff, and_assoc]

/-- Either an action commits writes to the order, which then are its snapshot, or the snapshot stays
as it is. -/
theorem snapshot_act (ha : a ≠ .forget order) :
    (s.committed? order a = none ∧ (s.act a).store.snapshot order = s.store.snapshot order) ∨
      ∃ name o, a = .commit name ∧ s.pending name = some o ∧ o.order = order ∧
        s.committed? order a = some o ∧ (s.store.snapshot order).version = o.base.version ∧
        (s.act a).store.snapshot order = o.result := by
  cases a with
  | start => exact Or.inl ⟨rfl, rfl⟩
  | setBalance | setFade | setScale => exact Or.inl ⟨rfl, by rw [act, store_write]⟩
  | forget other => exact Or.inl ⟨rfl, s.snapshot_forget fun h => ha (h ▸ rfl)⟩
  | commit name =>
    cases hcommitted : s.committed? order (.commit name) with
    | some o =>
      obtain ⟨ho, rfl, hd, c, hc⟩ := committed?_commit_iff.1 hcommitted
      obtain ⟨hv, -, hstore⟩ := Store.commit_eq_ok hd hc
      refine Or.inr ⟨name, o, rfl, ho, rfl, rfl, hv, ?_⟩
      rw [act, commit, ho]
      dsimp only
      rw [hc]
      dsimp only
      rw [hstore, Store.snapshot_insert, if_pos rfl]
    | none =>
      refine Or.inl ⟨rfl, ?_⟩
      rw [act]
      unfold commit
      split
      · rfl
      · rename_i o ho
        split
        · rename_i c hc
          dsimp only
          rw [Store.store_of_commit hc]
          by_cases hd : o.isDirty = true
          · refine Store.snapshot_publish_of_ne fun heq => ?_
            rw [committed?_commit_iff.2 ⟨ho, heq.symm, hd, c, hc⟩] at hcommitted
            cases hcommitted
          · rw [Store.publish_of_clean (Bool.not_eq_true _ ▸ hd)]
        · rfl

/-- The version of an order that is not forgotten counts the commits. -/
theorem version_run (h : .forget order ∉ actions) :
    ((s.run actions).store.snapshot order).version =
      (s.store.snapshot order).version + (s.commits order actions).length := by
  induction actions generalizing s with
  | nil => rfl
  | cons a actions ih =>
    rw [run_cons, ih fun hm => h (List.mem_cons_of_mem a hm), commits, List.length_append]
    rcases snapshot_act (s := s) (a := a) fun hne => h (hne ▸ List.mem_cons_self) with
      ⟨hnone, hs⟩ | ⟨name, o, -, -, -, hsome, hv, hs⟩
    · rw [hnone, hs, Option.toList_none, List.length_nil, Nat.zero_add]
    · rw [hsome, hs, hv, Option.toList_some, List.length_singleton, ← Nat.add_assoc]
      rfl

/-- While an order is not forgotten its snapshot consists of the writes that have been committed,
put over each other in turn. -/
theorem snapshot_run (h : .forget order ∉ actions) :
    (fresh.run actions).store.snapshot order =
      (fresh.commits order actions).foldl Snapshot.under .empty := by
  induction actions using List.reverseRecOn with
  | nil => rfl
  | append_singleton actions a ih =>
    have hfront : .forget order ∉ actions := fun hm => h (List.mem_append_left _ hm)
    have hlast : a ≠ .forget order := fun hne => h (hne ▸ List.mem_append_right _ (.head _))
    rw [run_append, run_cons, run_nil, commits_append, commits_singleton, List.foldl_append,
      ← ih hfront]
    rcases snapshot_act (s := fresh.run actions) hlast with
      ⟨hnone, hs⟩ | ⟨name, o, -, ho, rfl, hsome, hv, hs⟩
    · rw [hnone, hs]
      rfl
    · -- the version fits, so what is current is what the writes started from
      have hnot : ¬ ForgottenSince actions name o.order := by
        rintro ⟨before, after, rfl, -, hm⟩
        exact hfront (List.mem_append_right _ (List.mem_cons_of_mem _ hm))
      rw [hsome, hs, base_eq_current ho hv hnot]
      rfl

/-- A commit that has nothing to write or is refused changes nothing. -/
theorem act_commit_eq_self (h : s.pending name = some o)
    (hidle : o.isDirty = false ∨ ∃ f, s.store.commit o = .error f) : s.act (.commit name) = s := by
  rw [act, commit, h]
  dsimp only
  rcases hidle with hclean | ⟨f, hf⟩
  · rw [Store.commit_of_clean hclean]
  · rw [hf]

/-! ### Serial sessions -/

/-- Pending writes are what actions have written last under a name.  They answer with it, or else
with what a snapshot has; where something is required, there is a failure if there is nothing. -/
structure AnswersOver (o : Overlay) (name : Nat) (actions : List Action) (s : Snapshot) : Prop where
  balances : ∀ token, o.balances.get? token = last (Action.balance? name token) actions
  fades : ∀ key, o.fades.get? key = last (Action.fade? name key) actions
  scale : o.scale = last (Action.scale? name) actions
  balance? : ∀ token, o.balance? token =
    (last (Action.balance? name token) actions).or (s.balances.get? token)
  hasBalance : ∀ token, o.hasBalance token = (o.balance? token).isSome
  balance : ∀ token,
    o.balance token = (o.balance? token).elim (.error (.state (.noBalance token o.order))) .ok
  fade? : ∀ token side, o.fade? token side =
    (last (Action.fade? name ⟨token, side⟩) actions).or (s.fades.get? ⟨token, side⟩)
  scale? : o.scale? = (last (Action.scale? name) actions).or s.scale
  requireScale : o.requireScale = o.scale?.elim (.error (.state (.noScale o.order))) .ok

theorem answersOver_of_extends {store : Store} (h : Extends name actions (store.overlay order) o)
    (hbase : o.base = store.snapshot order) :
    AnswersOver o name actions (store.snapshot order) := by
  have hbalances (token : String) : o.balances.get? token =
      last (Action.balance? name token) actions := (h.balances token).trans Option.or_none
  have hfades (key : FadeKey) : o.fades.get? key = last (Action.fade? name key) actions :=
    (h.fades key).trans Option.or_none
  have hscale : o.scale = last (Action.scale? name) actions := h.scale.trans Option.or_none
  refine ⟨hbalances, hfades, hscale, fun token => ?_, fun _ => rfl, o.balance_eq,
    fun token side => ?_, ?_, o.requireScale_eq⟩
  · rw [Overlay.balance?, hbase, hbalances]
  · rw [Overlay.fade?, hbase, hfades]
  · rw [Overlay.scale?, hbase, hscale]

/-- Writes that were begun under a name, after any actions that begin no others there and do not
forget their order. -/
theorem exists_pending_run (s : Session) (hlast : ∀ other, .start name other ∉ actions)
    (hfree : .forget order ∉ actions) :
    ∃ o, ((s.act (.start name order)).run actions).pending name = some o ∧ o.order = order ∧
      AnswersOver o name actions (s.store.snapshot order) ∧
      (o.isDirty = true →
        ((∃ c, ((s.act (.start name order)).run actions).store.commit o = .ok c) ↔
          (s.act (.start name order)).commits order actions = [])) := by
  have hbegun : (s.act (.start name order)).pending name = some (s.store.overlay order) :=
    if_pos rfl
  obtain ⟨o, ho, hextends⟩ := extends_run hbegun hlast
  obtain ⟨o', ho', horder, hbase⟩ := origin_run hbegun hlast
  obtain rfl : o = o' := Option.some.inj (ho.symm.trans ho')
  replace horder : o.order = order := horder
  replace hbase : o.base = s.store.snapshot order := hbase
  refine ⟨o, ho, horder, answersOver_of_extends hextends hbase, fun hd => ?_⟩
  have hversion := version_run (s := s.act (.start name order)) hfree
  rw [Store.exists_commit_iff hd, horder, hversion, hbase, ← List.length_eq_zero_iff]
  exact Nat.add_eq_left

/-- **Serial sessions**: after any actions of any callers on any orders, none of which is forgotten,
writes that were begun under a name

* are what was written last under the name since, and answer with it, or else with what the snapshot
  of their order had when they were begun;
* can be committed, if there are any, exactly if no writes to the order have been committed since
  they were begun, and so not twice;
* leave everything as it is if they are committed without being any, or in vain.

The snapshot of each order consists of the writes to it that have been committed, put over each other
in turn, and its version is their number. -/
theorem serial {actions : List Action} (hfree : ∀ order, .forget order ∉ actions) :
    (∀ before name order after, actions = before ++ .start name order :: after →
      (∀ other, .start name other ∉ after) →
      ∃ o, (fresh.run actions).pending name = some o ∧ o.order = order ∧
        AnswersOver o name after ((fresh.run before).store.snapshot order) ∧
        (o.isDirty = true →
          ((∃ c, (fresh.run actions).store.commit o = .ok c) ↔
            ((fresh.run before).act (.start name order)).commits order after = []) ∧
          ∀ c, (fresh.run actions).store.commit o = .ok c → ¬ ∃ c', c.store.commit o = .ok c') ∧
        ((o.isDirty = false ∨ ∃ f, (fresh.run actions).store.commit o = .error f) →
          (fresh.run actions).act (.commit name) = fresh.run actions)) ∧
    ∀ order,
      (fresh.run actions).store.snapshot order =
        (fresh.commits order actions).foldl Snapshot.under .empty ∧
      ((fresh.run actions).store.snapshot order).version =
        (fresh.commits order actions).length := by
  constructor
  · rintro before name order after rfl hlast
    have hafter : .forget order ∉ after := fun hm =>
      hfree order (List.mem_append_right _ (List.mem_cons_of_mem _ hm))
    rw [run_append, run_cons]
    obtain ⟨o, ho, horder, hanswers, hcommit⟩ := (fresh.run before).exists_pending_run hlast hafter
    exact ⟨o, ho, horder, hanswers, fun hd => ⟨hcommit hd, fun c => Store.not_exists_commit hd⟩,
      act_commit_eq_self ho⟩
  · intro order
    refine ⟨snapshot_run (hfree order), ?_⟩
    rw [version_run (hfree order)]
    exact Nat.zero_add _

/-- Two callers begin writes on one order, both write its balance of `a`, and the first one commits;
the second one goes on to write a scale, which is refused, and to commit. -/
def contended : List Action :=
  [.start 1 "h", .start 2 "h", .setBalance 1 "a" 1, .setBalance 2 "a" 2, .commit 1,
    .setScale 2 (-1), .commit 2]

/-- The second caller reads what it has written and no scale, cannot commit, and the order has the
balance of the first one. -/
theorem serial_contended :
    (∀ order, .forget order ∉ contended) ∧
      ∃ o, (fresh.run contended).pending 2 = some o ∧ o.isDirty = true ∧
        o.balance "a" = .ok 2 ∧ o.scale? = none ∧
        ¬ (∃ c, (fresh.run contended).store.commit o = .ok c) ∧
        ((fresh.run contended).store.snapshot "h").balances.get? "a" = some 1 ∧
        ((fresh.run contended).store.snapshot "h").version = 1 := by
  have hfree : ∀ order, .forget order ∉ contended := by
    intro order hm
    simp [contended] at hm
  obtain ⟨hpending, hsnapshot⟩ := serial hfree
  obtain ⟨o, ho, -, hanswers, hcommit, -⟩ :=
    hpending [.start 1 "h"] 2 "h" _ rfl (by simp)
  have hd : o.isDirty = true := by
    cases ho
    rfl
  have hread : o.balance? "a" = some 2 := hanswers.balance? "a"
  refine ⟨hfree, o, ho, hd, ?_, hanswers.scale?, ?_, ?_, (hsnapshot "h").2⟩
  · rw [hanswers.balance, hread]
    rfl
  · rw [(hcommit hd).1]
    exact List.cons_ne_nil _ _
  · rw [(hsnapshot "h").1]
    rfl

end Session

end SwapMachine
