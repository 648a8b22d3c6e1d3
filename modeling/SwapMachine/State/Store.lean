import SwapMachine.Log
import SwapMachine.State.Overlay

/-!
# SwapMachine.State.Store — the snapshots of all orders

* `overlay` starts pending writes on the snapshot that is current now.
* `commit` replaces the current snapshot by an overlay's result, provided that the snapshot still
  has the version that the overlay started from. Committing an overlay without writes changes
  nothing.
* `forget` drops an order's snapshot unless a walk holds its lock.
-/

namespace SwapMachine

/-- The snapshots by order hash, and the orders whose lock is held. -/
structure Store where
  states : Index String Snapshot
  held : List String

namespace Store

/-- No order has been seen. -/
def empty : Store := ⟨.empty, []⟩

/-- The name of the store in the log. -/
def source : String := "swapvm.state.store"

/-- The current snapshot of an order. -/
def snapshot (s : Store) (order : String) : Snapshot := (s.states.get? order).getD .empty

/-- The hashes of the orders that have a snapshot, rising. -/
def orders (s : Store) : List String := s.states.keys

/-- Pending writes over the current snapshot of an order. -/
def overlay (s : Store) (order : String) : Overlay := .start order (s.snapshot order)

/-- The lock of an order is taken. -/
def lock (s : Store) (order : String) : Store := { s with held := order :: s.held }

/-- The lock of an order is given back. -/
def unlock (s : Store) (order : String) : Store := { s with held := s.held.erase order }

/-- The line that a commit leaves in the log. -/
def commitLine (order : String) (version : Nat) : LogLine :=
  ⟨.debug, source, s!"committed state for order {order} at version {version}"⟩

/-- The line that forgetting an order leaves in the log. -/
def forgetLine (order : String) : LogLine := ⟨.debug, source, s!"forgot order {order}"⟩

/-- The store after a commit, the snapshot that is now current, and the lines written. -/
structure Commit where
  store : Store
  snapshot : Snapshot
  log : List LogLine

/-- Commits an overlay. -/
def commit (s : Store) (o : Overlay) : Outcome Commit :=
  if !o.isDirty then .ok ⟨s, o.base, []⟩
  else
    let current := s.snapshot o.order
    if current.version ≠ o.base.version then
      .error (.state (.stale o.order o.base.version current.version))
    else
      let next := o.result
      .ok ⟨{ s with states := s.states.insert o.order next }, next,
        [commitLine o.order next.version]⟩

/-- Drops the snapshot of an order. -/
def forget (s : Store) (order : String) : Outcome (Store × List LogLine) :=
  if s.held.contains order then .error (.state (.inUse order))
  else .ok ({ s with states := s.states.erase order }, [forgetLine order])

end Store

end SwapMachine
