import SwapMachine.Markup.Node
import SwapMachine.Markup.Scalar

/-!
# SwapMachine.Markup.Value — what a node of markup stands for

* Of values for one key the last counts, at the place of the first.
* A mapping takes in the pairs of others under its merge keys, in front of its own pairs; of several
  mappings under one merge key the first counts most.
-/

namespace SwapMachine.Markup.Node

/-- The key under which a mapping takes in others. -/
def isMergeKey : Node → Bool
  | plain text => text == ['<', '<']
  | _ => false

/-- A value can be a key. -/
def isKey : Datum → Bool
  | .list _ | .dict _ => false
  | _ => true

/-- The pairs of mappings, the later ones in front. -/
def takenFromAll? : List Datum → Option (List (Datum × Datum))
  | [] => some []
  | .dict entries :: ds => (takenFromAll? ds).map (· ++ entries)
  | _ :: _ => none

/-- The pairs that a value under a merge key brings in: those of a mapping or of a list of them. -/
def takenFrom? : Datum → Option (List (Datum × Datum))
  | .dict entries => some entries
  | .list items => takenFromAll? items
  | _ => none

/-- Two keys are the same; all markup for no number stands for one value. -/
def isSameKey (a b : Datum) : Bool :=
  match a, b with
  | .float .nan, .float .nan => true
  | a, b => a.sameKey b

/-- The entries of a mapping filled with the pairs in turn. -/
def filled (pairs : List (Datum × Datum)) : List (Datum × Datum) :=
  pairs.foldl (fun es p => Datum.put isSameKey es p.1 p.2) []

mutual

/-- The value of a node. -/
def value : Node → Outcome Datum
  | plain text => Scalar.resolve text
  | quoted points => .ok (.ofPoints points)
  | list items => do return .list (← values items)
  | map pairs => do
    let (taken, own) ← entries pairs
    return .dict (filled (taken ++ own))

/-- The values of nodes. -/
def values : List Node → Outcome (List Datum)
  | [] => .ok []
  | n :: ns => do
    let d ← n.value
    return d :: (← values ns)

/-- The pairs that a mapping takes in, and its own. -/
def entries : List (Node × Node) → Outcome (List (Datum × Datum) × List (Datum × Datum))
  | [] => .ok ([], [])
  | (k, v) :: es => do
    if k.isMergeKey then
      match takenFrom? (← v.value) with
      | none => throw (.markup .malformed)
      | some pairs =>
        let (taken, own) ← entries es
        return (pairs ++ taken, own)
    else
      let key ← k.value
      if ¬ isKey key then throw (.markup .malformed)
      let d ← v.value
      let (taken, own) ← entries es
      return (taken, (key, d) :: own)

end

end Node

/-- The value of a text. -/
def valueOf (text : String) : Outcome Datum :=
  match Node.ofText? text with
  | some node => node.value
  | none => .error (.markup .malformed)

end SwapMachine.Markup
