import SwapMachine.Curve.Power

/-!
# SwapMachine.Settings.Basic — what an engine can be set to

* `Settings.ofDatum` takes settings from a mapping of field names; fields that are absent keep their
  defaults. Unknown fields are refused first, then values of the wrong sort, then values out of
  range.
-/

namespace SwapMachine

open Curve (Power.Limits)

/-- The longest program that is looked at, the limits of corrections, and whether an order has to be
registered before it is served. -/
structure Settings where
  programLimit : Int
  limits : Power.Limits
  requiresRegistration : Bool
  programLimit_pos : 0 < programLimit
  iterations_nonneg : 0 ≤ limits.iterations
  step_pos : 0 < limits.step

namespace Settings

/-- Short programs, the usual corrections, no registration. -/
def default : Settings := ⟨4096, {}, false, by decide, by decide, by decide⟩

/-! ### Fields -/

/-- The field of the longest program. -/
def programField : String := "max_program_bytes"

/-- The field of the number of corrections. -/
def iterationsField : String := "correction_max_iterations"

/-- The field of the least correction. -/
def stepField : String := "correction_min_step"

/-- The field that asks for registration. -/
def registrationField : String := "require_registration"

/-- All fields. -/
def fields : List String := [programField, iterationsField, stepField, registrationField]

/-- The key is the name of a field. -/
def isField (key : Datum) : Bool := fields.any fun f => key.sameKey (.text f)

/-- The order in which unknown keys are listed: keys of one sort rise. -/
def isListedBefore (a b : Datum) : Bool := !b.isBelow a

/-! ### Building -/

/-- Settings with whole numbers, the first out of range being reported. -/
def ofNumbers (program iterations step : Int) (registration : Datum) : Outcome Settings :=
  if hp : program ≤ 0 then .error (.settings .sizeNotPositive)
  else if hi : iterations < 0 then .error (.settings .iterationsNegative)
  else if hs : step ≤ 0 then .error (.settings .stepNotPositive)
  else
    match registration with
    | .bool b => .ok ⟨program, ⟨iterations, step⟩, b, Int.lt_of_not_ge hp, Int.not_lt.mp hi,
        Int.lt_of_not_ge hs⟩
    | _ => .error (.settings .registrationNotBool)

/-- Settings with values of any sort. -/
def make (program iterations step registration : Datum) : Outcome Settings := do
  let p ← program.toInt programField
  let i ← iterations.toInt iterationsField
  let s ← step.toInt stepField
  ofNumbers p i s registration

/-- The value of a field in the entries of a mapping. -/
def valueOf (entries : List (Datum × Datum)) (field : String) (default : Datum) : Datum :=
  match entries.find? fun e => e.1.sameKey (.text field) with
  | some e => e.2
  | none => default

/-- The settings that a mapping holds. -/
def ofDatum (d : Datum) : Outcome Settings :=
  match d with
  | .dict entries =>
    match (entries.map Prod.fst).filter fun k => !isField k with
    | [] =>
      let value (field : String) (default : Datum) : Datum := valueOf entries field default
      make (value programField (.int default.programLimit))
        (value iterationsField (.int default.limits.iterations))
        (value stepField (.int default.limits.step))
        (value registrationField (.bool default.requiresRegistration))
    | unknown => .error (.settings (.unknownKeys (unknown.mergeSort isListedBefore)))
  | _ => .error (.settings .notMapping)

end Settings

end SwapMachine
