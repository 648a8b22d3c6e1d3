import SwapMachine.Log
import SwapMachine.Settings.Basic
import SwapMachine.Text.DecimalDigit

/-!
# SwapMachine.Settings.Environment — settings from variables of the environment

Numbers out of range are brought to the nearest bound and values that cannot be read leave the
default, so that this source of settings never fails. An unreadable number is noted in the log.
-/

namespace SwapMachine.Settings

/-- The variables of an environment with their values. -/
abbrev Environment := List (String × String)

/-- What the names of all variables begin with. -/
def variablePrefix : String := "SWAPVM_"

/-- The name of the settings in the log. -/
def source : String := "swapvm.integration.config"

/-- The nearest number from `lo` to `hi`. -/
def clamp (lo hi z : Int) : Int := max lo (min hi z)

theorem le_clamp (lo hi z : Int) : lo ≤ clamp lo hi z := Int.le_max_left _ _

/-- The line about a number that cannot be read. -/
def unreadableLine (name raw : String) : LogLine :=
  ⟨.warning, source, s!"ignoring non-integer {name}=" ++ (Datum.text raw).display⟩

/-- A number from a variable, and the lines written about it. -/
def readNumber (env : Environment) (name : String) (default lo hi : Int) : Int × List LogLine :=
  match env.lookup name with
  | none => (default, [])
  | some raw =>
    if (Text.strip raw.toList).isEmpty then (default, [])
    else
      match Text.numeral? raw.toList with
      | some z => (clamp lo hi z, [])
      | none => (default, [unreadableLine name raw])

theorem le_readNumber (env : Environment) (name : String) {default lo : Int} (hi : Int)
    (h : lo ≤ default) : lo ≤ (readNumber env name default lo hi).1 := by
  unfold readNumber
  split
  · exact h
  · split
    · exact h
    · split
      · exact le_clamp _ _ _
      · exact h

/-- The words that stand for truth. -/
def trueWords : List String := ["1", "true", "yes", "on"]

/-- The words that stand for falsehood. -/
def falseWords : List String := ["0", "false", "no", "off"]

/-- A truth value from a variable; case and blanks around it do not matter. -/
def readBool (env : Environment) (name : String) (default : Bool) : Bool :=
  match env.lookup name with
  | none => default
  | some raw =>
    let word := String.ofList ((Text.strip raw.toList).map Char.toLower)
    if trueWords.contains word then true else if falseWords.contains word then false else default

/-- The settings of an environment, and the lines written while they were read. -/
def ofEnvironment (env : Environment) : Settings × List LogLine :=
  let program := readNumber env (variablePrefix ++ "MAX_PROGRAM_BYTES") default.programLimit 2
    1048576
  let iterations := readNumber env (variablePrefix ++ "CORRECTION_MAX_ITERATIONS")
    default.limits.iterations 0 1024
  let step := readNumber env (variablePrefix ++ "CORRECTION_MIN_STEP") default.limits.step 1
    18446744073709551616
  let registration := readBool env (variablePrefix ++ "REQUIRE_REGISTRATION")
    default.requiresRegistration
  (⟨program.1, ⟨iterations.1, step.1⟩, registration,
    Int.lt_of_lt_of_le (by decide)
      (le_readNumber env _ _ (by decide : (2 : Int) ≤ default.programLimit)),
    le_readNumber env _ _ (by decide), le_readNumber env _ _ (by decide)⟩,
    program.2 ++ iterations.2 ++ step.2)

end SwapMachine.Settings
