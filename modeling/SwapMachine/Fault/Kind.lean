/-!
# SwapMachine.Fault.Kind — the kinds of failure that callers tell apart

Kinds form a small hierarchy: `isEngine` holds of all but those that blame the caller's data
(`typeError`, `valueError`, `overflowError`), a divisor (`zeroDivisionError`) or an outside party
(`foreign`), and `isArguments` of invalid arguments and what refines them.
-/

namespace SwapMachine

/-- The kinds of failure that callers tell apart. -/
inductive Kind where
  | typeError
  | valueError
  | overflowError
  | zeroDivisionError
  | foreign
  | malformedInstruction
  | argsExceedProgram
  | invalidOpcode
  | invalidJumpTarget
  | missingSwapInstruction
  | programTooLarge
  | parameterError
  | invalidArguments
  | invalidFee
  | invalidDecayPeriod
  | invalidInitialLiquidity
  | invalidAlpha
  | insufficientOutput
  | mathDomainError
  | mathOverflowError
  | convergenceError
  | stateError
  | uninitializedStateError
  | insufficientBalance
  | deadlineReached
  | takerBalanceTooLow
  | takerSupplyShareTooLow
  | swapExecutionError
  | swapNotComputed
  | thresholdNotMet
  | missingTokenBalance
  | externalCallError
  deriving DecidableEq

namespace Kind

/-- The name of the kind, as logs and tools show it. -/
def name : Kind → String
  | typeError => "TypeError"
  | valueError => "ValueError"
  | overflowError => "OverflowError"
  | zeroDivisionError => "ZeroDivisionError"
  | foreign => "Exception"
  | malformedInstruction => "MalformedInstruction"
  | argsExceedProgram => "ArgsExceedProgram"
  | invalidOpcode => "InvalidOpcode"
  | invalidJumpTarget => "InvalidJumpTarget"
  | missingSwapInstruction => "MissingSwapInstruction"
  | programTooLarge => "ProgramTooLarge"
  | parameterError => "ParameterError"
  | invalidArguments => "InvalidArguments"
  | invalidFee => "InvalidFee"
  | invalidDecayPeriod => "InvalidDecayPeriod"
  | invalidInitialLiquidity => "InvalidInitialLiquidity"
  | invalidAlpha => "InvalidAlpha"
  | insufficientOutput => "InsufficientOutput"
  | mathDomainError => "MathDomainError"
  | mathOverflowError => "MathOverflowError"
  | convergenceError => "ConvergenceError"
  | stateError => "StateError"
  | uninitializedStateError => "UninitializedStateError"
  | insufficientBalance => "InsufficientBalance"
  | deadlineReached => "DeadlineReached"
  | takerBalanceTooLow => "TakerBalanceTooLow"
  | takerSupplyShareTooLow => "TakerSupplyShareTooLow"
  | swapExecutionError => "SwapExecutionError"
  | swapNotComputed => "SwapNotComputed"
  | thresholdNotMet => "ThresholdNotMet"
  | missingTokenBalance => "MissingTokenBalance"
  | externalCallError => "ExternalCallError"

/-- Failures that the machine foresees, as opposed to data it was given in the wrong form, to
divisions by zero and to whatever goes wrong inside an outside party. -/
def isEngine : Kind → Bool
  | typeError | valueError | overflowError | zeroDivisionError | foreign => false
  | _ => true

/-- Invalid arguments of an instruction, of whatever refinement. -/
def isArguments : Kind → Bool
  | invalidArguments | invalidFee | invalidDecayPeriod | invalidInitialLiquidity
  | invalidAlpha => true
  | _ => false

end Kind

end SwapMachine
