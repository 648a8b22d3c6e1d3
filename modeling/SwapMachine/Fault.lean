import SwapMachine.Fault.Cause
import SwapMachine.Fault.Kind
import SwapMachine.Text.Hex

/-!
# SwapMachine.Fault — kinds and texts of causes, and what can fail

* `Fault.kind` sorts causes into the kinds that callers tell apart.
* `Fault.message` is the only place where a cause becomes a text; `Fault.shown` lists the values that
  the text shows, and `Fault.wordFault?` tells why there is no text, if that is so.
* An `Outcome` is a result or a cause of failure.
-/

namespace SwapMachine

/-! ## Kinds of causes -/

def HexFault.kind : HexFault → Kind
  | notText _ => .typeError
  | _ => .valueError

def IdentityFault.kind : IdentityFault → Kind
  | floatValue | bytesValue | otherValue | keyNotText | labelNotText | programNotBytes => .typeError
  | _ => .valueError

def MathFault.kind : MathFault → Kind
  | negative .. | denominatorNotPositive | divisionByZero | lnOfZero
  | spreadRange _ => .mathDomainError
  | negativeRoot => .valueError
  | beyondFractions => .overflowError
  | zeroDivisor => .zeroDivisionError
  | _ => .mathOverflowError

def CurveFault.kind : CurveFault → Kind
  | emptyBalance | exceedsBalance .. | exceedsAvailable .. | overdrawn .. => .insufficientOutput
  | alphaRange _ => .invalidAlpha
  | noConvergence .. => .convergenceError
  | capacityNotPositive _ | basePriceNotPositive _ | strengthNegative _ | spreadRange _
  | unknownShape _ | rateNotPositive _ => .invalidArguments
  | _ => .parameterError

def BlockFault.kind : BlockFault → Kind
  | periodZero => .invalidDecayPeriod
  | liquidityZero => .invalidInitialLiquidity
  | _ => .invalidArguments

def ProgramFault.kind : ProgramFault → Kind
  | headerCut _ => .malformedInstruction
  | argsOverrun .. => .argsExceedProgram
  | unknownOpcode .. => .invalidOpcode
  | badJump .. => .invalidJumpTarget
  | noSwap => .missingSwapInstruction
  | tooLarge .. => .programTooLarge
  | _ => .valueError

def StateFault.kind : StateFault → Kind
  | noBalance .. | noScale _ => .uninitializedStateError
  | negativeBalance .. => .insufficientBalance
  | negativeScale _ | stale .. | inUse _ => .stateError
  | negativeFade _ | periodNotPositive | notASide _ => .valueError

def WalkFault.kind : WalkFault → Kind
  | deadlinePassed .. => .deadlineReached
  | holdsNone .. | holdsTooLittle .. => .takerBalanceTooLow
  | noSupply _ | shareTooLow .. => .takerSupplyShareTooLow
  | notListed _ | noDelta _ => .missingTokenBalance
  | cannotDeliver .. | cannotDeliverVirtual _ => .insufficientBalance
  | _ => .externalCallError

def RequestFault.kind : RequestFault → Kind
  | badAddress _ | notTraded .. | amountNotPositive _ => .parameterError
  | notRegistered _ => .swapExecutionError
  | notComputed _ => .swapNotComputed
  | outputBelow .. | inputAbove .. => .thresholdNotMet
  | negativeMint _ => .valueError

def MarkupFault.kind : MarkupFault → Kind
  | _ => .valueError

def SettingsFault.kind : SettingsFault → Kind
  | notMapping | registrationNotBool => .typeError
  | _ => .valueError

def WordFault.kind : WordFault → Kind
  | tooManyDigits => .valueError
  | unshown => .foreign

/-- The kind of a cause. -/
def Fault.kind : Fault → Kind
  | notInt _ => .typeError
  | hex f => f.kind
  | identity f => f.kind
  | math f => f.kind
  | curve f => f.kind
  | fee _ => .invalidFee
  | block f => f.kind
  | program f => f.kind
  | state f => f.kind
  | walk f => f.kind
  | request f => f.kind
  | markup f => f.kind
  | settings f => f.kind
  | words f => f.kind

/-! ## Texts of causes -/

/-- The name of the field that a hexadecimal text was given for. -/
def HexFault.field : HexFault → String
  | notText field => field
  | wrongLength field _ => field
  | notDigits field => field

def HexFault.message : HexFault → String
  | notText field => s!"{field} must be a str"
  | wrongLength field size =>
    s!"{field} must be {size.plain} bytes (hex length {size.doubled.plain})"
  | notDigits field => s!"{field} must be valid hex"

def IdentityFault.message : IdentityFault → String
  | floatValue => "floats are not allowed in canonical encoding"
  | bytesValue => "bytes must be hex-encoded before canonical encoding"
  | otherValue => "the value has no canonical encoding"
  | noCharacter => "the text has code points that are no characters"
  | keyNotText => "dict keys must be str for canonical encoding"
  | labelNotText => "label must be a non-empty str"
  | labelHasNul => "label must not contain NUL"
  | labelNotAscii => "label must be ASCII"
  | versionNotPositive => "version must be a positive int"
  | addressSize size => s!"address must be 20 bytes, got {size}"
  | sameTokens => "token0 and token1 must differ"
  | programNotBytes => "program must be bytes"
  | flagsNegative => "flags must be a non-negative int"

def MathFault.message : MathFault → String
  | negative field value => s!"{field} must be non-negative: {value}"
  | tooWide field => s!"{field} exceeds uint256"
  | denominatorNotPositive => "denominator must be positive"
  | divisionByZero => "division by zero"
  | lnOfZero => "ln(0) is undefined"
  | spreadRange spread => s!"spread_bps must be in [0, 10000): {spread}"
  | quotientTooWide => "mul_div result exceeds uint256"
  | exponentTooLarge exponent => s!"exp argument {exponent} exceeds 130000000000000000000"
  | expTooWide => "exp result exceeds uint256"
  | powTooWide => "pow result exceeds uint256"
  | negativeRoot => "isqrt() argument must be nonnegative"
  | zeroDivisor => "integer division or modulo by zero"
  | beyondFractions => "int too large to convert to float"

def CurveFault.message : CurveFault → String
  | negativeBalances balanceIn balanceOut =>
    s!"balances must be non-negative: ({balanceIn}, {balanceOut})"
  | emptyBalance => "cannot swap against an empty balance"
  | alphaRange alpha => s!"alpha must be in (0, 1000000000000000000]: {alpha}"
  | amountNotPositive field amount => s!"{field} must be positive: {amount.plain}"
  | averageOfNothing => "amount_out must be positive"
  | correctionLimits => "max_iterations must be >= 0 and min_step > 0"
  | exceedsBalance amountOut balanceOut =>
    s!"amount_out ({amountOut}) >= balance_out ({balanceOut})"
  | noConvergence iterations shortfall =>
    s!"exact-out did not converge after {iterations.plain} iterations (shortfall {shortfall})"
  | capacityNotPositive capacity => s!"capacity must be positive: {capacity}"
  | basePriceNotPositive price => s!"base_price must be positive: {price}"
  | strengthNegative strength => s!"strength must be non-negative: {strength}"
  | spreadRange spread => s!"spread_bps must be in [0, 10000): {spread}"
  | unknownShape shape => s!"unknown density shape: {shape.plain}"
  | positionRange position => s!"position must be in [0, 1000000000000000000]: {position}"
  | rangeReversed => "x1 must be >= x0"
  | negativeRemainder balanceOut => s!"balance_out must be non-negative: {balanceOut}"
  | exceedsAvailable amountOut available =>
    s!"amount_out ({amountOut}) exceeds curve availability ({available})"
  | rateNotPositive rate => s!"rate must be positive: {rate}"
  | overdrawn amountOut balanceOut =>
    s!"amount_out ({amountOut.plain}) exceeds balance_out ({balanceOut.plain})"

def FeeFault.message : FeeFault → String
  | notInt fee => s!"fee must be an int, got {fee.display}"
  | outOfRange fee => s!"fee {fee} bps must be in [0, 10000)"

def BlockFault.message : BlockFault → String
  | truncated what need left => s!"truncated {what}: need {need} bytes, have {left}"
  | duplicateToken token => s!"duplicate token in balances: {token}"
  | trailing count => s!"{count} trailing bytes in arguments"
  | doesNotFit value bits => s!"value {value} does not fit in uint{bits}"
  | tooLong size => s!"arguments are {size} bytes; limit is 255"
  | sameTokens => "CONCENTRATE tokens must differ"
  | periodZero => "decay period must be positive"
  | liquidityZero => "initial liquidity must be positive"

def ProgramFault.message : ProgramFault → String
  | headerCut pc => s!"pc={pc}: instruction header exceeds program"
  | argsOverrun pc length => s!"pc={pc}: args length {length} exceeds program"
  | unknownOpcode pc opcode => s!"pc={pc}: invalid opcode {Text.Hex.opcode opcode}"
  | badJump pc target => s!"pc={pc}: invalid jump target {target}"
  | noSwap => "pc=-1: program has no swap instruction"
  | tooLarge size limit => s!"pc=-1: program size {size} exceeds limit {limit}"
  | opcodeRange opcode => s!"opcode out of range: {opcode.plain}"
  | duplicateOpcode opcode => s!"duplicate opcode {Text.Hex.opcode opcode}"
  | argsTooLong length => s!"args too long: {length}"
  | duplicateLabel label => s!"duplicate label: {label}"
  | undefinedLabel label => s!"undefined label: {label}"
  | startOutOfRange start => s!"start_pc out of range: {start.plain}"

def StateFault.message : StateFault → String
  | noBalance token order => s!"balance of {token} is uninitialized for order {order}"
  | noScale order => s!"liquidity scale is uninitialized for order {order}"
  | negativeBalance token amount => s!"balance of {token} would become negative: {amount.plain}"
  | negativeScale scale => s!"liquidity scale must be non-negative: {scale.plain}"
  | negativeFade base => s!"decay base must be non-negative: {base}"
  | periodNotPositive => "period must be positive"
  | notASide value => s!"{value.display} is not a valid Direction"
  | stale order base current =>
    s!"stale transaction for order {order}: base version {base}, current {current}"
  | inUse order => s!"order {order} is locked by a walk in progress"

def WalkFault.message : WalkFault → String
  | deadlinePassed deadline now => s!"deadline {deadline} passed (now {now})"
  | holdsNone taker token => s!"taker {taker} holds no {token}"
  | holdsTooLittle balance token minimum =>
    s!"taker balance {balance} of {token} is below {minimum}"
  | noSupply token => s!"{token} has zero supply"
  | shareTooLow share token minimum => s!"taker share {share} of {token} is below {minimum}"
  | notListed token => s!"program lists no balance for {token}"
  | noDelta token => s!"CONCENTRATE has no delta for {token}"
  | cannotDeliver amount token => s!"order cannot deliver {amount} of {token}"
  | cannotDeliverVirtual amount => s!"concentrated reserve cannot deliver {amount}"
  | noLedger => "no token ledger configured"
  | noFeeSource address => s!"no fee provider registered at {address}"
  | callFailed what reason => s!"{what} failed: {(Datum.thing reason).plain}"
  | badBalance answer => s!"ledger returned an invalid balance: {answer.display}"
  | badSupply answer => s!"ledger returned an invalid supply: {answer.display}"
  | badFee source fault => s!"fee provider {source} returned an invalid fee: {fault.message}"

def RequestFault.message : RequestFault → String
  | badAddress fault => s!"invalid {fault.field}: {fault.message}"
  | notTraded order tokenIn tokenOut => s!"order {order} does not trade {tokenIn} -> {tokenOut}"
  | amountNotPositive amount => s!"amount must be a positive int: {amount.display}"
  | notRegistered order => s!"order {order} is not registered"
  | notComputed order => s!"program for order {order} computed no swap"
  | outputBelow amount minimum => s!"amount_out {amount} < minimum {minimum.plain}"
  | inputAbove amount maximum => s!"amount_in {amount} > maximum {maximum.plain}"
  | negativeMint amount => s!"mint amount must be non-negative: {amount.plain}"

def MarkupFault.message : MarkupFault → String
  | malformed => "the markup is not well-formed"
  | yearRange year => s!"year {year} is out of range"
  | monthRange => "month must be in 1..12"
  | dayRange => "day is out of range for month"
  | hourRange => "hour must be in 0..23"
  | minuteRange => "minute must be in 0..59"
  | secondRange => "second must be in 0..59"

def SettingsFault.message : SettingsFault → String
  | notMapping => "engine config must be a mapping"
  | unknownKeys keys => s!"unknown engine config keys: {(Datum.list keys).display}"
  | sizeNotPositive => "max_program_bytes must be positive"
  | iterationsNegative => "correction_max_iterations must be non-negative"
  | stepNotPositive => "correction_min_step must be positive"
  | registrationNotBool => "require_registration must be a bool"

def WordFault.message : WordFault → String
  | tooManyDigits =>
    s!"Exceeds the limit ({Text.Decimal.digitLimit} digits) for integer string conversion; "
      ++ "use sys.set_int_max_str_digits() to increase the limit"
  | unshown => "the thing cannot be shown"

/-- The text of a cause, as it is where all that it shows can be shown. -/
def Fault.message : Fault → String
  | notInt field => s!"{field} must be an int"
  | hex f => f.message
  | identity f => f.message
  | math f => f.message
  | curve f => f.message
  | fee f => f.message
  | block f => f.message
  | program f => f.message
  | state f => f.message
  | walk f => f.message
  | request f => f.message
  | markup f => f.message
  | settings f => f.message
  | words f => f.message

/-! ## What texts show -/

def HexFault.shown : HexFault → List Datum
  | wrongLength _ size => [size, size.doubled]
  | _ => []

def IdentityFault.shown : IdentityFault → List Datum
  | addressSize size => [.int size]
  | _ => []

def MathFault.shown : MathFault → List Datum
  | negative _ value => [.int value]
  | spreadRange spread => [.int spread]
  | exponentTooLarge exponent => [.int exponent]
  | _ => []

def CurveFault.shown : CurveFault → List Datum
  | negativeBalances balanceIn balanceOut => [.int balanceIn, .int balanceOut]
  | alphaRange alpha => [.int alpha]
  | amountNotPositive _ amount => [amount]
  | exceedsBalance amountOut balanceOut => [.int amountOut, .int balanceOut]
  | noConvergence iterations shortfall => [iterations, .int shortfall]
  | capacityNotPositive capacity => [.int capacity]
  | basePriceNotPositive price => [.int price]
  | strengthNegative strength => [.int strength]
  | spreadRange spread => [.int spread]
  | unknownShape shape => [shape]
  | positionRange position => [.int position]
  | negativeRemainder balanceOut => [.int balanceOut]
  | exceedsAvailable amountOut available => [.int amountOut, .int available]
  | rateNotPositive rate => [.int rate]
  | overdrawn amountOut balanceOut => [amountOut, balanceOut]
  | _ => []

def FeeFault.shown : FeeFault → List Datum
  | notInt fee => [fee]
  | outOfRange fee => [.int fee]

def BlockFault.shown : BlockFault → List Datum
  | truncated _ need left => [.int need, .int left]
  | trailing count => [.int count]
  | doesNotFit value bits => [.int value, .int bits]
  | tooLong size => [.int size]
  | _ => []

def ProgramFault.shown : ProgramFault → List Datum
  | headerCut pc => [.int pc]
  | argsOverrun pc length => [.int pc, .int length]
  | unknownOpcode pc _ => [.int pc]
  | badJump pc target => [.int pc, .int target]
  | tooLarge size limit => [.int size, .int limit]
  | opcodeRange opcode => [opcode]
  | argsTooLong length => [.int length]
  | startOutOfRange start => [start]
  | _ => []

def StateFault.shown : StateFault → List Datum
  | negativeBalance _ amount => [amount]
  | negativeScale scale => [scale]
  | negativeFade base => [.int base]
  | notASide value => [value]
  | stale _ base current => [.int base, .int current]
  | _ => []

def WalkFault.shown : WalkFault → List Datum
  | deadlinePassed deadline now => [.int deadline, .int now]
  | holdsTooLittle balance _ minimum => [.int balance, .int minimum]
  | shareTooLow share _ minimum => [.int share, .int minimum]
  | cannotDeliver amount _ => [.int amount]
  | cannotDeliverVirtual amount => [.int amount]
  | callFailed _ reason => [.thing reason]
  | badBalance answer => [answer]
  | badSupply answer => [answer]
  | badFee _ fault => fault.shown
  | _ => []

def RequestFault.shown : RequestFault → List Datum
  | badAddress fault => fault.shown
  | amountNotPositive amount => [amount]
  | outputBelow amount minimum => [.int amount, minimum]
  | inputAbove amount maximum => [.int amount, maximum]
  | negativeMint amount => [amount]
  | _ => []

def MarkupFault.shown : MarkupFault → List Datum
  | yearRange year => [.int year]
  | _ => []

def SettingsFault.shown : SettingsFault → List Datum
  | unknownKeys keys => [.list keys]
  | _ => []

/-- The values that the text of a cause shows, in the order of the text. -/
def Fault.shown : Fault → List Datum
  | notInt _ => []
  | hex f => f.shown
  | identity f => f.shown
  | math f => f.shown
  | curve f => f.shown
  | fee f => f.shown
  | block f => f.shown
  | program f => f.shown
  | state f => f.shown
  | walk f => f.shown
  | request f => f.shown
  | markup f => f.shown
  | settings f => f.shown
  | words _ => []

/-- What keeps the text of a cause from being made, if something does. -/
def Fault.wordFault? (f : Fault) : Option WordFault := f.shown.findSome? Datum.wordFault?

/-- A result or the cause of failure. -/
abbrev Outcome (α : Type) := Except Fault α

/-- Steps in a row succeed if the first does and the rest does with its result. -/
theorem Outcome.bind_eq_ok {α β : Type} {x : Outcome α} {f : α → Outcome β} {b : β} :
    (x >>= f) = .ok b ↔ ∃ a, x = .ok a ∧ f a = .ok b := by
  cases x with
  | error e => exact ⟨fun h => (nomatch h), fun ⟨_, h, _⟩ => (nomatch h)⟩
  | ok a => exact ⟨fun h => ⟨a, rfl, h⟩, fun ⟨_, h, hf⟩ => by cases h; exact hf⟩

theorem Outcome.pure_eq_ok {α : Type} {a b : α} : (pure a : Outcome α) = .ok b ↔ a = b :=
  ⟨fun h => by cases h; rfl, fun h => h ▸ rfl⟩

namespace Datum

/-- The whole number that a field holds; truth values are none. -/
def toInt (d : Datum) (field : String) : Outcome Int :=
  match d with
  | int z => .ok z
  | _ => .error (.notInt field)

end Datum

end SwapMachine
