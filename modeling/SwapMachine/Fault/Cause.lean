import SwapMachine.Datum

/-!
# SwapMachine.Fault.Cause — causes of failure

A failure is a value that tells its cause, with the values that are to blame. Causes are grouped by
the part of the machine they arise in. That a text cannot be made is a cause as well.
-/

namespace SwapMachine

/-- A text that does not spell `size` bytes in hexadecimal digits. -/
inductive HexFault where
  | notText (field : String)
  | wrongLength (field : String) (size : Datum)
  | notDigits (field : String)

/-- Values that cannot be part of an identity. -/
inductive IdentityFault where
  | floatValue
  | bytesValue
  | otherValue
  | noCharacter
  | keyNotText
  | labelNotText
  | labelHasNul
  | labelNotAscii
  | versionNotPositive
  | addressSize (size : Nat)
  | sameTokens
  | programNotBytes
  | flagsNegative

/-- Numbers outside the domain or the range of an operation. -/
inductive MathFault where
  | negative (field : String) (value : Int)
  | tooWide (field : String)
  | denominatorNotPositive
  | divisionByZero
  | lnOfZero
  | spreadRange (spread : Int)
  | quotientTooWide
  | exponentTooLarge (exponent : Int)
  | expTooWide
  | powTooWide
  | negativeRoot
  | zeroDivisor
  | beyondFractions

/-- Parameters of a curve, or amounts asked of it, that it cannot serve. -/
inductive CurveFault where
  | negativeBalances (balanceIn balanceOut : Int)
  | emptyBalance
  | alphaRange (alpha : Int)
  | amountNotPositive (field : String) (amount : Datum)
  | averageOfNothing
  | correctionLimits
  | exceedsBalance (amountOut balanceOut : Int)
  | noConvergence (iterations : Datum) (shortfall : Int)
  | capacityNotPositive (capacity : Int)
  | basePriceNotPositive (price : Int)
  | strengthNegative (strength : Int)
  | spreadRange (spread : Int)
  | unknownShape (shape : Datum)
  | positionRange (position : Int)
  | rangeReversed
  | negativeRemainder (balanceOut : Int)
  | exceedsAvailable (amountOut available : Int)
  | rateNotPositive (rate : Int)
  | overdrawn (amountOut balanceOut : Datum)

/-- A fee that is no whole number of basis points below the whole. -/
inductive FeeFault where
  | notInt (fee : Datum)
  | outOfRange (fee : Int)

/-- Argument blocks that do not decode, or values that do not encode. -/
inductive BlockFault where
  | truncated (what : String) (need left : Int)
  | duplicateToken (token : String)
  | trailing (count : Nat)
  | doesNotFit (value : Int) (bits : Int)
  | tooLong (size : Nat)
  | sameTokens
  | periodZero
  | liquidityZero

/-- Programs, instruction sets and assemblies that are not well formed. -/
inductive ProgramFault where
  | headerCut (pc : Int)
  | argsOverrun (pc : Int) (length : Nat)
  | unknownOpcode (pc opcode : Int)
  | badJump (pc target : Nat)
  | noSwap
  | tooLarge (size : Nat) (limit : Int)
  | opcodeRange (opcode : Datum)
  | duplicateOpcode (opcode : Int)
  | argsTooLong (length : Nat)
  | duplicateLabel (label : String)
  | undefinedLabel (label : String)
  | startOutOfRange (start : Datum)

/-- State that is absent, stale, in use or would become negative. -/
inductive StateFault where
  | noBalance (token order : String)
  | noScale (order : String)
  | negativeBalance (token : String) (amount : Datum)
  | negativeScale (scale : Datum)
  | negativeFade (base : Int)
  | periodNotPositive
  | notASide (value : Datum)
  | stale (order : String) (base current : Nat)
  | inUse (order : String)

/-- What stops a walk besides the above. -/
inductive WalkFault where
  | deadlinePassed (deadline now : Int)
  | holdsNone (taker token : String)
  | holdsTooLittle (balance : Int) (token : String) (minimum : Nat)
  | noSupply (token : String)
  | shareTooLow (share : Int) (token : String) (minimum : Nat)
  | notListed (token : String)
  | noDelta (token : String)
  | cannotDeliver (amount : Int) (token : String)
  | cannotDeliverVirtual (amount : Int)
  | noLedger
  | noFeeSource (address : String)
  | callFailed (what : String) (reason : Option String)
  | badBalance (answer : Datum)
  | badSupply (answer : Datum)
  | badFee (source : String) (fault : FeeFault)

/-- Requests that an engine turns down. -/
inductive RequestFault where
  | badAddress (fault : HexFault)
  | notTraded (order tokenIn tokenOut : String)
  | amountNotPositive (amount : Datum)
  | notRegistered (order : String)
  | notComputed (order : String)
  | outputBelow (amount : Int) (minimum : Datum)
  | inputAbove (amount : Int) (maximum : Datum)
  | negativeMint (amount : Datum)

/-- Markup that stands for no value. -/
inductive MarkupFault where
  | malformed
  | yearRange (year : Nat)
  | monthRange
  | dayRange
  | hourRange
  | minuteRange
  | secondRange

/-- Settings that an engine cannot run with. -/
inductive SettingsFault where
  | notMapping
  | unknownKeys (keys : List Datum)
  | sizeNotPositive
  | iterationsNegative
  | stepNotPositive
  | registrationNotBool

/-- The cause of a failure. -/
inductive Fault where
  | notInt (field : String)
  | hex (fault : HexFault)
  | identity (fault : IdentityFault)
  | math (fault : MathFault)
  | curve (fault : CurveFault)
  | fee (fault : FeeFault)
  | block (fault : BlockFault)
  | program (fault : ProgramFault)
  | state (fault : StateFault)
  | walk (fault : WalkFault)
  | request (fault : RequestFault)
  | markup (fault : MarkupFault)
  | settings (fault : SettingsFault)
  | words (fault : WordFault)

end SwapMachine
