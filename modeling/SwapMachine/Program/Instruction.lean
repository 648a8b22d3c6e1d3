import SwapMachine.Block.Reader
import SwapMachine.Block.Writer
import SwapMachine.Curve.Amount
import SwapMachine.Curve.Density
import SwapMachine.Curve.Peg
import SwapMachine.Curve.Power
import SwapMachine.Program.Opcode

/-!
# SwapMachine.Program.Instruction — instructions with their parameters

* `Instruction.parse` reads the argument block of an operation and checks the parameters.
* `Instruction.block` writes the argument block of an instruction.
* `Instruction.show` is the form of the parameters in listings.
-/

namespace SwapMachine

/-- Tokens with an amount each. -/
abbrev Entries := List (String × Nat)

/-- Virtual balances of two tokens, and the liquidity that they were chosen for. -/
structure Concentration where
  tokenA : String
  deltaA : Nat
  tokenB : String
  deltaB : Nat
  liquidity : Nat
  deriving DecidableEq

/-- An instruction. -/
inductive Instruction where
  | jump (target : Nat)
  | jumpIfTokenIn (token : String) (target : Nat)
  | jumpIfTokenOut (token : String) (target : Nat)
  | deadline (time : Nat)
  | takerHolds (token : String)
  | takerHoldsAtLeast (token : String) (minimum : Nat)
  | takerShareAtLeast (token : String) (minimum : Nat)
  | salt (bytes : Bytes)
  | staticBalances (entries : Entries)
  | dynamicBalances (entries : Entries)
  | decay (period : Nat)
  | concentrate (around : Concentration)
  | flatFeeIn (fee : Nat)
  | flatFeeOut (fee : Nat)
  | dynamicFeeIn (source : String)
  | constantProduct (alpha : Nat)
  | pegged (rate : Nat)
  | density (curve : Curve.Density)
  | inert (number : Nat) (bytes : Bytes)
  deriving DecidableEq

namespace Instruction

open Block Curve

/-- The operation of the instruction. -/
def opcode : Instruction → Opcode
  | jump _ => .jump
  | jumpIfTokenIn .. => .jumpIfTokenIn
  | jumpIfTokenOut .. => .jumpIfTokenOut
  | deadline _ => .deadline
  | takerHolds _ => .takerHolds
  | takerHoldsAtLeast .. => .takerHoldsAtLeast
  | takerShareAtLeast .. => .takerShareAtLeast
  | salt _ => .salt
  | staticBalances _ => .staticBalances
  | dynamicBalances _ => .dynamicBalances
  | decay _ => .decay
  | concentrate _ => .concentrate
  | flatFeeIn _ => .flatFeeIn
  | flatFeeOut _ => .flatFeeOut
  | dynamicFeeIn _ => .dynamicFeeIn
  | constantProduct _ => .constantProduct
  | pegged _ => .pegged
  | density _ => .density
  | inert n _ => .inert n

/-- Where the instruction may move the walk. -/
def target? : Instruction → Option Nat
  | jump target => some target
  | jumpIfTokenIn _ target => some target
  | jumpIfTokenOut _ target => some target
  | _ => none

/-! ### Reading -/

/-- A token and a place in the program. -/
def tokenAndTarget : Reader (String × Nat) := return (← Reader.address, ← Reader.uint 16)

/-- A token and a 256-bit minimum. -/
def tokenAndMinimum : Reader (String × Nat) := return (← Reader.address, ← Reader.uint 256)

/-- Two tokens with their virtual balances, and a liquidity. -/
def concentration : Reader Concentration :=
  return ⟨← Reader.address, ← Reader.uint 256, ← Reader.address, ← Reader.uint 256,
    ← Reader.uint 256⟩

/-- The parameters of a density curve: capacity, base price, strength, shape and spread. -/
def densityFields : Reader (Nat × Nat × Nat × Nat × Nat) :=
  return (← Reader.uint 256, ← Reader.uint 256, ← Reader.uint 256, ← Reader.uint 8,
    ← Reader.uint 16)

/-- A fee below the whole. -/
def parseFee (block : Bytes) : Outcome Nat := do
  let fee ← Reader.whole (Reader.uint 16) block
  match fee? (.int fee) with
  | .ok _ => return fee
  | .error f => .error (.fee f)

/-- A positive period. -/
def parsePeriod (block : Bytes) : Outcome Nat := do
  let period ← Reader.whole (Reader.uint 32) block
  if period = 0 then .error (.block .periodZero) else return period

/-- A concentration between different tokens around a positive liquidity. -/
def parseConcentration (block : Bytes) : Outcome Concentration := do
  let c ← Reader.whole concentration block
  if c.tokenA = c.tokenB then .error (.block .sameTokens)
  else if c.liquidity = 0 then .error (.block .liquidityZero)
  else return c

/-- An exponent in `(0, 1]`. -/
def parseAlpha (block : Bytes) : Outcome Nat := do
  let alpha ← Reader.whole (Reader.uint 64) block
  Power.requireAlpha alpha
  return alpha

/-- A positive rate. -/
def parseRate (block : Bytes) : Outcome Nat := do
  let rate ← Reader.whole (Reader.uint 256) block
  Peg.requireRate rate
  return rate

/-- A density curve. -/
def parseDensity (block : Bytes) : Outcome Density := do
  let (capacity, basePrice, strength, shape, spread) ← Reader.whole densityFields block
  Density.make capacity basePrice strength (.int shape) spread

/-- The instruction that an operation and its argument block make. -/
def parse : Opcode → Bytes → Outcome Instruction
  | .jump, block => return jump (← Reader.whole (Reader.uint 16) block)
  | .jumpIfTokenIn, block => do
    let (token, target) ← Reader.whole tokenAndTarget block
    return jumpIfTokenIn token target
  | .jumpIfTokenOut, block => do
    let (token, target) ← Reader.whole tokenAndTarget block
    return jumpIfTokenOut token target
  | .deadline, block => return deadline (← Reader.whole (Reader.uint 64) block)
  | .takerHolds, block => return takerHolds (← Reader.whole Reader.address block)
  | .takerHoldsAtLeast, block => do
    let (token, minimum) ← Reader.whole tokenAndMinimum block
    return takerHoldsAtLeast token minimum
  | .takerShareAtLeast, block => do
    let (token, minimum) ← Reader.whole tokenAndMinimum block
    return takerShareAtLeast token minimum
  | .salt, block => return salt block
  | .staticBalances, block => return staticBalances (← Reader.whole Reader.balances block)
  | .dynamicBalances, block => return dynamicBalances (← Reader.whole Reader.balances block)
  | .decay, block => return decay (← parsePeriod block)
  | .concentrate, block => return concentrate (← parseConcentration block)
  | .flatFeeIn, block => return flatFeeIn (← parseFee block)
  | .flatFeeOut, block => return flatFeeOut (← parseFee block)
  | .dynamicFeeIn, block => return dynamicFeeIn (← Reader.whole Reader.address block)
  | .constantProduct, block => return constantProduct (← parseAlpha block)
  | .pegged, block => return pegged (← parseRate block)
  | .density, block => return density (← parseDensity block)
  | .inert n, block => return inert n block

/-! ### Writing -/

/-- A token and a number of the given width. -/
def tokenAnd (token : String) (bits : Nat) (value : Int) : Outcome Bytes :=
  return (← Writer.address token) ++ (← Writer.uint bits value)

/-- The fields of a concentration. -/
def concentrationFields (c : Concentration) : Outcome Bytes :=
  return (← tokenAnd c.tokenA 256 c.deltaA) ++ (← tokenAnd c.tokenB 256 c.deltaB)
    ++ (← Writer.uint 256 c.liquidity)

/-- The fields of a density curve. -/
def curveFields (c : Density) : Outcome Bytes :=
  return (← Writer.uint 256 c.capacity) ++ (← Writer.uint 256 c.basePrice)
    ++ (← Writer.uint 256 c.strength) ++ (← Writer.uint 8 c.shape.degree)
    ++ (← Writer.uint 16 c.spread)

/-- The fields of an instruction, one after another. -/
def fields : Instruction → Outcome Bytes
  | jump target => Writer.uint 16 target
  | jumpIfTokenIn token target => tokenAnd token 16 target
  | jumpIfTokenOut token target => tokenAnd token 16 target
  | deadline time => Writer.uint 64 time
  | takerHolds token => Writer.address token
  | takerHoldsAtLeast token minimum => tokenAnd token 256 minimum
  | takerShareAtLeast token minimum => tokenAnd token 256 minimum
  | salt bytes => .ok bytes
  | staticBalances entries => Writer.balances (entries.map fun e => (e.1, (e.2 : Int)))
  | dynamicBalances entries => Writer.balances (entries.map fun e => (e.1, (e.2 : Int)))
  | decay period => Writer.uint 32 period
  | concentrate c => concentrationFields c
  | flatFeeIn fee => Writer.uint 16 fee
  | flatFeeOut fee => Writer.uint 16 fee
  | dynamicFeeIn source => Writer.address source
  | constantProduct alpha => Writer.uint 64 alpha
  | pegged rate => Writer.uint 256 rate
  | density curve => curveFields curve
  | inert _ bytes => .ok bytes

/-- The argument block of an instruction. -/
def block (i : Instruction) : Outcome Bytes := do Writer.complete (← i.fields)

/-! ### Listing -/

/-- A text as listings show it. -/
def quoted (s : String) : String := (Datum.text s).display

/-- A record of named fields. -/
def recordOf (name : String) (fields : List (String × String)) : String :=
  name ++ "(" ++ ", ".intercalate (fields.map fun f => f.1 ++ "=" ++ f.2) ++ ")"

/-- Pairs of token and amount; a single pair keeps a comma behind it. -/
def displayEntries (entries : Entries) : String :=
  let items := entries.map fun e => s!"({quoted e.1}, {e.2})"
  match items with
  | [item] => "(" ++ item ++ ",)"
  | items => "(" ++ ", ".intercalate items ++ ")"

/-- The parameters of a concentration. -/
def displayConcentration (c : Concentration) : String :=
  recordOf "ConcentrateArgs" [("token_a", quoted c.tokenA), ("delta_a", toString c.deltaA),
    ("token_b", quoted c.tokenB), ("delta_b", toString c.deltaB),
    ("initial_liquidity", toString c.liquidity)]

/-- The parameters of a density curve. -/
def displayCurve (c : Density) : String :=
  recordOf "DensityCurve" [("capacity", toString c.capacity), ("base_price", toString c.basePrice),
    ("strength", toString c.strength), ("shape", s!"<Shape.{c.shape.name}: {c.shape.degree}>"),
    ("spread_bps", toString c.spread)]

/-- The parameters of a conditional jump. -/
def displayTokenJump (token : String) (target : Nat) : String :=
  recordOf "TokenJumpArgs" [("token", quoted token), ("target", toString target)]

/-- A token and the minimum that is asked of it. -/
def displayThreshold (token : String) (minimum : Nat) : String :=
  recordOf "TokenThresholdArgs" [("token", quoted token), ("threshold", toString minimum)]

/-- The parameters of an instruction in listings. -/
def display : Instruction → String
  | jump target => recordOf "JumpArgs" [("target", toString target)]
  | jumpIfTokenIn token target => displayTokenJump token target
  | jumpIfTokenOut token target => displayTokenJump token target
  | deadline time => toString time
  | takerHolds token => quoted token
  | takerHoldsAtLeast token minimum => displayThreshold token minimum
  | takerShareAtLeast token minimum => displayThreshold token minimum
  | salt bytes => (Datum.bytes bytes).display
  | staticBalances entries => displayEntries entries
  | dynamicBalances entries => displayEntries entries
  | decay period => toString period
  | concentrate c => displayConcentration c
  | flatFeeIn fee => toString fee
  | flatFeeOut fee => toString fee
  | dynamicFeeIn source => quoted source
  | constantProduct alpha => toString alpha
  | pegged rate => toString rate
  | density curve => displayCurve curve
  | inert _ bytes => (Datum.bytes bytes).display

end Instruction

end SwapMachine
