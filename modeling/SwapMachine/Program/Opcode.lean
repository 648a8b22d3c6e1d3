import SwapMachine.Fault

/-!
# SwapMachine.Program.Opcode — the operations of programs and the sets that a machine knows

* `Opcode` lists the operations of the machine, and `inert` ones that any other number may be given:
  they take any arguments and do nothing.
* An `InstructionSet` is a list of distinct opcode numbers from 1 to 255; a program may use no
  other.
-/

namespace SwapMachine

/-- An operation. -/
inductive Opcode where
  | jump
  | jumpIfTokenIn
  | jumpIfTokenOut
  | deadline
  | takerHolds
  | takerHoldsAtLeast
  | takerShareAtLeast
  | salt
  | staticBalances
  | dynamicBalances
  | decay
  | concentrate
  | flatFeeIn
  | flatFeeOut
  | dynamicFeeIn
  | constantProduct
  | pegged
  | density
  | inert (number : Nat)
  deriving DecidableEq

namespace Opcode

/-- The number of the operation in programs. -/
def number : Opcode → Nat
  | jump => 0x01
  | jumpIfTokenIn => 0x02
  | jumpIfTokenOut => 0x03
  | deadline => 0x04
  | takerHolds => 0x05
  | takerHoldsAtLeast => 0x06
  | takerShareAtLeast => 0x07
  | salt => 0x08
  | staticBalances => 0x10
  | dynamicBalances => 0x11
  | decay => 0x18
  | concentrate => 0x19
  | flatFeeIn => 0x20
  | flatFeeOut => 0x21
  | dynamicFeeIn => 0x22
  | constantProduct => 0x30
  | pegged => 0x31
  | density => 0x32
  | inert n => n

/-- The operations that do something, by rising number. -/
def standard : List Opcode :=
  [jump, jumpIfTokenIn, jumpIfTokenOut, deadline, takerHolds, takerHoldsAtLeast, takerShareAtLeast,
    salt, staticBalances, dynamicBalances, decay, concentrate, flatFeeIn, flatFeeOut, dynamicFeeIn,
    constantProduct, pegged, density]

/-- The operation of a number. -/
def ofNumber (n : Nat) : Opcode := (standard.find? fun op => op.number == n).getD (inert n)

/-- The name of the operation in listings. -/
def name : Opcode → String
  | jump => "JUMP"
  | jumpIfTokenIn => "JUMP_IF_TOKEN_IN"
  | jumpIfTokenOut => "JUMP_IF_TOKEN_OUT"
  | deadline => "DEADLINE"
  | takerHolds => "ONLY_TAKER_TOKEN_BALANCE_NON_ZERO"
  | takerHoldsAtLeast => "ONLY_TAKER_TOKEN_BALANCE_GTE"
  | takerShareAtLeast => "ONLY_TAKER_TOKEN_SUPPLY_SHARE_GTE"
  | salt => "SALT"
  | staticBalances => "STATIC_BALANCES"
  | dynamicBalances => "DYNAMIC_BALANCES"
  | decay => "DECAY"
  | concentrate => "CONCENTRATE"
  | flatFeeIn => "FLAT_FEE_AMOUNT_IN"
  | flatFeeOut => "FLAT_FEE_AMOUNT_OUT"
  | dynamicFeeIn => "DYNAMIC_FEE_AMOUNT_IN"
  | constantProduct => "CONSTANT_PRODUCT_SWAP"
  | pegged => "PEGGED_SWAP"
  | density => "DENSITY_SWAP"
  | inert n => s!"OP_{n}"

/-- The operation computes the amounts of a swap. -/
def isSwap : Opcode → Bool
  | constantProduct | pegged | density => true
  | _ => false

/-- The operation may move the walk to another place of the program. -/
def isJump : Opcode → Bool
  | jump | jumpIfTokenIn | jumpIfTokenOut => true
  | _ => false

theorem ofNumber_number_standard {op : Opcode} (h : op ∈ standard) : ofNumber op.number = op := by
  revert op
  decide

end Opcode

/-- Distinct opcode numbers from 1 to 255. -/
structure InstructionSet where
  numbers : List Nat

namespace InstructionSet

/-- Adds opcode numbers one by one, refusing those out of range and those already there. -/
def addAll (known : List Nat) : List Int → Outcome (List Nat)
  | [] => .ok known
  | n :: ns =>
    if ¬ (0 < n ∧ n < 256) then .error (.program (.opcodeRange (.int n)))
    else if known.contains n.toNat then .error (.program (.duplicateOpcode n))
    else addAll (known ++ [n.toNat]) ns

/-- The set of the given opcode numbers. -/
def ofNumbers (ns : List Int) : Outcome InstructionSet := do return ⟨← addAll [] ns⟩

/-- The set of all operations that do something. -/
def standard : InstructionSet := ⟨Opcode.standard.map Opcode.number⟩

/-- The operation of a number, if the set has it. -/
def get? (s : InstructionSet) (n : Int) : Option Opcode :=
  if 0 ≤ n ∧ s.numbers.contains n.toNat then some (Opcode.ofNumber n.toNat) else none

/-- The operation that stands at a place of a program. -/
def lookup (s : InstructionSet) (pc : Int) (n : Int) : Outcome Opcode :=
  match s.get? n with
  | some op => .ok op
  | none => .error (.program (.unknownOpcode pc n))

/-- The number of operations. -/
def size (s : InstructionSet) : Nat := s.numbers.length

/-- The names of the operations, by rising number. -/
def names (s : InstructionSet) : List String :=
  ((List.range 256).filter s.numbers.contains).map fun n => (Opcode.ofNumber n).name

end InstructionSet

end SwapMachine
