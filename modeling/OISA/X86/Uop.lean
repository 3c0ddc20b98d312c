import Mathlib.Tactic

/-!
# Micro-instructions

`emulator/Uinst.h` and `timing/Uop.h`: the opcodes and flags of micro-instructions, and the data
that the timing simulator keeps for each of them. The opcodes without flags are one opcode.
-/

namespace OISA.X86

inductive Opcode
  | Load
  | Store
  | Prefetch
  | Call
  | Ret
  | Jump
  | Branch
  | Ibranch
  | Other
  deriving DecidableEq, Repr

namespace Opcode

def FlagMem : Opcode → Bool
  | Load | Store | Prefetch => true
  | _ => false

/-- Micro-instruction affecting control flow -/
def FlagCtrl : Opcode → Bool
  | Call | Ret | Jump | Branch | Ibranch => true
  | _ => false

def FlagUncond : Opcode → Bool
  | Call | Ret | Jump => true
  | _ => false

end Opcode

inductive Prediction
  | NotTaken
  | Taken
  deriving DecidableEq, Repr

structure Uop where
  opcode : Opcode
  /-- Position within its macro-instruction, and number of uops there -/
  mop_index : ℕ := 0
  mop_count : ℕ := 1
  mop_size : ℕ := 0
  eip : BitVec 32 := 0
  neip : BitVec 32 := 0
  speculative_mode : Bool := false
  target_neip : BitVec 32 := 0
  prediction : Prediction := .NotTaken
  bimod_index : ℕ := 0
  bimod_prediction : Prediction := .NotTaken
  two_level_bht_index : ℕ := 0
  two_level_pht_row : ℕ := 0
  two_level_pht_col : ℕ := 0
  two_level_prediction : Prediction := .NotTaken
  choice_index : ℕ := 0
  choice_prediction : Prediction := .NotTaken
  deriving DecidableEq, Repr

namespace Uop

/-- Address that follows the macro-instruction -/
def next (uop : Uop) : BitVec 32 := uop.eip + BitVec.ofNat 32 uop.mop_size

/-- The macro-instruction did not continue at the address that follows it. -/
def taken (uop : Uop) : Bool := uop.neip ≠ uop.next

end Uop

end OISA.X86
