import Mathlib.Data.BitVec
import Mathlib.Tactic
import OISA.X86.Decoder
import OISA.X86.Speculation

/-!
# Registers by their identifiers

Model of `Regs::Read` and `Regs::Write`. The main registers are one block of bytes from `eax` to
`gs`.
-/

namespace OISA.X86

open Decoder (Reg)
open Speculation (Word Regs)

namespace Registers

/-! ### Identifiers of registers -/

def RegNone : ℕ := 0
def RegEax : ℕ := 1
def RegEcx : ℕ := 2
def RegEdx : ℕ := 3
def RegEbx : ℕ := 4
def RegAx : ℕ := 9
def RegAl : ℕ := 17
def RegEs : ℕ := 25
def RegGs : ℕ := 30

/-- The identifier of a register of the addressing mode -/
def number : Reg → ℕ
  | .none => RegNone
  | .eax => RegEax
  | .ecx => RegEax + 1
  | .edx => RegEax + 2
  | .ebx => RegEax + 3
  | .esp => RegEax + 4
  | .ebp => RegEax + 5
  | .esi => RegEax + 6
  | .edi => RegEax + 7
  | .es => RegEs
  | .cs => RegEs + 1
  | .ss => RegEs + 2
  | .ds => RegEs + 3
  | .fs => RegEs + 4
  | .gs => RegEs + 5

structure Info where
  offset : ℕ
  size : ℕ
  deriving DecidableEq, Repr

def info (reg : ℕ) : Info :=
  [⟨0, 0⟩, ⟨0, 4⟩, ⟨4, 4⟩, ⟨8, 4⟩, ⟨12, 4⟩, ⟨16, 4⟩, ⟨20, 4⟩, ⟨24, 4⟩, ⟨28, 4⟩, ⟨0, 2⟩, ⟨4, 2⟩,
    ⟨8, 2⟩, ⟨12, 2⟩, ⟨16, 2⟩, ⟨20, 2⟩, ⟨24, 2⟩, ⟨28, 2⟩, ⟨0, 1⟩, ⟨4, 1⟩, ⟨8, 1⟩, ⟨12, 1⟩, ⟨1, 1⟩,
    ⟨5, 1⟩, ⟨9, 1⟩, ⟨13, 1⟩, ⟨32, 2⟩, ⟨34, 2⟩, ⟨36, 2⟩, ⟨38, 2⟩, ⟨40, 2⟩, ⟨42, 2⟩].getD reg ⟨0, 0⟩

def mask (size : ℕ) : Word := [0, 0xff, 0xffff, 0, 0xffffffff].getD size 0

def Info.word (i : Info) : ℕ := i.offset / 4
def Info.shift (i : Info) : ℕ := 8 * (i.offset % 4)

end Registers

namespace Speculation.Regs

open Registers

variable {R : Type}

/-- The registers that the constructor `Regs::Regs` leaves -/
def initial (rest : R) : Regs R where
  eax := 0
  ecx := 0
  edx := 0
  ebx := 0
  esp := 0
  ebp := 0
  esi := 0
  edi := 0
  es := 0
  cs := 0
  ss := 0
  ds := 0
  fs := 0
  gs := 0
  eip := 0
  eflags := 0
  fpu_ctrl := 0x37f
  rest := rest

/-- The words of the block from `eax` to `gs` -/
def word (regs : Regs R) : ℕ → Word
  | 0 => regs.eax
  | 1 => regs.ecx
  | 2 => regs.edx
  | 3 => regs.ebx
  | 4 => regs.esp
  | 5 => regs.ebp
  | 6 => regs.esi
  | 7 => regs.edi
  | 8 => regs.cs ++ regs.es
  | 9 => regs.ds ++ regs.ss
  | 10 => regs.gs ++ regs.fs
  | _ => 0

def setWord (regs : Regs R) (i : ℕ) (value : Word) : Regs R :=
  let low := value.truncate 16
  let high := (value >>> 16).truncate 16
  match i with
  | 0 => { regs with eax := value }
  | 1 => { regs with ecx := value }
  | 2 => { regs with edx := value }
  | 3 => { regs with ebx := value }
  | 4 => { regs with esp := value }
  | 5 => { regs with ebp := value }
  | 6 => { regs with esi := value }
  | 7 => { regs with edi := value }
  | 8 => { regs with es := low, cs := high }
  | 9 => { regs with ss := low, ds := high }
  | 10 => { regs with fs := low, gs := high }
  | _ => regs

/-- `Regs::Read`. No register lies in two words. -/
def Read (regs : Regs R) (reg : ℕ) : Word :=
  (regs.word (info reg).word >>> (info reg).shift) &&& mask (info reg).size

def Write (regs : Regs R) (reg : ℕ) (value : Word) : Regs R :=
  let mask := mask (info reg).size
  let shift := (info reg).shift
  regs.setWord (info reg).word
    ((regs.word (info reg).word &&& ~~~(mask <<< shift)) ||| ((value &&& mask) <<< shift))

lemma word_setWord (regs : Regs R) {i : ℕ} (hi : i < 8) (value : Word) (j : ℕ) :
    (regs.setWord i value).word j = if j = i then value else regs.word j := by
  by_cases h : j = i
  · subst h
    interval_cases j <;> rfl
  · rw [if_neg h]
    interval_cases i <;> rcases j with _ | _ | _ | _ | _ | _ | _ | _ | _ | _ | _ | j <;>
      first
        | rfl
        | exact absurd rfl h

end Speculation.Regs

end OISA.X86
