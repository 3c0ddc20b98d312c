import OISA.Lib.Runs
import OISA.X86.RegisterFile
import OISA.X86.Registers

/-!
# Expansion into micro-instructions

Model of `emulator/ContextUinst.cc`, for a context whose `uinst_active` is set. Dependences are
the numbers of their enumerators.
-/

namespace OISA.X86.Expansion

open OISA.Lib
open Decoder (Instruction Reg)
open Registers (number RegEax RegEs)
open Speculation (Word)
open Uinst (isIntegerDependency isFloatingPointDependency isXmmDependency)

inductive Opcode where
  | Move
  | Effaddr
  | Load
  | Store
  | Other
  deriving DecidableEq

def DepNone : ℕ := 0
def DepEax : ℕ := 1
def DepEs : ℕ := 9
def DepEa : ℕ := 21
def DepData : ℕ := 22
def DepSt0 : ℕ := 23
def DepXmm0 : ℕ := 34
def DepXmmData : ℕ := 42
def DepRm8 : ℕ := 0x100
def DepRm16 : ℕ := 0x101
def DepRm32 : ℕ := 0x102
def DepIr8 : ℕ := 0x200
def DepIr16 : ℕ := 0x201
def DepIr32 : ℕ := 0x202
def DepR8 : ℕ := 0x300
def DepR16 : ℕ := 0x301
def DepR32 : ℕ := 0x302
def DepSreg : ℕ := 0x400
def DepMem8 : ℕ := 0x500
def DepMem16 : ℕ := 0x501
def DepMem32 : ℕ := 0x502
def DepMem64 : ℕ := 0x503
def DepMem80 : ℕ := 0x504
def DepMem128 : ℕ := 0x505
def DepEaseg : ℕ := 0x601
def DepEabas : ℕ := 0x602
def DepEaidx : ℕ := 0x603
def DepSti : ℕ := 0x700
def DepXmmm32 : ℕ := 0x800
def DepXmmm64 : ℕ := 0x801
def DepXmmm128 : ℕ := 0x802
def DepXmm : ℕ := 0x900

structure Uinst where
  opcode : Opcode
  idep : List ℕ := []
  odep : List ℕ := []
  address : Word := 0
  size : ℕ := 0

def isValidDependency (dep : ℕ) : Bool :=
  isIntegerDependency dep || isFloatingPointDependency dep || isXmmDependency dep

def addIDep (new : ℕ) : List ℕ → Option (List ℕ)
  | [] => none
  | dep :: deps =>
    if dep = DepNone then some (new :: deps) else (addIDep new deps).map (dep :: ·)

/-- A micro-instruction as it is handed over, and `last_effective_address` at this time -/
structure Description where
  uinst : Uinst
  last_effective_address : Word := 0

section Instruction

variable (inst : Instruction)

/-- The size and the standard dependence; a size of 0 is `none`. -/
def getMemoryDepSize (dep : ℕ) : Option (ℕ × ℕ) :=
  if dep = DepRm8 ∨ dep = DepRm16 ∨ dep = DepRm32 then
    if inst.modrm_mod = 3 then none else some (1 <<< (dep - DepRm8), DepData)
  else if dep = DepMem8 ∨ dep = DepMem16 ∨ dep = DepMem32 ∨ dep = DepMem64 ∨ dep = DepMem128 then
    some (1 <<< (dep - DepMem8), DepData)
  else if dep = DepMem80 then some (10, DepData)
  else if dep = DepXmmm32 ∨ dep = DepXmmm64 ∨ dep = DepXmmm128 then
    if inst.modrm_mod = 3 then none else some (1 <<< (dep - DepXmmm32 + 2), DepXmmData)
  else none

def regDep (reg : Reg) (firstReg firstDep : ℕ) : ℕ :=
  if reg = .none then DepNone else number reg - firstReg + firstDep

def effectiveAddressUinst : Uinst where
  opcode := .Effaddr
  idep := [regDep inst.segment RegEs DepEs, regDep inst.ea_base RegEax DepEax,
    regDep inst.ea_index RegEax DepEax]
  odep := [DepEa]

def byteReg (i : ℕ) : ℕ := if i < 4 then DepEax + i else DepEax + i - 4

/-- The dependence that `ParseUinstDep` leaves. The memory operands were handled before, so the
assertions about `modrm_mod` hold. -/
def ParseUinstDep (dep : ℕ) : Option ℕ :=
  if isValidDependency dep then some dep
  else if dep = DepNone then some dep
  else if dep = DepEaseg then some (regDep inst.segment RegEs DepEs)
  else if dep = DepEabas then some (regDep inst.ea_base RegEax DepEax)
  else if dep = DepEaidx then some (regDep inst.ea_index RegEax DepEax)
  else if dep = DepRm8 then some (byteReg inst.modrm_rm)
  else if dep = DepRm16 ∨ dep = DepRm32 then some (DepEax + inst.modrm_rm)
  else if dep = DepR8 then some (byteReg inst.modrm_reg)
  else if dep = DepR16 ∨ dep = DepR32 then some (DepEax + inst.modrm_reg)
  else if dep = DepIr8 then some (byteReg inst.opindex)
  else if dep = DepIr16 ∨ dep = DepIr32 then some (DepEax + inst.opindex)
  else if dep = DepSreg then some (DepEs + inst.modrm_reg)
  else if dep = DepSti then some (DepSt0 + inst.opindex)
  else if dep = DepXmmm32 ∨ dep = DepXmmm64 ∨ dep = DepXmmm128 then some (DepXmm0 + inst.modrm_rm)
  else if dep = DepXmm then some (DepXmm0 + inst.modrm_reg)
  else none

def loadUinst (address : Word) (memory : ℕ × ℕ) : Uinst where
  opcode := .Load
  idep := [DepEa]
  odep := [memory.2]
  address := address
  size := memory.1

def storeUinst (address : Word) (memory : ℕ × ℕ) : Uinst where
  opcode := .Store
  idep := [DepEa, memory.2]
  address := address
  size := memory.1

abbrev Parsed := ℕ × Uinst × List Uinst

def ParseUinstIDep (address : Word) (dep : ℕ) (uinst : Uinst) : Option Parsed :=
  match getMemoryDepSize inst dep with
  | some (size, std_dep) =>
    if uinst.opcode = .Move then some
      (DepEa, { uinst with opcode := .Load, address := address, size := size }, [])
    else some (std_dep, uinst, [loadUinst address (size, std_dep)])
  | none => (ParseUinstDep inst dep).map (·, uinst, [])

def ParseUinstODep (address : Word) (dep : ℕ) (uinst : Uinst) : Option Parsed :=
  match getMemoryDepSize inst dep with
  | some (size, std_dep) =>
    match (if uinst.opcode = .Move then addIDep DepEa uinst.idep else none) with
    | some idep => some (DepNone,
        { uinst with opcode := .Store, idep := idep, address := address, size := size }, [])
    | none => some (std_dep, uinst, [storeUinst address (size, std_dep)])
  | none => (ParseUinstDep inst dep).map (·, uinst, [])

def parseDeps (parse : ℕ → Uinst → Option Parsed) :
    List ℕ → Uinst → Option (List ℕ × Uinst × List Uinst)
  | [], uinst => some ([], uinst, [])
  | dep :: deps, uinst => do
    let (dep, uinst, emitted) ← parse dep uinst
    let (deps, uinst, more) ← parseDeps parse deps uinst
    some (dep :: deps, uinst, emitted ++ more)

structure Call where
  effaddr : List Uinst
  loads : List Uinst
  uinst : Uinst
  stores : List Uinst

def Call.uinsts (c : Call) : List Uinst := c.effaddr ++ c.loads ++ c.uinst :: c.stores

structure State where
  uinst_effaddr_emitted : Bool := false
  calls : List Call := []

def State.uinsts (s : State) : List Uinst := s.calls.flatMap Call.uinsts

/-- One of the dependences is a memory operand -/
def Description.memory (d : Description) : Bool :=
  (d.uinst.idep ++ d.uinst.odep).any fun dep => (getMemoryDepSize inst dep).isSome

def newMemoryUinst (d : Description) (s : State) : Option State := do
  let address := d.last_effective_address
  let emit := !s.uinst_effaddr_emitted && d.memory inst
  let (idep, uinst, loads) ← parseDeps (ParseUinstIDep inst address) d.uinst.idep d.uinst
  let (odep, uinst, stores) ← parseDeps (ParseUinstODep inst address) d.uinst.odep
    { uinst with idep := idep }
  some {
    uinst_effaddr_emitted := s.uinst_effaddr_emitted || emit
    calls := s.calls ++ [{
      effaddr := if emit then [effectiveAddressUinst inst] else []
      loads := loads
      uinst := { uinst with odep := odep }
      stores := stores }] }

def expand (ds : List Description) : Option State := run (newMemoryUinst inst) ds {}

end Instruction

end OISA.X86.Expansion
