import OISA.Lib.Bits
import OISA.X86.Registers

/-!
# Instructions of division and of exchange

Model of the functions `Context::ExecuteInst_*` for `div`, `idiv`, `xadd`, `xchg` and `cmpxchg`,
with the functions that load and store their operands.
-/

namespace OISA.X86.IsaMisc

open OISA.Lib
open Decoder (Instruction Reg)
open Registers
open Speculation (Word Regs)

/-! ### Programs -/

inductive Program (R : Type) where
  | done (regs : Regs R)
  | throws (message : String)
  | divideException
  | memoryRead (address : Word) (size : ℕ) (next : List UInt8 → Program R)
  | memoryWrite (address : Word) (buffer : List UInt8) (next : Program R)

inductive Access where
  | read (address : Word) (size : ℕ)
  | write (address : Word) (size : ℕ)
  deriving DecidableEq, Repr

/-- How a program ends. `divideException` ends the host process. -/
inductive Outcome (R : Type) where
  | done (regs : Regs R)
  | throws (message : String)
  | memoryError
  | divideException
  deriving DecidableEq

/-- The memory as an instruction finds it. An access may throw. -/
structure Bus where
  load : Word → ℕ → Option (List UInt8)
  stores : Word → List UInt8 → Bool

/-- All bytes are zero, and no access throws. -/
def zeroBus : Bus where
  load _ size := some (List.replicate size 0)
  stores _ _ := true

/-- The accesses of a program, and its end -/
def Program.run {R : Type} (bus : Bus) : Program R → List Access × Outcome R
  | .done regs => ([], .done regs)
  | .throws message => ([], .throws message)
  | .divideException => ([], .divideException)
  | .memoryRead address size next =>
    match bus.load address size with
    | none => ([.read address size], .memoryError)
    | some buffer =>
      let run := (next buffer).run bus
      (.read address size :: run.1, run.2)
  | .memoryWrite address buffer next =>
    if bus.stores address buffer then
      let run := next.run bus
      (.write address buffer.length :: run.1, run.2)
    else ([.write address buffer.length], .memoryError)

section Host

variable {w : ℕ}

def hostDiv (high low divisor : BitVec w) : Option (BitVec w × BitVec w) :=
  let dividend := (high ++ low).toNat
  if divisor = 0 ∨ 2 ^ w ≤ dividend / divisor.toNat then none
  else some (BitVec.ofNat w (dividend / divisor.toNat), BitVec.ofNat w (dividend % divisor.toNat))

def hostIdiv (high low divisor : BitVec w) : Option (BitVec w × BitVec w) :=
  let dividend := (high ++ low).toInt
  let quotient := dividend.tdiv divisor.toInt
  if divisor = 0 ∨ quotient < -2 ^ (w - 1) ∨ 2 ^ (w - 1) ≤ quotient then none
  else some (BitVec.ofInt w quotient, BitVec.ofInt w (dividend.tmod divisor.toInt))

end Host

/-- The flags that `add` and `cmp` leave, from the flags before and the two operands -/
structure HostFlags where
  add8 : Word → BitVec 8 → BitVec 8 → Word
  add32 : Word → Word → Word → Word
  cmp32 : Word → Word → Word → Word

/-! ### Operands -/

structure Fields where
  inst : Instruction
  glibc_segment_base : Word
  spec_mode : Bool

section Operands

variable {R : Type} (c : Fields) (regs : Regs R)

def hex (x : Word) : String := "0x" ++ String.ofList (Nat.toDigits 16 x.toNat)

def getLinearAddress (offset : Word) : Except String Word :=
  if c.inst.segment = .none then .ok offset
  else if c.inst.segment ≠ .gs then .error "Unimplemented segment override"
  else if regs.Read RegGs ≠ 0x33 then
    .error ("Linear address for gs = " ++ hex (regs.Read RegGs))
  else if c.glibc_segment_base = 0 then
    .error "GLibc segment not set in linear address calculation"
  else .ok (c.glibc_segment_base + offset)

def offsetAddress : Word :=
  regs.Read (number c.inst.ea_base) +
    regs.Read (number c.inst.ea_index) * BitVec.ofNat 32 c.inst.ea_scale +
    BitVec.ofInt 32 c.inst.disp

def getEffectiveAddress : Except String Word :=
  if c.inst.modrm_mod = 3 then .error "Invalid value for 'modrm_mod'"
  else getLinearAddress c regs (offsetAddress c regs)

def toBytes {w : ℕ} (value : BitVec w) : List UInt8 := leBytes (w / 8) value.toNat
def ofBytes (w : ℕ) (buffer : List UInt8) : BitVec w := BitVec.ofNat w (leNat buffer)

def LoadRm (w first : ℕ) (next : BitVec w → Program R) : Program R :=
  if c.inst.modrm_mod = 3 then next ((regs.Read (c.inst.modrm_rm + first)).setWidth w)
  else
    match getEffectiveAddress c regs with
    | .error message => .throws message
    | .ok address => .memoryRead address (w / 8) fun buffer => next (ofBytes w buffer)

def StoreRm {w : ℕ} (first : ℕ) (value : BitVec w) (next : Regs R → Program R) : Program R :=
  if c.inst.modrm_mod = 3 then next (regs.Write (c.inst.modrm_rm + first) (value.setWidth 32))
  else
    match getEffectiveAddress c regs with
    | .error message => .throws message
    | .ok address => .memoryWrite address (toBytes value) (next regs)

def LoadRm8 (next : BitVec 8 → Program R) : Program R := LoadRm c regs 8 RegAl next
def LoadRm16 (next : BitVec 16 → Program R) : Program R := LoadRm c regs 16 RegAx next
def LoadRm32 (next : BitVec 32 → Program R) : Program R := LoadRm c regs 32 RegEax next

def StoreRm8 (value : BitVec 8) (next : Regs R → Program R) : Program R :=
  StoreRm c regs RegAl value next
def StoreRm16 (value : BitVec 16) (next : Regs R → Program R) : Program R :=
  StoreRm c regs RegAx value next
def StoreRm32 (value : BitVec 32) (next : Regs R → Program R) : Program R :=
  StoreRm c regs RegEax value next

def LoadR8 : BitVec 8 := (regs.Read (c.inst.modrm_reg + RegAl)).setWidth 8
def LoadR16 : BitVec 16 := (regs.Read (c.inst.modrm_reg + RegAx)).setWidth 16
def LoadR32 : BitVec 32 := regs.Read (c.inst.modrm_reg + RegEax)

def StoreR8 (value : BitVec 8) : Regs R :=
  regs.Write (c.inst.modrm_reg + RegAl) (value.setWidth 32)
def StoreR16 (value : BitVec 16) : Regs R :=
  regs.Write (c.inst.modrm_reg + RegAx) (value.setWidth 32)
def StoreR32 (value : BitVec 32) : Regs R := regs.Write (c.inst.modrm_reg + RegEax) value

def LoadIR16 : BitVec 16 := (regs.Read (c.inst.opindex + RegAx)).setWidth 16
def LoadIR32 : BitVec 32 := regs.Read (c.inst.opindex + RegEax)

def StoreIR16 (value : BitVec 16) : Regs R :=
  regs.Write (c.inst.opindex + RegAx) (value.setWidth 32)
def StoreIR32 (value : BitVec 32) : Regs R := regs.Write (c.inst.opindex + RegEax) value

end Operands

section Division

variable {R : Type} (c : Fields) (regs : Regs R)

/-- The host division in an `asm` block, unless it is left out. -/
def emulate {α : Type} (skip_emulation : Bool) (host : Option α) (before : α)
    (next : α → Program R) : Program R :=
  if skip_emulation then next before
  else
    match host with
    | none => .divideException
    | some after => next after

def ExecuteInst_div_rm8 : Program R :=
  let ax : BitVec 16 := (regs.Read RegAx).setWidth 16
  LoadRm8 c regs fun rm8 =>
    if rm8 = 0 then .throws "Division by 0"
    else
      let skip_emulation := c.spec_mode && decide (0xff < ax)
      let host := (hostDiv (ax.extractLsb' 8 8) (ax.setWidth 8) rm8).map fun out => out.2 ++ out.1
      emulate skip_emulation host ax fun ax => .done (regs.Write RegAx (ax.setWidth 32))

def ExecuteInst_div_rm32 : Program R :=
  LoadRm32 c regs fun rm32 =>
    if rm32 = 0 then .throws "Division by 0"
    else
      let skip_emulation := c.spec_mode && decide (regs.edx ≠ 0)
      let host := hostDiv regs.edx regs.eax rm32
      emulate skip_emulation host (regs.eax, regs.edx) fun out =>
        .done ((regs.Write RegEax out.1).Write RegEdx out.2)

def outOfRange (edx eax : Word) : Bool :=
  let edx_eax := (edx ++ eax).toInt
  decide (0x7fffffff < edx_eax ∨ edx_eax < -0x80000000)

def ExecuteInst_idiv_rm32 : Program R :=
  LoadRm32 c regs fun rm32 =>
    if rm32 = 0 then .throws "Division by 0"
    else
      let skip_emulation := c.spec_mode && outOfRange regs.edx regs.eax
      let host := hostIdiv regs.edx regs.eax rm32
      emulate skip_emulation host (regs.eax, regs.edx) fun out =>
        .done ((regs.Write RegEax out.1).Write RegEdx out.2)

inductive Division where
  | div_rm8
  | div_rm32
  | idiv_rm32
  deriving DecidableEq, Repr

/-- The function of an instruction in `execute_inst_fn` -/
def executeDivision : Division → Program R
  | .div_rm8 => ExecuteInst_div_rm8 c regs
  | .div_rm32 => ExecuteInst_div_rm32 c regs
  | .idiv_rm32 => ExecuteInst_idiv_rm32 c regs

end Division

section Exchange

variable {R : Type} (flags : HostFlags) (c : Fields) (regs : Regs R)

def ExecuteInst_xadd_rm8_r8 : Program R :=
  LoadRm8 c regs fun rm8 =>
    let r8 := LoadR8 c regs
    let sum := rm8 + r8
    let eflags := flags.add8 regs.eflags rm8 r8
    let regs := StoreR8 c regs rm8
    StoreRm8 c regs sum fun regs => .done { regs with eflags := eflags }

def ExecuteInst_xadd_rm32_r32 : Program R :=
  LoadRm32 c regs fun rm32 =>
    let r32 := LoadR32 c regs
    let sum := rm32 + r32
    let eflags := flags.add32 regs.eflags rm32 r32
    let regs := StoreR32 c regs rm32
    StoreRm32 c regs sum fun regs => .done { regs with eflags := eflags }

def ExecuteInst_xchg_ir16_ax : Program R :=
  let ax : BitVec 16 := (regs.Read RegAx).setWidth 16
  let ir16 := LoadIR16 c regs
  let regs := regs.Write RegAx (ir16.setWidth 32)
  .done (StoreIR16 c regs ax)

def ExecuteInst_xchg_ir32_eax : Program R :=
  let eax := regs.Read RegEax
  let ir32 := LoadIR32 c regs
  let regs := regs.Write RegEax ir32
  .done (StoreIR32 c regs eax)

def ExecuteInst_xchg_rm8_r8 : Program R :=
  LoadRm8 c regs fun rm8 =>
    let r8 := LoadR8 c regs
    StoreRm8 c regs r8 fun regs => .done (StoreR8 c regs rm8)

def ExecuteInst_xchg_rm16_r16 : Program R :=
  LoadRm16 c regs fun rm16 =>
    let r16 := LoadR16 c regs
    StoreRm16 c regs r16 fun regs => .done (StoreR16 c regs rm16)

def ExecuteInst_xchg_rm32_r32 : Program R :=
  LoadRm32 c regs fun rm32 =>
    let r32 := LoadR32 c regs
    StoreRm32 c regs r32 fun regs => .done (StoreR32 c regs rm32)

/-- The host instruction `cmpxchg` stores `r32` if `eax` is the operand, and loads it into `eax`
if not. -/
def ExecuteInst_cmpxchg_rm32_r32 : Program R :=
  LoadRm32 c regs fun rm32 =>
    let r32 := LoadR32 c regs
    let eax := if regs.eax = rm32 then regs.eax else rm32
    let value := if regs.eax = rm32 then r32 else rm32
    let regs := { regs with eflags := flags.cmp32 regs.eflags regs.eax rm32 }
    let regs := regs.Write RegEax eax
    StoreRm32 c regs value fun regs => .done regs

inductive Exchange where
  | xadd_rm8_r8
  | xadd_rm32_r32
  | xchg_ir16_ax
  | xchg_ir32_eax
  | xchg_rm8_r8
  | xchg_rm16_r16
  | xchg_rm32_r32
  | cmpxchg_rm32_r32
  deriving DecidableEq, Repr

/-- The function of an instruction in `execute_inst_fn` -/
def executeExchange : Exchange → Program R
  | .xadd_rm8_r8 => ExecuteInst_xadd_rm8_r8 flags c regs
  | .xadd_rm32_r32 => ExecuteInst_xadd_rm32_r32 flags c regs
  | .xchg_ir16_ax => ExecuteInst_xchg_ir16_ax c regs
  | .xchg_ir32_eax => ExecuteInst_xchg_ir32_eax c regs
  | .xchg_rm8_r8 => ExecuteInst_xchg_rm8_r8 c regs
  | .xchg_rm16_r16 => ExecuteInst_xchg_rm16_r16 c regs
  | .xchg_rm32_r32 => ExecuteInst_xchg_rm32_r32 c regs
  | .cmpxchg_rm32_r32 => ExecuteInst_cmpxchg_rm32_r32 flags c regs

end Exchange

end OISA.X86.IsaMisc
