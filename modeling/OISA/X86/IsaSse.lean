import OISA.X86.IsaMisc

/-!
# Shuffles and shifts of XMM registers

Model of `shufps`, `pshufd`, `pextrw`, `pinsrw`, `pslldq`, `psrldq` and of `psrlq` with an
immediate count (`ContextIsaSse.cc`, `ContextIsaSse2.cc`), with the functions of
`ContextIsaXmm.cc` that load and store their operands.
-/

namespace OISA.X86.IsaSse

open OISA.Lib
open Decoder (Instruction)
open Registers
open Speculation (Word Regs)
open IsaMisc (Program Bus Fields getEffectiveAddress toBytes ofBytes StoreR32)

abbrev XmmValue := BitVec 128

namespace XmmValue

variable (x : XmmValue) (index : ℕ)

def getAsUChar : BitVec 8 := lane 8 x index
def getAsUShort : BitVec 16 := lane 16 x index
def getAsInt : BitVec 32 := lane 32 x index
def getAsUInt64 : BitVec 64 := lane 64 x index

def setAsUChar (value : BitVec 8) : XmmValue := setLane x index value
def setAsUShort (value : BitVec 16) : XmmValue := setLane x index value
def setAsInt (value : BitVec 32) : XmmValue := setLane x index value
def setAsUInt64 (value : BitVec 64) : XmmValue := setLane x index value

def zero : XmmValue := 0

end XmmValue

open XmmValue

/-- What `Regs` has beside the main registers: the floating point stack and the XMM registers -/
structure Vectors (F : Type) where
  fpu : F
  xmm : ℕ → XmmValue

section Operands

variable {F : Type} (c : Fields) (regs : Regs (Vectors F))

def setXMM (index : ℕ) (value : XmmValue) : Regs (Vectors F) :=
  { regs with rest := { regs.rest with xmm := Function.update regs.rest.xmm index value } }

def getImmByte (inst : Instruction) : BitVec 8 := BitVec.ofNat 8 inst.imm

def LoadXmm : XmmValue := regs.rest.xmm c.inst.modrm_reg

def StoreXmm (value : XmmValue) : Regs (Vectors F) := setXMM regs c.inst.modrm_reg value

def LoadXmmM128 (next : XmmValue → Program (Vectors F)) : Program (Vectors F) :=
  let value := fun content_lo content_hi =>
    setAsUInt64 (setAsUInt64 zero 0 content_lo) 1 content_hi
  if c.inst.modrm_mod = 3 then
    let xmm := regs.rest.xmm c.inst.modrm_rm
    next (value (getAsUInt64 xmm 0) (getAsUInt64 xmm 1))
  else
    match getEffectiveAddress c regs with
    | .error message => .throws message
    | .ok address =>
      .memoryRead address 8 fun content_lo =>
        .memoryRead (address + 8) 8 fun content_hi =>
          next (value (ofBytes 64 content_lo) (ofBytes 64 content_hi))

def StoreXmmM128 (value : XmmValue) : Program (Vectors F) :=
  let content_lo := getAsUInt64 value 0
  let content_hi := getAsUInt64 value 1
  if c.inst.modrm_mod = 3 then
    let xmm := regs.rest.xmm c.inst.modrm_rm
    .done (setXMM regs c.inst.modrm_rm (setAsUInt64 (setAsUInt64 xmm 0 content_lo) 1 content_hi))
  else
    match getEffectiveAddress c regs with
    | .error message => .throws message
    | .ok address =>
      .memoryWrite address (toBytes content_lo)
        (.memoryWrite (address + 8) (toBytes content_hi) (.done regs))

def LoadR32M16 (next : BitVec 16 → Program (Vectors F)) : Program (Vectors F) :=
  if c.inst.modrm_mod = 3 then next ((regs.Read (c.inst.modrm_rm + RegEax)).setWidth 16)
  else
    match getEffectiveAddress c regs with
    | .error message => .throws message
    | .ok address => .memoryRead address 2 fun buffer => next (ofBytes 16 buffer)

end Operands

/-! ### The values that the instructions compute -/

def shufpsValue (dest src : XmmValue) (imm : BitVec 8) : XmmValue :=
  let dest := setAsInt dest 0 (getAsInt dest (imm &&& 3).toNat)
  let dest := setAsInt dest 1 (getAsInt dest ((imm >>> 2) &&& 3).toNat)
  let dest := setAsInt dest 2 (getAsInt src ((imm >>> 4) &&& 3).toNat)
  setAsInt dest 3 (getAsInt src ((imm >>> 6) &&& 3).toNat)

def pshufdValue (src : XmmValue) (imm : BitVec 8) : XmmValue :=
  let dest := setAsUChar zero 0 (getAsUChar src (imm &&& 3).toNat)
  let dest := setAsUChar dest 1 (getAsUChar src ((imm >>> 2) &&& 3).toNat)
  let dest := setAsUChar dest 2 (getAsUChar src ((imm >>> 4) &&& 3).toNat)
  setAsUChar dest 3 (getAsUChar src ((imm >>> 6) &&& 3).toNat)

def byteCount (imm : BitVec 8) : ℕ := if 16 < imm.toNat then 16 else imm.toNat

def pslldqValue (src : XmmValue) (imm : BitVec 8) : XmmValue :=
  let count := byteCount imm
  (List.range (16 - count)).foldl
    (fun dest i => setAsUChar dest (i + count) (getAsUChar src i)) zero

def psrldqValue (src : XmmValue) (imm : BitVec 8) : XmmValue :=
  let count := byteCount imm
  (List.range (16 - count)).foldl
    (fun dest i => setAsUChar dest i (getAsUChar src (i + count))) zero

def hostPsrlq (count dest : XmmValue) : XmmValue :=
  ofLanes 128 fun i => getAsUInt64 dest i >>> (getAsUInt64 count 0).toNat

def psrlqValue (dest : XmmValue) (imm : BitVec 8) : XmmValue :=
  let src := setAsUChar zero 1 imm
  hostPsrlq src dest

section Instructions

variable {F : Type} (c : Fields) (regs : Regs (Vectors F))

def ExecuteInst_pextrw_r32_xmmm128_imm8 : Program (Vectors F) :=
  LoadXmmM128 c regs fun xmm =>
    let imm8 := getImmByte c.inst &&& 7
    .done (StoreR32 c regs ((getAsUShort xmm imm8.toNat).setWidth 32))

def ExecuteInst_pinsrw_xmm_r32m16_imm8 : Program (Vectors F) :=
  let xmm := LoadXmm c regs
  LoadR32M16 c regs fun r32m16 =>
    let imm8 := getImmByte c.inst &&& 7
    .done (StoreXmm c regs (setAsUShort xmm imm8.toNat r32m16))

def ExecuteInst_shufps_xmm_xmmm128_imm8 : Program (Vectors F) :=
  let dest := LoadXmm c regs
  LoadXmmM128 c regs fun src => .done (StoreXmm c regs (shufpsValue dest src (getImmByte c.inst)))

def ExecuteInst_pshufd_xmm_xmmm128_imm8 : Program (Vectors F) :=
  LoadXmmM128 c regs fun src => .done (StoreXmm c regs (pshufdValue src (getImmByte c.inst)))

def ExecuteInst_pslldq_xmmm128_imm8 : Program (Vectors F) :=
  LoadXmmM128 c regs fun src => StoreXmmM128 c regs (pslldqValue src (getImmByte c.inst))

def ExecuteInst_psrldq_xmmm128_imm8 : Program (Vectors F) :=
  LoadXmmM128 c regs fun src => StoreXmmM128 c regs (psrldqValue src (getImmByte c.inst))

def ExecuteInst_psrlq_xmmm128_imm8 : Program (Vectors F) :=
  LoadXmmM128 c regs fun dest => StoreXmmM128 c regs (psrlqValue dest (getImmByte c.inst))

inductive Packed where
  | shufps
  | pshufd
  | pextrw
  | pinsrw
  | pslldq
  | psrldq
  | psrlq
  deriving DecidableEq

/-- The function of an instruction in `execute_inst_fn` -/
def executePacked : Packed → Program (Vectors F)
  | .shufps => ExecuteInst_shufps_xmm_xmmm128_imm8 c regs
  | .pshufd => ExecuteInst_pshufd_xmm_xmmm128_imm8 c regs
  | .pextrw => ExecuteInst_pextrw_r32_xmmm128_imm8 c regs
  | .pinsrw => ExecuteInst_pinsrw_xmm_r32m16_imm8 c regs
  | .pslldq => ExecuteInst_pslldq_xmmm128_imm8 c regs
  | .psrldq => ExecuteInst_psrldq_xmmm128_imm8 c regs
  | .psrlq => ExecuteInst_psrlq_xmmm128_imm8 c regs

end Instructions

/-! ### What a program leaves -/

/-- The registers and the writes to memory, in their order, if the program ends without an
error -/
def effect {R : Type} (bus : Bus) : Program R → Option (Regs R × List (Word × List UInt8))
  | .done regs => some (regs, [])
  | .throws _ => none
  | .divideException => none
  | .memoryRead address size next =>
    match bus.load address size with
    | none => none
    | some buffer => effect bus (next buffer)
  | .memoryWrite address buffer next =>
    if bus.stores address buffer then
      (effect bus next).map fun x => (x.1, (address, buffer) :: x.2)
    else none

end OISA.X86.IsaSse
