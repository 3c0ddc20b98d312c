import OISA.Lib.Bits

/-!
# The instruction decoder

Model of `Disassembler.cc` and of `Instruction::Decode`. The lines of `Instruction.def` are a list
of `DefInst`.
-/

namespace OISA.X86.Decoder

open OISA.Lib

/-! ### The tables -/

structure DefInst where
  op1 : ℕ
  op2 : ℕ
  op3 : ℕ
  modrm : ℕ
  imm : ℕ
  prefixes : ℕ
  deriving DecidableEq, Repr

def SKIP : ℕ := 0x0100
def REG : ℕ := 0x0200
def MEM : ℕ := 0x0400
def INDEX : ℕ := 0x1000
def IB : ℕ := 0x2000
def IW : ℕ := 0x4000
def ID : ℕ := 0x8000

def has (word flag : ℕ) : Bool := word &&& flag ≠ 0

structure Info where
  opcode : ℕ
  op1 : ℕ
  op2 : ℕ
  op3 : ℕ
  modrm : ℕ
  imm : ℕ
  prefixes : ℕ
  match_mask : BitVec 32 := 0
  match_result : BitVec 32 := 0
  nomatch_mask : BitVec 32 := 0
  nomatch_result : BitVec 32 := 0
  opindex_shift : ℕ := 0
  opcode_size : ℕ := 0
  modrm_size : ℕ := 0
  imm_size : ℕ := 0
  deriving DecidableEq, Repr

namespace Info

/-- The masks of the bytes behind the opcode -/
def addModrm (info : Info) : Info :=
  if has info.modrm SKIP then info
  else
    let info := { info with modrm_size := 1 }
    let info := if has info.modrm REG then info
      else { info with
        match_mask := 0x38
        match_result := BitVec.ofNat 32 ((info.modrm &&& 0x7) <<< 3) }
    if has info.modrm MEM then { info with
      nomatch_mask := 0xc0
      nomatch_result := 0xc0 }
    else info

def addByte (op : ℕ) (info : Info) : Info :=
  { info with
    opcode_size := info.opcode_size + 1
    match_mask := info.match_mask <<< 8 ||| 0xff
    match_result := info.match_result <<< 8 ||| BitVec.ofNat 32 (op &&& 0xff)
    nomatch_mask := info.nomatch_mask <<< 8
    nomatch_result := info.nomatch_result <<< 8 }

def addIndex (op shift : ℕ) (info : Info) : Info :=
  if has op INDEX then { info with
    match_mask := info.match_mask &&& 0xfffffff8
    opindex_shift := shift }
  else info

def addImm (info : Info) : Info :=
  let info := if has info.imm IB then { info with imm_size := 1 } else info
  let info := if has info.imm IW then { info with imm_size := 2 } else info
  if has info.imm ID then { info with imm_size := 4 } else info

def derive (info : Info) : Info :=
  let info := info.addModrm
  let info := if has info.op3 SKIP then info else info.addByte info.op3
  let info := if has info.op2 SKIP then info else (info.addByte info.op2).addIndex info.op2 8
  ((info.addByte info.op1).addIndex info.op1 0).addImm

end Info

/-- `inst_info`, from the opcode 1 on -/
def instInfo (defs : List DefInst) : List Info :=
  defs.mapIdx fun i d => Info.derive
    { opcode := i + 1
      op1 := d.op1
      op2 := d.op2
      op3 := d.op3
      modrm := d.modrm
      imm := d.imm
      prefixes := d.prefixes }

/-- `dec_table` and `dec_table_0f`, with the lists as they are linked -/
structure DecTables where
  table : ℕ → List Info := fun _ => []
  table0f : ℕ → List Info := fun _ => []

def insertAt (table : ℕ → List Info) (info : Info) (index count : ℕ) : ℕ → List Info :=
  fun i => if index ≤ i ∧ i < index + count then table i ++ [info] else table i

def DecTables.insertInstInfo (tables : DecTables) (info : Info) : DecTables :=
  if info.op1 &&& 0xff = 0x0f then
    let count := if has info.op2 INDEX then 8 else 1
    { tables with table0f := insertAt tables.table0f info (info.op2 &&& 0xff) count }
  else
    let count := if has info.op1 INDEX then 8 else 1
    { tables with table := insertAt tables.table info (info.op1 &&& 0xff) count }

def decTables (defs : List DefInst) : DecTables :=
  (instInfo defs).foldl DecTables.insertInstInfo {}

def asmPrefixes : List UInt8 :=
  [0xf0, 0xf2, 0xf3, 0x66, 0x67, 0x2e, 0x36, 0x3e, 0x26, 0x64, 0x65]

def isPrefix (byte : UInt8) : Bool := asmPrefixes.contains byte

/-! ### Decoding -/

inductive Reg where
  | none
  | eax
  | ecx
  | edx
  | ebx
  | esp
  | ebp
  | esi
  | edi
  | es
  | cs
  | ss
  | ds
  | fs
  | gs
  deriving DecidableEq, Repr

def regEaxPlus (i : ℕ) : Reg :=
  [Reg.eax, .ecx, .edx, .ebx, .esp, .ebp, .esi, .edi].getD i .none

structure Instruction where
  eip : ℕ := 0
  size : ℕ := 0
  opcode : ℕ := 0
  prefix_size : ℕ := 0
  opcode_size : ℕ := 0
  modrm_size : ℕ := 0
  sib_size : ℕ := 0
  disp_size : ℕ := 0
  imm_size : ℕ := 0
  opindex : ℕ := 0
  segment : Reg := .none
  prefixes : ℕ := 0
  op_size : ℕ := 0
  addr_size : ℕ := 0
  modrm : ℕ := 0
  modrm_mod : ℕ := 0
  modrm_reg : ℕ := 0
  modrm_rm : ℕ := 0
  sib : ℕ := 0
  sib_scale : ℕ := 0
  sib_index : ℕ := 0
  sib_base : ℕ := 0
  disp : ℤ := 0
  imm : ℕ := 0
  ea_base : Reg := .none
  ea_index : Reg := .none
  ea_scale : ℕ := 0
  reg : ℕ := 0
  deriving DecidableEq, Repr

inductive DecodeError where
  | outside
  | error (message : String)
  deriving DecidableEq, Repr

def load (width : ℕ) (buffer : List UInt8) : Except DecodeError ℕ :=
  if width ≤ buffer.length then .ok (leNat (buffer.take width)) else .error .outside

def PrefixRep : ℕ := 0x01
def PrefixRepnz : ℕ := 0x02
def PrefixAddr : ℕ := 0x08
def PrefixOp : ℕ := 0x10

/-- The `switch` over the prefixes -/
def decodePrefix (inst : Instruction) (byte : UInt8) : Except DecodeError Instruction :=
  if byte = 0xf0 then .ok inst
  else if byte = 0xf2 then .ok { inst with prefixes := inst.prefixes ||| PrefixRepnz }
  else if byte = 0xf3 then .ok { inst with prefixes := inst.prefixes ||| PrefixRep }
  else if byte = 0x66 then .ok { inst with
    prefixes := inst.prefixes ||| PrefixOp
    op_size := 2 }
  else if byte = 0x67 then .ok { inst with
    prefixes := inst.prefixes ||| PrefixAddr
    addr_size := 2 }
  else if byte = 0x2e then .ok { inst with segment := .cs }
  else if byte = 0x36 then .ok { inst with segment := .ss }
  else if byte = 0x3e then .ok { inst with segment := .ds }
  else if byte = 0x26 then .ok { inst with segment := .es }
  else if byte = 0x64 then .ok { inst with segment := .fs }
  else if byte = 0x65 then .ok { inst with segment := .gs }
  else .error (.error "Invalid prefix")

def decodePrefixes : List UInt8 → Instruction → Except DecodeError (Instruction × List UInt8)
  | [], _ => .error .outside
  | byte :: buffer, inst =>
    if isPrefix byte then do
      let inst ← decodePrefix inst byte
      decodePrefixes buffer { inst with prefix_size := inst.prefix_size + 1 }
    else .ok (inst, byte :: buffer)

def Info.matches (prefixes : ℕ) (buf32 : BitVec 32) (info : Info) : Bool :=
  !(info.nomatch_mask ≠ 0 && buf32 &&& info.nomatch_mask = info.nomatch_result) &&
    (buf32 &&& info.match_mask = info.match_result && info.prefixes = prefixes)

def modrmTable (mod rm : ℕ) : Reg × ℕ × ℕ :=
  if mod = 3 then (.none, 0, 0)
  else
    let disp := if mod = 1 then 1 else if mod = 2 then 4 else 0
    if rm = 4 then (.none, disp, 1)
    else if mod = 0 ∧ rm = 5 then (.none, 4, 0)
    else (regEaxPlus rm, disp, 0)

def eaScaleTable (scale : ℕ) : ℕ := [1, 2, 4, 8].getD scale 0

def signed (width n : ℕ) : ℤ := (BitVec.ofNat (8 * width) n).toInt

/-- The SIB byte, split into its fields -/
def Instruction.splitSib (inst : Instruction) (sib : ℕ) : Instruction :=
  let sib_base := sib &&& 0x07
  let inst := { inst with
    sib := sib
    sib_scale := (sib &&& 0xc0) >>> 6
    sib_index := (sib &&& 0x38) >>> 3
    sib_base := sib_base
    ea_scale := eaScaleTable ((sib &&& 0xc0) >>> 6)
    ea_index := if (sib &&& 0x38) >>> 3 = 4 then .none else regEaxPlus ((sib &&& 0x38) >>> 3)
    ea_base := regEaxPlus sib_base }
  if sib_base = 5 ∧ inst.modrm_mod = 0 then { inst with
    ea_base := .none
    disp_size := 4 }
  else inst

def decodeSib (inst : Instruction) (buffer : List UInt8) :
    Except DecodeError (Instruction × List UInt8) :=
  if inst.sib_size = 0 then .ok (inst, buffer)
  else do
    let sib ← load 1 buffer
    .ok (inst.splitSib sib, buffer.drop inst.sib_size)

def decodeDisp (inst : Instruction) (buffer : List UInt8) :
    Except DecodeError (Instruction × List UInt8) :=
  if inst.disp_size = 1 ∨ inst.disp_size = 2 ∨ inst.disp_size = 4 then do
    let disp ← load inst.disp_size buffer
    .ok ({ inst with disp := signed inst.disp_size disp }, buffer.drop inst.disp_size)
  else .ok (inst, buffer.drop inst.disp_size)

/-- The ModR/M byte, split into its fields, with what `modrm_table` says about it -/
def Instruction.splitModrm (inst : Instruction) (modrm : ℕ) : Instruction :=
  let mod := (modrm &&& 0xc0) >>> 6
  let rm := modrm &&& 0x07
  { inst with
    modrm := modrm
    modrm_mod := mod
    modrm_reg := (modrm &&& 0x38) >>> 3
    modrm_rm := rm
    reg := (modrm &&& 0x38) >>> 3
    ea_base := (modrmTable mod rm).1
    disp_size := (modrmTable mod rm).2.1
    sib_size := (modrmTable mod rm).2.2 }

def decodeModrm (inst : Instruction) (buffer : List UInt8) :
    Except DecodeError (Instruction × List UInt8) :=
  if inst.modrm_size = 0 then .ok (inst, buffer)
  else do
    let modrm ← load 1 buffer
    let (inst, buffer) ← decodeSib (inst.splitModrm modrm) (buffer.drop inst.modrm_size)
    decodeDisp inst buffer

def decodeImm (imm_size : ℕ) (inst : Instruction) (buffer : List UInt8) :
    Except DecodeError Instruction := do
  let inst := { inst with imm_size := imm_size }
  let inst ←
    if imm_size = 1 ∨ imm_size = 2 ∨ imm_size = 4 then do
      let imm ← load imm_size buffer
      pure { inst with imm := imm }
    else pure inst
  pure { inst with
    size := inst.prefix_size + inst.opcode_size + inst.modrm_size + inst.sib_size +
      inst.disp_size + inst.imm_size }

def decodeList (defs : List DefInst) (buf8 : ℕ) (buffer : List UInt8) :
    Except DecodeError (List Info) :=
  if buf8 = 0x0f then do
    let index ← load 1 (buffer.drop 1)
    pure ((decTables defs).table0f index)
  else pure ((decTables defs).table buf8)

/-- The fields of an instruction whose entry is found -/
def decodeFields (info : Info) (buf32 : ℕ) (inst : Instruction) (buffer : List UInt8) :
    Except DecodeError Instruction := do
  let inst := { inst with
    opcode := info.opcode
    opcode_size := info.opcode_size
    modrm_size := info.modrm_size
    opindex := (buf32 >>> info.opindex_shift) &&& 0x7 }
  let (inst, buffer) ← decodeModrm inst (buffer.drop info.opcode_size)
  decodeImm info.imm_size inst buffer

/-- `Instruction::Decode`, with the tables for the definitions `defs` -/
def decode (defs : List DefInst) (buffer : List UInt8) (eip : ℕ) :
    Except DecodeError Instruction := do
  let (inst, buffer) ← decodePrefixes buffer { eip := eip, op_size := 4, addr_size := 4 }
  let buf8 ← load 1 buffer
  let buf32 ← load 4 buffer
  let list ← decodeList defs buf8 buffer
  match list.find? (Info.matches inst.prefixes (BitVec.ofNat 32 buf32)) with
  | none => pure inst
  | some info => decodeFields info buf32 inst buffer

end OISA.X86.Decoder
