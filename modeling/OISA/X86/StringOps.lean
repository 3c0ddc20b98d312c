import Mathlib.Tactic

/-!
# Repeated string instructions

Model of the string instructions with a `rep`, `repz` or `repnz` prefix, of `StartRepInst` and of
the part of `Context::Execute` about `last_eip` and `current_eip`.
-/

namespace OISA.X86.StringOps

abbrev Word := BitVec 32

structure Regs where
  eax : Word
  ecx : Word
  esi : Word
  edi : Word
  eflags : Word
  eip : Word
  deriving DecidableEq, Repr

def ZF : ℕ := 6

def DF : ℕ := 10

def Regs.getFlag (r : Regs) (flag : ℕ) : Bool := r.eflags.getLsbD flag

def flagWord (cf pf af zf sf of : Bool) : Word :=
  (if cf then 0x1 else 0) ||| (if pf then 0x4 else 0) ||| (if af then 0x10 else 0) |||
    (if zf then 0x40 else 0) ||| (if sf then 0x80 else 0) ||| (if of then 0x800 else 0)

def arithmeticFlags : Word := 0x8d5

def cmp {w : ℕ} (a b : BitVec w) (eflags : Word) : Word :=
  let diff := a - b
  let low := (List.range 8).countP fun i => diff.getLsbD i
  (eflags &&& ~~~arithmeticFlags) ||| flagWord (a < b) (low % 2 = 0)
    (a.setWidth 4 < b.setWidth 4) (a = b) diff.msb (a.msb != b.msb && diff.msb != a.msb)

inductive Op where
  | movs
  | stos
  | cmps
  | scas
  deriving DecidableEq, Repr

inductive Prefix where
  | rep
  | repz
  | repnz
  deriving DecidableEq, Repr

/-- The instructions of `OP_REP_IMPL`, `OP_REPZ_IMPL` and `OP_REPNZ_IMPL` that are implemented -/
inductive Inst where
  | rep_movsb
  | rep_movsd
  | rep_stosb
  | rep_stosd
  | repz_cmpsb
  | repz_cmpsd
  | repz_scasb
  | repz_scasd
  | repnz_cmpsb
  | repnz_cmpsd
  | repnz_scasb
  | repnz_scasd
  deriving DecidableEq, Repr

namespace Inst

def op : Inst → Op
  | rep_movsb | rep_movsd => .movs
  | rep_stosb | rep_stosd => .stos
  | repz_cmpsb | repz_cmpsd | repnz_cmpsb | repnz_cmpsd => .cmps
  | repz_scasb | repz_scasd | repnz_scasb | repnz_scasd => .scas

/-- The size of an element -/
def size : Inst → ℕ
  | rep_movsb | rep_stosb | repz_cmpsb | repz_scasb | repnz_cmpsb | repnz_scasb => 1
  | rep_movsd | rep_stosd | repz_cmpsd | repz_scasd | repnz_cmpsd | repnz_scasd => 4

def repeats : Inst → Prefix
  | rep_movsb | rep_movsd | rep_stosb | rep_stosd => .rep
  | repz_cmpsb | repz_cmpsd | repz_scasb | repz_scasd => .repz
  | repnz_cmpsb | repnz_cmpsd | repnz_scasb | repnz_scasd => .repnz

def isCmpsd : Inst → Bool
  | repz_cmpsd | repnz_cmpsd => true
  | _ => false

end Inst

structure Access where
  store : Bool
  address : Word
  size : ℕ
  deriving DecidableEq, Repr

/-- What is known about the string instruction that is executed, and the address of the
instruction executed last -/
structure Tracking where
  current_eip : Word
  str_op_count : Word
  str_op_esi : Word
  str_op_edi : Word
  str_op_dir : Word
  deriving DecidableEq, Repr

structure Machine (Mem : Type) where
  regs : Regs
  mem : Mem
  track : Tracking
  deriving DecidableEq

structure MemoryOps (Mem : Type) where
  read : Mem → Word → (n : ℕ) → Option (BitVec (8 * n))
  write : Mem → Word → (n : ℕ) → BitVec (8 * n) → Option Mem

def Regs.stride (r : Regs) (n : ℕ) : Word :=
  if r.getFlag DF then -BitVec.ofNat 32 n else BitVec.ofNat 32 n

section Execute

variable {Mem : Type} (ops : MemoryOps Mem)

def executeStringInst_movs (n : ℕ) (r : Regs) (m : Mem) : Option (Regs × Mem) := do
  let x ← ops.read m r.esi n
  let m ← ops.write m r.edi n x
  return ({ r with
    edi := r.edi + r.stride n
    esi := r.esi + r.stride n }, m)

def executeStringInst_stos (n : ℕ) (r : Regs) (m : Mem) : Option (Regs × Mem) := do
  let m ← ops.write m r.edi n (r.eax.setWidth (8 * n))
  return ({ r with edi := r.edi + r.stride n }, m)

def executeStringInst_cmpsb (r : Regs) (m : Mem) : Option (Regs × Mem) := do
  let op1 ← ops.read m r.esi 1
  let op2 ← ops.read m r.edi 1
  let r := { r with eflags := cmp op1 op2 r.eflags }
  return ({ r with
    esi := r.esi + r.stride 1
    edi := r.edi + r.stride 1 }, m)

def executeStringInst_cmpsd (r : Regs) (m : Mem) : Option (Regs × Mem) := do
  let op1 ← ops.read m r.edi 4
  let op2 ← ops.read m r.esi 4
  let r := { r with eflags := cmp op1 op2 r.eflags }
  return ({ r with
    esi := r.esi + r.stride 4
    edi := r.edi + r.stride 4 }, m)

def executeStringInst_scas (n : ℕ) (r : Regs) (m : Mem) : Option (Regs × Mem) := do
  let x ← ops.read m r.edi n
  let r := { r with eflags := cmp (r.eax.setWidth (8 * n)) x r.eflags }
  return ({ r with edi := r.edi + r.stride n }, m)

def executeStringInst (inst : Inst) : Regs → Mem → Option (Regs × Mem) :=
  match inst.op with
  | .movs => executeStringInst_movs ops inst.size
  | .stos => executeStringInst_stos ops inst.size
  | .cmps => if inst.isCmpsd then executeStringInst_cmpsd ops else executeStringInst_cmpsb ops
  | .scas => executeStringInst_scas ops inst.size

def newUinst (op : Op) (n : ℕ) (esi edi : Word) : List Access :=
  match op with
  | .movs => [⟨false, esi, n⟩, ⟨true, edi, n⟩]
  | .stos => [⟨true, edi, n⟩]
  | .cmps => [⟨false, esi, n⟩, ⟨false, edi, n⟩]
  | .scas => [⟨false, edi, n⟩]

def startRepInst (t : Tracking) (r : Regs) (current_eip : Word) : Tracking :=
  if t.current_eip = current_eip then { t with str_op_count := t.str_op_count + 1 }
  else
    { current_eip := current_eip
      str_op_count := 0
      str_op_esi := r.esi
      str_op_edi := r.edi
      str_op_dir := if r.getFlag DF then -1 else 1 }

def again (inst : Inst) (r : Regs) : Bool :=
  match inst.repeats with
  | .rep => true
  | .repz => r.getFlag ZF
  | .repnz => !r.getFlag ZF

def Tracking.element (t : Tracking) (n : ℕ) (base : Word) : Word :=
  base + t.str_op_count * BitVec.ofNat 32 n * t.str_op_dir

/-- `Execute` at one of the instructions, whose code has `isize` bytes, with the loads and stores
of its micro-instructions -/
def execute (inst : Inst) (isize : Word) (s : Machine Mem) :
    Option (Machine Mem × List Access) := do
  let t := startRepInst s.track s.regs s.regs.eip
  let uinsts := newUinst inst.op inst.size (t.element inst.size t.str_op_esi)
    (t.element inst.size t.str_op_edi)
  let r := { s.regs with eip := s.regs.eip + isize }
  if r.ecx ≠ 0 then
    let (r, m) ← executeStringInst ops inst r s.mem
    let r := { r with ecx := r.ecx - 1 }
    let r := if again inst r then { r with eip := r.eip - isize } else r
    return (⟨r, m, t⟩, uinsts)
  else
    return (⟨r, s.mem, t⟩, uinsts)

def performed (inst : Inst) (r : Regs) : List Access :=
  if r.ecx = 0 then [] else newUinst inst.op inst.size r.esi r.edi

/-- The calls of `Execute` at the instruction until the instruction pointer passes it. -/
def runRep (inst : Inst) (isize : Word) :
    List (Option Tracking) → Machine Mem →
      Option (Machine Mem × List (List Access × List Access))
  | [], _ => none
  | wrongPath :: rest, s => do
    let s := { s with track := wrongPath.getD s.track }
    let (s', uinsts) ← execute ops inst isize s
    if s'.regs.eip = s.regs.eip then
      let (t, calls) ← runRep inst isize rest s'
      return (t, (performed inst s.regs, uinsts) :: calls)
    else if rest = [] then return (s', [(performed inst s.regs, uinsts)])
    else none

end Execute

section Loop

variable {Mem : Type} (ops : MemoryOps Mem)

/-- One element of the loop -/
def element (op : Op) (n : ℕ) (r : Regs) (m : Mem) : Option (Regs × Mem) :=
  let next (r : Regs) : Regs := { r with
    esi := r.esi + r.stride n
    edi := r.edi + r.stride n }
  match op with
  | .movs => do
    let x ← ops.read m r.esi n
    let m ← ops.write m r.edi n x
    return (next r, m)
  | .stos => do
    let m ← ops.write m r.edi n (r.eax.setWidth (8 * n))
    return ({ next r with esi := r.esi }, m)
  | .cmps => do
    let a ← ops.read m r.esi n
    let b ← ops.read m r.edi n
    return ({ next r with eflags := cmp a b r.eflags }, m)
  | .scas => do
    let b ← ops.read m r.edi n
    return ({ next r with
      esi := r.esi
      eflags := cmp (r.eax.setWidth (8 * n)) b r.eflags }, m)

def repLoop (inst : Inst) : ℕ → Regs → Mem → Option (Regs × Mem)
  | 0, r, m => some (r, m)
  | ecx + 1, r, m => do
    let (r, m) ← element ops inst.op inst.size r m
    let r := { r with ecx := BitVec.ofNat 32 ecx }
    if again inst r then repLoop inst ecx r m else return (r, m)

end Loop

end OISA.X86.StringOps
