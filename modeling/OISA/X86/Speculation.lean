import OISA.Memory.SpecMem
import OISA.X86.Contexts

/-!
# Speculative mode of a context

Model of `Context::setEip`, `Context::Execute`, `Context::Recover` and of what takes a signal:
`CheckSignalHandler` and `RunSignalHandler`.
-/

namespace OISA.X86.Speculation

open OISA.Lib OISA.X86.Contexts

abbrev Word := BitVec 32

/-- The registers; `rest` has the floating point stack and the XMM registers. -/
structure Regs (R : Type) where
  eax : Word
  ecx : Word
  edx : Word
  ebx : Word
  esp : Word
  ebp : Word
  esi : Word
  edi : Word
  es : BitVec 16
  cs : BitVec 16
  ss : BitVec 16
  ds : BitVec 16
  fs : BitVec 16
  gs : BitVec 16
  eip : Word
  eflags : Word
  fpu_ctrl : BitVec 16
  rest : R
  deriving DecidableEq

/-- What an instruction does: it accesses memory, calls the system and ends with new registers,
or throws. -/
inductive Inst (R : Type) where
  | done (regs : Regs R)
  | throws (regs : Regs R)
  | memoryRead (address : Word) (size : ℕ) (next : List UInt8 → Inst R)
  | memoryWrite (address : Word) (buffer : List UInt8) (next : Inst R)
  | int80 (next : Inst R)

structure Context (R : Type) where
  regs : Regs R
  backup_regs : Regs R
  state : State
  spec_mem : SpecMem
  pending : BitVec 64
  blocked : BitVec 64
  handler : ℕ → Word
  signal_regs : Option (Regs R)
  ret_code_ptr : Word

namespace Context

variable {R : Type} (c : Context R)

def memory : Memory := c.spec_mem.memory

def setMemory (memory : Memory) : Context R :=
  { c with spec_mem := { c.spec_mem with memory := memory } }

def setState (flag : Flag) : Context R :=
  { c with state := normalize (Function.update c.state flag true) }

def clearState (flag : Flag) : Context R :=
  { c with state := normalize (Function.update c.state flag false) }

def setEip (eip : Word) : Context R :=
  let c := if c.regs.eip ≠ eip ∧ ¬ c.state .specMode then
      let c := c.setState .specMode
      { c with
        backup_regs := c.regs
        regs := { c.regs with fpu_ctrl := c.regs.fpu_ctrl ||| 0x3f } }
    else c
  { c with regs := { c.regs with eip := eip } }

/-- `Context::Recover`, in speculative mode -/
def recover : Context R :=
  let c := c.clearState .specMode
  { c with
    regs := c.backup_regs
    spec_mem := c.spec_mem.Clear }

end Context

/-! ### Instructions -/

/-- `Memory::getBuffer`: no bytes, if they are not in one page; `none` if it throws. -/
def getBuffer (m : Memory) (address : Word) (size : ℕ) (access : Memory.AccessType) :
    Option (Option (List UInt8) × Memory) :=
  let offset := (address &&& (Memory.PageSize - 1#32)).toNat
  if Memory.PageSize.toNat < offset + size then some (none, m)
  else
    match m.getPage address with
    | none => some (none, m)
    | some page =>
      if m.safe && !page.allows access then none
      else
        let data := page.AllocateData
        some (some ((List.range size).map fun i => data (offset + i)),
          m.setPage address (some (page.setData data)))

/-- The bytes that `Execute` decodes, and the memory in its default mode -/
def fetchBuffer (safe_mode : Bool) (m : Memory) (spec_mode : Bool) (eip : Word) :
    Option (List UInt8 × Memory) :=
  match getBuffer { m with safe := if spec_mode then false else safe_mode } eip 20 .Exec with
  | none => none
  | some (some buffer, m) => some (buffer, { m with safe := safe_mode })
  | some (none, m) =>
    let o := { m with safe := false }.Access eip (List.replicate 20 0) .Exec
    match o.error with
    | some _ => none
    | none => some (o.buffer, { o.state with safe := safe_mode })

section Execute

variable {R : Type} (syscall : Context R → Option (Context R))

/-- The function that executes an instruction, with `MemoryRead` and `MemoryWrite` -/
def executeInst : Inst R → Context R → Option (Context R)
  | .done regs, c => some { c with regs := regs }
  | .throws regs, c => if c.state .specMode then some { c with regs := regs } else none
  | .memoryRead address size next, c =>
    if c.state .specMode then
      let o := c.spec_mem.Read address (List.replicate size 0)
      match o.error with
      | some _ => none
      | none => executeInst (next o.buffer) { c with spec_mem := o.state }
    else
      let o := c.memory.Read address (List.replicate size 0)
      match o.error with
      | some _ => none
      | none => executeInst (next o.buffer) (c.setMemory o.state)
  | .memoryWrite address buffer next, c =>
    if c.state .specMode then
      let o := c.spec_mem.Write address buffer
      match o.error with
      | some _ => none
      | none => executeInst next { c with spec_mem := o.state }
    else
      let o := c.memory.Write address buffer
      match o.error with
      | some _ => none
      | none => executeInst next (c.setMemory o.state)
  | .int80 next, c =>
    if c.state .specMode then executeInst next c
    else (syscall c).bind (executeInst next)

/-- `Context::Execute`. `decode` has the decoder and the functions of the instructions. -/
def execute (safe_mode : Bool) (decode : List UInt8 → Regs R → Inst R) (c : Context R) :
    Option (Context R) :=
  match fetchBuffer safe_mode c.memory (c.state .specMode) c.regs.eip with
  | none => none
  | some (buffer, m) => executeInst syscall (decode buffer c.regs) (c.setMemory m)

end Execute

/-! ### Signals -/

def wordBytes (x : Word) : List UInt8 :=
  (List.range 4).map fun i => UInt8.ofNat (x >>> (8 * i)).toNat

def signal_ret_code : List UInt8 := [0x58, 0xb8, 0x77, 0, 0, 0, 0xcd, 0x80, 0]

def SIGCHLD : ℕ := 17

section Signals

variable {R : Type} (c : Context R)

def Context.pendingSignal : Option ℕ :=
  (List.range' 1 64).find? fun sig =>
    c.pending.getLsbD (sig - 1) && !c.blocked.getLsbD (sig - 1)

def signalFrame (sig : ℕ) : List Word :=
  let r := c.regs
  [c.ret_code_ptr, BitVec.ofNat 32 sig, r.gs.zeroExtend 32, r.fs.zeroExtend 32,
    r.es.zeroExtend 32, r.ds.zeroExtend 32, r.edi, r.esi, r.ebp, r.esp, r.ebx, r.edx, r.ecx,
    r.eax, 0, 0, r.eip, r.cs.zeroExtend 32, r.eflags, r.esp, r.ss.zeroExtend 32, 0, 0, 0]

def runSignalHandler (fuel : ℕ) (c : Context R) (sig : ℕ) : Option (Context R) :=
  if sig = SIGCHLD ∧ c.handler sig = 0 then some c
  else do
    let ptr ← c.memory.MapSpace fuel Memory.PageSize Memory.PageSize
    let m ← c.memory.Map fuel ptr Memory.PageSize
      (Memory.AccessType.Exec.bits ||| Memory.AccessType.Init.bits)
    let o := m.Init ptr signal_ret_code
    guard o.error.isNone
    let c := { c.setMemory o.state with
      signal_regs := some c.regs
      ret_code_ptr := ptr }
    let frame := (signalFrame c sig).flatMap wordBytes
    let esp := c.regs.esp - BitVec.ofNat 32 frame.length
    let o := c.memory.Write esp frame
    guard o.error.isNone
    guard (¬ c.state .handler)
    let c := (c.setMemory o.state).setState .handler
    guard (c.handler sig ≠ 0)
    return { c with regs := { c.regs with
      esp := esp
      eip := c.handler sig } }

def checkSignalHandler (fuel : ℕ) : Option (Context R) :=
  if c.state .handler then some c
  else
    match c.pendingSignal with
    | none => some c
    | some sig => (runSignalHandler fuel c sig).map fun c =>
      { c with pending := c.pending &&& ~~~(1#64 <<< (sig - 1)) }

def processEvents (fuel : ℕ) (process_events_force : Bool) : Option (Context R) :=
  if process_events_force && c.state .running then checkSignalHandler c fuel else some c

end Signals

/-! ### Runs in speculative mode -/

/-- What happens to a context. A signal is sent by another context. -/
inductive Event where
  | execute
  | setEip (eip : Word)
  | signal (sig : ℕ)
  | processEvents (force : Bool)
  deriving DecidableEq, Repr

section Step

variable {R : Type} (syscall : Context R → Option (Context R))

def step (fuel : ℕ) (safe_mode : Bool) (decode : List UInt8 → Regs R → Inst R) (event : Event)
    (c : Context R) : Option (Context R) :=
  match event with
  | .execute => execute syscall safe_mode decode c
  | .setEip eip => some (c.setEip eip)
  | .signal sig =>
    if 1 ≤ sig ∧ sig ≤ 64 then some { c with pending := c.pending ||| (1#64 <<< (sig - 1)) }
    else some c
  | .processEvents force => processEvents c fuel force

end Step

end OISA.X86.Speculation
