import OISA.X86.Speculation

/-!
# Signals of a context

Model of `CheckSignalHandlerIntr`, `ReturnFromSignalHandler`, of the system calls that call
`ProcessEvents` and of `ProcessEvents` for one context.
-/

namespace OISA.X86.Signals

open OISA.Lib OISA.X86.Contexts OISA.X86.Speculation

abbrev Word := BitVec 32

/-- Where a context is blocked: `read`, `write`, `poll` and `sigsuspend` can be interrupted. -/
inductive Wait where
  | read
  | write
  | poll
  | sigsuspend
  | other
  deriving DecidableEq, Repr

/-- A context, with the flags of its signal handlers, the copy of the blocked signals that
`sigsuspend` makes and where it is blocked -/
structure Process (R : Type) where
  context : Context R
  flags : ℕ → Word
  backup : BitVec 64
  wait : Option Wait

/-- What another system call does: it returns a value or blocks. -/
structure Call (R : Type) where
  regs : Regs R
  spec_mem : SpecMem
  handler : ℕ → Word
  flags : ℕ → Word
  outcome : Word ⊕ Wait

/-- The program and the rest of the emulator: which instruction is `int 0x80`, what the others do,
which number is that of this context and what the other system calls do -/
structure System (R : Type) where
  int80 : Bool → Regs R → SpecMem → Bool
  exec : Bool → Regs R → SpecMem → Option (Regs R × SpecMem)
  self : Word → Bool
  call : Regs R → SpecMem → (ℕ → Word) → (ℕ → Word) → Option (Call R)

def SA_RESTART : Word := 0x10000000

def EINTR : Word := 4

section Delivery

variable {R : Type}

def withoutSignal (pending : BitVec 64) (sig : ℕ) : BitVec 64 := pending &&& ~~~(1#64 <<< (sig - 1))

def sendSignal (c : Context R) (sig : ℕ) : Context R :=
  if 1 ≤ sig ∧ sig ≤ 64 then { c with pending := c.pending ||| (1#64 <<< (sig - 1)) } else c

def returnFromSignalHandler (fuel : ℕ) (c : Context R) : Option (Context R) := do
  guard (c.state .handler)
  let c := c.clearState .handler
  let m ← c.memory.Unmap fuel c.ret_code_ptr Memory.PageSize
  let regs ← c.signal_regs
  return { c.setMemory m with
    regs := regs
    signal_regs := none }

def interrupted (flags : Word) (r : Regs R) : Regs R :=
  if flags &&& SA_RESTART ≠ 0 then { r with eip := r.eip - 2 } else { r with eax := -EINTR }

def readInt80 (flags : Word) (c : Context R) : Option (Context R) :=
  if flags &&& SA_RESTART ≠ 0 then
    let o := c.memory.Read (c.regs.eip - 2) (List.replicate 2 0)
    if o.error.isNone ∧ o.buffer = [0xcd, 0x80] then some (c.setMemory o.state) else none
  else some c

def checkSignalHandlerIntr (fuel : ℕ) (flags : ℕ → Word) (c : Context R) : Option (Context R) := do
  guard (¬ c.state .handler)
  let sig ← c.pendingSignal
  let c ← readInt80 (flags sig) c
  let c ← runSignalHandler fuel { c with regs := interrupted (flags sig) c.regs } sig
  return { c with pending := withoutSignal c.pending sig }

end Delivery

section Events

variable {R : Type} (fuel : ℕ)

def Process.wakeup (p : Process R) : Process R :=
  { p with
    context := p.context.clearState .suspended
    wait := none }

/-- What the context waits for may be ready: a value for `eax` and the memory. -/
def Process.complete (ready : Option (Word × Memory)) (p : Process R) : Process R :=
  match ready with
  | none => p
  | some (ret, m) => Process.wakeup { p with
      context := { p.context.setMemory m with regs := { p.context.regs with eax := ret } } }

/-- The function that `CanWakeup` calls, and `Wakeup`. The host thread of the context may be
active. -/
def resume (thread_active : Bool) (ready : Option (Word × Memory)) (p : Process R) :
    Option (Process R) :=
  match p.wait with
  | none => some p
  | some .other => some (p.complete ready)
  | some .sigsuspend =>
    if p.context.pendingSignal.isSome then
      (checkSignalHandlerIntr fuel p.flags p.context).map fun c =>
        Process.wakeup { p with context := { c with blocked := p.backup } }
    else some p
  | some _ =>
    if thread_active then some p
    else if p.context.pendingSignal.isSome then
      (checkSignalHandlerIntr fuel p.flags p.context).map fun c =>
        Process.wakeup { p with context := c }
    else some (p.complete ready)

def wakeSuspended (thread_active : Bool) (ready : Option (Word × Memory)) (p : Process R) :
    Option (Process R) :=
  if p.context.state .suspended then resume fuel thread_active ready p else some p

def launchHandlers (p : Process R) : Option (Process R) :=
  if p.context.state .running then
    (checkSignalHandler p.context fuel).map fun c => { p with context := c }
  else some p

def processEvents (force thread_active : Bool) (ready : Option (Word × Memory)) (p : Process R) :
    Option (Process R) :=
  if force then (wakeSuspended fuel thread_active ready p).bind (launchHandlers fuel) else some p

end Events

/-! ### System calls -/

def SyscallCode_kill : Word := 37

def SyscallCode_sigreturn : Word := 119

def SyscallCode_rt_sigprocmask : Word := 175

def SyscallCode_rt_sigsuspend : Word := 179

def SyscallCode_tgkill : Word := 270

def processesEvents (code : Word) : Bool :=
  code = SyscallCode_kill || code = SyscallCode_sigreturn || code = SyscallCode_rt_sigprocmask ||
    code = SyscallCode_rt_sigsuspend || code = SyscallCode_tgkill

section Syscalls

variable {R : Type} (S : System R) (fuel : ℕ)

def readSignalSet (m : Memory) (address : Word) : Option (BitVec 64 × Memory) :=
  let o := m.Read address (List.replicate 8 0)
  if o.error.isNone then
    some (BitVec.ofNat 64 (o.buffer.foldr (fun b x => b.toNat + 256 * x) 0), o.state)
  else none

def signalSetObject : List UInt8 := [64, 0, 0, 0, 0, 0, 0, 0]

def newBlocked (how : Word) (blocked set : BitVec 64) : Option (BitVec 64) :=
  match how.toNat with
  | 0 => some (blocked ||| set)
  | 1 => some (blocked &&& ~~~set)
  | 2 => some set
  | _ => none

def changeBlocked (how set_ptr : Word) (c : Context R) : Option (Context R) :=
  if set_ptr = 0 then some c
  else do
    let (set, m) ← readSignalSet c.memory set_ptr
    let blocked ← newBlocked how c.blocked set
    return { c.setMemory m with blocked := blocked }

def writeBlocked (old_set_ptr : Word) (c : Context R) : Option (Context R) :=
  if old_set_ptr = 0 then some c
  else
    let o := c.memory.Write old_set_ptr signalSetObject
    if o.error.isNone then some (c.setMemory o.state) else none

def rt_sigprocmask (p : Process R) : Option (Process R) := do
  let r := p.context.regs
  let c ← changeBlocked r.ebx r.ecx p.context
  let c ← writeBlocked r.edx c
  return { p with context := c }

def rt_sigsuspend (p : Process R) : Option (Process R) := do
  let (set, m) ← readSignalSet p.context.memory p.context.regs.ebx
  guard (¬ p.context.state .suspended)
  let c := { p.context.setMemory m with blocked := set }
  return { p with
    context := c.setState .suspended
    backup := p.context.blocked
    wait := some .sigsuspend }

/-- The system calls that call `ProcessEvents`, up to there -/
def beforeEvents (p : Process R) : Option (Process R) :=
  let r := p.context.regs
  let kill (pid sig : Word) : Process R :=
    if S.self pid then { p with context := sendSignal p.context sig.toNat } else p
  if r.eax = SyscallCode_kill then some (kill r.ebx r.ecx)
  else if r.eax = SyscallCode_tgkill then some (kill r.ecx r.edx)
  else if r.eax = SyscallCode_rt_sigprocmask then rt_sigprocmask p
  else if r.eax = SyscallCode_rt_sigsuspend then rt_sigsuspend p
  else (returnFromSignalHandler fuel p.context).map fun c => { p with context := c }

def Process.setEax (p : Process R) (ret : Word) : Process R :=
  { p with context := { p.context with regs := { p.context.regs with eax := ret } } }

def executeSyscall (p : Process R) : Option (Process R) :=
  let code := p.context.regs.eax
  let finish (ret : Word) (p : Process R) : Process R :=
    if code ≠ SyscallCode_sigreturn ∧ ¬ p.context.state .suspended then p.setEax ret else p
  if processesEvents code then do
    let p ← beforeEvents S fuel p
    let p ← processEvents fuel true false none p
    return finish 0 p
  else do
    let call ← S.call p.context.regs p.context.spec_mem p.context.handler p.flags
    let c := { p.context with
      regs := call.regs
      spec_mem := call.spec_mem
      handler := call.handler }
    match call.outcome with
    | .inl ret => return finish ret { p with
        context := c
        flags := call.flags }
    | .inr wait => return { p with
        context := c.setState .suspended
        flags := call.flags
        wait := some wait }

def Process.atSyscall (p : Process R) : Process R :=
  let r := p.context.regs
  { p with context := { p.context with regs := { r with eip := r.eip + 2 } } }

inductive Event where
  | execute
  | signal (sig : ℕ)
  | processEvents (force thread_active : Bool) (ready : Option (Word × Memory))
  | setEip (eip : Word)
  | recover

def executesSyscall (p : Process R) : Bool :=
  S.int80 (p.context.state .specMode) p.context.regs p.context.spec_mem &&
    !p.context.state .specMode

def step (event : Event) (p : Process R) : Option (Process R) :=
  match event with
  | .execute => do
    guard (p.context.state .running)
    let spec := p.context.state .specMode
    if executesSyscall S p then executeSyscall S fuel p.atSyscall
    else if S.int80 spec p.context.regs p.context.spec_mem then some p.atSyscall
    else
      let (regs, spec_mem) ← S.exec spec p.context.regs p.context.spec_mem
      return { p with context := { p.context with
        regs := regs
        spec_mem := spec_mem } }
  | .signal sig => some { p with context := sendSignal p.context sig }
  | .processEvents force thread_active ready => processEvents fuel force thread_active ready p
  | .setEip eip => some { p with context := p.context.setEip eip }
  | .recover =>
    if p.context.state .specMode then some { p with context := p.context.recover } else some p

end Syscalls

end OISA.X86.Signals
