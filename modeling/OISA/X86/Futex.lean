import OISA.X86.Contexts

/-!
# Futexes

Model of `Context::FutexWake` and of `ExecuteSyscall_futex`. The contexts wait in the list of
suspended contexts, which all processes share; every memory has its own bytes.
-/

namespace OISA.X86.Contexts

abbrev Word := BitVec 32

structure Machine where
  emulator : Emulator
  bytes : ℕ → Word → BitVec 8

namespace Emulator

variable (s : Emulator)

/-- The test of `FutexWake` -/
def waits (futex bitset : Word) (c : ℕ) : Bool :=
  s.getState c .futex && (s.ctx c).wakeup_futex = futex &&
    (s.ctx c).wakeup_futex_bitset &&& bitset ≠ 0

def wakeup_context (futex bitset : Word) : Option ℕ :=
  s.suspended.foldl (fun wakeup c =>
    if s.waits futex bitset c then
      match wakeup with
      | none => some c
      | some w =>
        if (s.ctx c).wakeup_futex_sleep < (s.ctx w).wakeup_futex_sleep then some c else some w
    else wakeup) none

def futexWake (s : Emulator) (futex bitset : Word) : ℕ → Emulator × ℕ
  | 0 => (s, 0)
  | count + 1 =>
    match s.wakeup_context futex bitset with
    | none => (s, 0)
    | some w =>
      let woken := futexWake (s.wakeUp w) futex bitset count
      (woken.1, woken.2 + 1)

def requeue (addr1 addr2 : Word) : Emulator :=
  s.suspended.foldl (fun s c =>
    if s.getState c .futex && (s.ctx c).wakeup_futex = addr1 then
      s.setCtx c { s.ctx c with wakeup_futex := addr2 }
    else s) s

def futexSleep (c : ℕ) (addr1 bitset : Word) : Emulator :=
  let s := { s.setCtx c { s.ctx c with
      wakeup_futex := addr1
      wakeup_futex_bitset := bitset
      wakeup_futex_sleep := s.futex_sleep_count + 1 } with
    futex_sleep_count := s.futex_sleep_count + 1 }
  (s.setState c .suspended).setState c .futex

end Emulator

namespace Machine

variable (m : Machine)

/-- The four bytes at an address, the lowest first -/
def read (c : ℕ) (addr : Word) : Word :=
  let bytes := m.bytes (m.emulator.ctx c).memory
  bytes (addr + 3) ++ bytes (addr + 2) ++ bytes (addr + 1) ++ bytes addr

def write (c : ℕ) (addr value : Word) : Machine :=
  let memory := (m.emulator.ctx c).memory
  { m with bytes := Function.update m.bytes memory fun a =>
      if a - addr < 4 then value.extractLsb' (8 * (a - addr).toNat) 8 else m.bytes memory a }

end Machine

structure FutexArgs where
  addr1 : Word
  op : Word
  val1 : Word
  timeout_ptr : Word
  addr2 : Word
  val3 : Word
  deriving DecidableEq, Repr

def FutexArgs.cmd (args : FutexArgs) : ℕ := (args.op &&& ~~~(256 ||| 128)).toNat

def FutexArgs.bitset (args : FutexArgs) (bitset_cmd : ℕ) : Word :=
  if args.cmd = bitset_cmd then args.val3 else 0xffffffff

def wakeOp (op : ℕ) (oldval oparg : Word) : Option Word :=
  match op with
  | 0 => some oparg
  | 1 => some (oldval + oparg)
  | 2 => some (oldval ||| oparg)
  | 3 => some (oldval &&& oparg)
  | 4 => some (oldval ^^^ oparg)
  | _ => none

/-- The comparison of `FUTEX_WAKE_OP` -/
def wakeCmp (cmp : ℕ) (oldval cmparg : Word) : Option Bool :=
  match cmp with
  | 0 => some (oldval = cmparg)
  | 1 => some (oldval ≠ cmparg)
  | 2 => some (oldval.slt cmparg)
  | 3 => some (oldval.sle cmparg)
  | 4 => some (cmparg.slt oldval)
  | 5 => some (cmparg.sle oldval)
  | _ => none

def FutexArgs.wakeOp (args : FutexArgs) (oldval : Word) : Option (Word × Bool) := do
  let newval ← Contexts.wakeOp (args.val3 >>> 28).toNat oldval ((args.val3 >>> 12) &&& 0xfff)
  let cond ← wakeCmp ((args.val3 >>> 24) &&& 0xf).toNat oldval (args.val3 &&& 0xfff)
  return (newval, cond)

def eagain : Word := -11

/-- `ExecuteSyscall_futex`, if it does not throw; the result has the value it returns. -/
def executeSyscall_futex (m : Machine) (c : ℕ) (args : FutexArgs) : Option (Machine × Word) :=
  let s := m.emulator
  let futex := m.read c args.addr1
  match args.cmd with
  | 0 | 9 =>
    if futex ≠ args.val1 then some (m, eagain)
    else if args.timeout_ptr ≠ 0 then none
    else some ({ m with emulator := s.futexSleep c args.addr1 (args.bitset 9) }, 0)
  | 1 | 10 =>
    let woken := s.futexWake args.addr1 (args.bitset 10) args.val1.toNat
    some ({ m with emulator := woken.1 }, woken.2)
  | 4 =>
    if args.timeout_ptr ≠ 0x7fffffff then none
    else if futex ≠ args.val3 then some (m, eagain)
    else
      let woken := s.futexWake args.addr1 0xffffffff args.val1.toNat
      some ({ m with emulator := woken.1.requeue args.addr1 args.addr2 }, woken.2)
  | 5 => do
    let (newval, cond) ← args.wakeOp (m.read c args.addr2)
    let m := m.write c args.addr2 newval
    let woken := s.futexWake args.addr1 0xffffffff args.val1.toNat
    if cond then
      let woken' := woken.1.futexWake args.addr2 0xffffffff args.timeout_ptr.toNat
      return ({ m with emulator := woken'.1 }, woken.2 + woken'.2)
    else
      return ({ m with emulator := woken.1 }, woken.2)
  | _ => none

/-- `ExecuteSyscall` for this system call: a context that got suspended gets its return value
when it is woken up. -/
def executeSyscall (m : Machine) (c : ℕ) (args : FutexArgs) : Option Machine := do
  let (m, ret) ← executeSyscall_futex m c args
  let s := m.emulator
  if s.getState c .suspended then return m
  else return { m with emulator := s.setCtx c { s.ctx c with eax := ret } }

/-! ### Programs that use futexes -/

/-- No context yet, and no memory that has been written -/
def Machine.empty : Machine := { emulator := .empty, bytes := fun _ _ => 0 }

/-- What a program does: it starts, clones itself, stores a word or calls `futex`. -/
inductive Act where
  | load
  | clone (c : ℕ) (vm thread : Bool)
  | store (c : ℕ) (addr value : Word)
  | futex (c : ℕ) (args : FutexArgs)
  deriving DecidableEq, Repr

/-- One action of a running context. A forked context has a copy of the memory. -/
def act (action : Act) (m : Machine) : Option Machine :=
  let s := m.emulator
  match action with
  | .load => some { m with emulator := s.loadProgram }
  | .clone c vm thread =>
    if c ∈ s.running then
      let bytes := if vm then m.bytes else
        Function.update m.bytes s.next_memory (m.bytes (s.ctx c).memory)
      some { emulator := s.clone c vm thread, bytes := bytes }
    else none
  | .store c addr value => if c ∈ s.running then some (m.write c addr value) else none
  | .futex c args => if c ∈ s.running then executeSyscall m c args else none

end OISA.X86.Contexts
