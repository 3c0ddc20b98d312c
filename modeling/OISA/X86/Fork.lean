import OISA.X86.AddressSpace
import OISA.X86.FileTable
import OISA.X86.Speculation

/-!
# Contexts that clone themselves

Model of `Memory::Clone`, `Context::Clone`, `Context::Fork` and `ExecuteSyscall_clone`.
-/

namespace OISA.X86.Fork

open OISA.Lib OISA.Memory OISA.X86.AddressSpace
open OISA.X86.Speculation (Regs)

structure SignalHandler where
  handler : Word := 0
  flags : Word := 0
  restorer : Word := 0
  mask : BitVec 64 := 0

abbrev SignalHandlerTable := ℕ → SignalHandler

structure Refs where
  memory : ℕ
  signal_handler_table : ℕ
  file_table : ℕ

structure Objects where
  memories : ℕ → Heap
  signal_handler_tables : ℕ → SignalHandlerTable
  file_tables : ℕ → FileTable

structure Context (R : Type) where
  regs : Regs R
  refs : Refs
  mmu_space : ℕ
  loader : ℕ
  glibc_segment_base : Word := 0
  glibc_segment_limit : Word := 0
  parent : Option ℕ := none
  group_parent : Option ℕ := none
  exit_signal : Word := 0
  clear_child_tid : Word := 0

def Refs.Below (r : Refs) (n : ℕ) : Prop :=
  r.memory < n ∧ r.signal_handler_table < n ∧ r.file_table < n

/-- The contexts and their objects, with numbers below `next` -/
structure Emulator (R : Type) where
  contexts : ℕ → Option (Context R)
  objects : Objects
  next : ℕ
  allocated : ∀ c context, contexts c = some context → c < next ∧ context.refs.Below next

structure Emulator.Caller {R : Type} (s : Emulator R) where
  id : ℕ
  context : Context R
  found : s.contexts id = some context

/-- What `clone` throws; the panic about flags that are not supported has their names. -/
inductive CloneError where
  | unsupported (flags : Word)
  | panic (message : String)
  | memory (error : Memory.Error)

def copyPage (src_page : Page) (m : Memory) : Option Memory := do
  let (m, _) ← m.newPage src_page.tag src_page.perm
  match src_page.data with
  | none => some m
  | some data =>
    let o := m.Access src_page.tag ((List.range PageSize.toNat).map data) .Init
    if o.error.isNone then some o.state else none

def cloneMemory (pages : List Page) (heap : Heap) : Option Heap :=
  (run copyPage pages { safe := false }).map fun m =>
    ⟨{ m with safe := heap.memory.safe }, heap.heap_break⟩

def SIM_CLONE_VM : Word := 0x100
def SIM_CLONE_FS : Word := 0x200
def SIM_CLONE_FILES : Word := 0x400
def SIM_CLONE_SIGHAND : Word := 0x800
def SIM_CLONE_THREAD : Word := 0x10000
def SIM_CLONE_SYSVSEM : Word := 0x40000
def SIM_CLONE_SETTLS : Word := 0x80000
def SIM_CLONE_PARENT_SETTID : Word := 0x100000
def SIM_CLONE_CHILD_CLEARTID : Word := 0x200000
def SIM_CLONE_CHILD_SETTID : Word := 0x1000000

def sharingFlags : Word := SIM_CLONE_FS ||| SIM_CLONE_FILES ||| SIM_CLONE_SIGHAND

def clone_supported_flags : Word :=
  SIM_CLONE_VM ||| sharingFlags ||| SIM_CLONE_THREAD ||| SIM_CLONE_SYSVSEM ||| SIM_CLONE_SETTLS |||
    SIM_CLONE_PARENT_SETTID ||| SIM_CLONE_CHILD_CLEARTID ||| SIM_CLONE_CHILD_SETTID

section Syscall

variable {R : Type} (regs : Regs R) (s : Emulator R) (p : s.Caller)

def cloneFlags : Word := regs.ebx &&& ~~~0xff

def hasFlag (flag : Word) : Bool := cloneFlags regs &&& flag ≠ 0

def childRegs : Regs R :=
  { regs with
    esp := if regs.ecx = 0 then regs.esp else regs.ecx
    eax := 0 }

def childRefs : Refs :=
  if hasFlag p.context.regs SIM_CLONE_VM then p.context.refs else ⟨s.next, s.next, s.next⟩

lemma childRefs_below : (childRefs s p).Below (s.next + 1) := by
  unfold childRefs
  split_ifs
  · obtain ⟨-, hmemory, hhandlers, hfiles⟩ := s.allocated p.id p.context p.found
    exact ⟨hmemory.trans (Nat.lt_succ_self _), hhandlers.trans (Nat.lt_succ_self _),
      hfiles.trans (Nat.lt_succ_self _)⟩
  · exact ⟨Nat.lt_succ_self _, Nat.lt_succ_self _, Nat.lt_succ_self _⟩

/-- The new context, with its glibc segment -/
def child (segment : Word × Word) : Context R :=
  let regs := p.context.regs
  let thread := hasFlag regs SIM_CLONE_THREAD
  { p.context with
    regs := childRegs regs
    refs := childRefs s p
    mmu_space := if hasFlag regs SIM_CLONE_VM then p.context.mmu_space else s.next
    glibc_segment_base := segment.1
    glibc_segment_limit := segment.2
    parent := some p.id
    group_parent := if thread then p.context.group_parent.or (some p.id) else none
    exit_signal := if thread then 0 else regs.ebx &&& 0xff
    clear_child_tid := if hasFlag regs SIM_CLONE_CHILD_CLEARTID then regs.edi else 0 }

def Objects.fork (o : Objects) (next : ℕ) (copy : Heap) : Objects where
  memories := Function.update o.memories next copy
  signal_handler_tables := Function.update o.signal_handler_tables next fun _ => {}
  file_tables := Function.update o.file_tables next FileTable.init

/-- The objects after `Context::Clone` or `Context::Fork` -/
def cloneObjects (pages : List Page) : Except CloneError Objects :=
  let flags := cloneFlags p.context.regs
  if hasFlag p.context.regs SIM_CLONE_VM then
    if flags &&& sharingFlags ≠ sharingFlags then .error (.panic "Unsupported flags with CLONE_VM.")
    else .ok s.objects
  else if flags &&& sharingFlags ≠ 0 then .error (.panic "Unsupported flags with CLONE_VM")
  else
    match cloneMemory pages (s.objects.memories p.context.refs.memory) with
    | none => .error (.memory .Abort)
    | some copy => .ok (s.objects.fork s.next copy)

def storeIf (flag : Bool) (m : ℕ) (address value : Word) (o : Objects) : Except CloneError Objects :=
  if flag then
    let outcome := (o.memories m).memory.Write address (leBytes 4 value.toNat)
    match outcome.error with
    | some error => .error (.memory error)
    | none => .ok { o with
        memories := Function.update o.memories m { o.memories m with memory := outcome.state } }
  else .ok o

/-- `CLONE_SETTLS`: the segment that a `sim_user_desc` describes -/
def setTls (context : Context R) (o : Objects) : Except CloneError (Objects × Word × Word) :=
  if hasFlag context.regs SIM_CLONE_SETTLS then
    let uinfo := (o.memories context.refs.memory).memory.Read context.regs.esi (List.replicate 16 0)
    let word (i : ℕ) : Word := BitVec.ofNat 32 (leNat ((uinfo.buffer.drop i).take 4))
    match uinfo.error with
    | some error => .error (.memory error)
    | none =>
      if word 12 &&& 1 = 0 then .error (.panic "Only 32-bit segments supported")
      else
        let limit := if word 12 &&& 0x10 ≠ 0 then word 8 <<< 12 else word 8
        (storeIf true context.refs.memory context.regs.esi 6 o).map (·, word 4, limit)
  else .ok (o, context.glibc_segment_base, context.glibc_segment_limit)

/-- A new context with a number of its own -/
def Emulator.add (context : Context R) (objects : Objects)
    (hrefs : context.refs.Below (s.next + 1)) : Emulator R where
  contexts := Function.update s.contexts s.next (some context)
  objects := objects
  next := s.next + 1
  allocated := by
    intro c context' hc
    by_cases hnew : c = s.next
    · subst hnew
      rw [Function.update_self, Option.some.injEq] at hc
      subst hc
      exact ⟨Nat.lt_succ_self _, hrefs⟩
    · rw [Function.update_of_ne hnew] at hc
      obtain ⟨hlt, hmemory, hhandlers, hfiles⟩ := s.allocated c context' hc
      exact ⟨hlt.trans (Nat.lt_succ_self _), hmemory.trans (Nat.lt_succ_self _),
        hhandlers.trans (Nat.lt_succ_self _), hfiles.trans (Nat.lt_succ_self _)⟩

/-- `ExecuteSyscall_clone`, which returns the number of the new context -/
def executeSyscall_clone (pages : List Page) : Except CloneError (ℕ × Emulator R) :=
  let regs := p.context.regs
  if cloneFlags regs &&& ~~~clone_supported_flags ≠ 0 then .error (.unsupported (cloneFlags regs))
  else do
    let id : Word := BitVec.ofNat 32 s.next
    let objects ← cloneObjects s p pages
    let objects ← storeIf (hasFlag regs SIM_CLONE_PARENT_SETTID) p.context.refs.memory regs.edx id
      objects
    let objects ← storeIf (hasFlag regs SIM_CLONE_CHILD_SETTID) (childRefs s p).memory regs.edi id
      objects
    let (objects, segment) ← setTls p.context objects
    return (s.next, s.add (child s p segment) objects (childRefs_below s p))

end Syscall

end OISA.X86.Fork
