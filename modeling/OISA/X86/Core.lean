import Mathlib.Tactic
import OISA.X86.Uop

/-!
# Contexts, threads and cores

`emulator/Context.h`, `timing/Thread.h` and `timing/Core.h`: what the pipeline and the scheduler
keep of a software context, of a hardware thread and of a core.
-/

namespace OISA.X86

structure Context where
  /-- State bits; `StateRunning` is `running` below. -/
  suspended : Bool := false
  finished : Bool := false
  zombie : Bool := false
  locked : Bool := false
  spec_mode : Bool := false
  alloc : Bool := false
  mapped : Bool := false
  /-- Hardware thread that the context is mapped to -/
  thread : Option ℕ := none
  thread_affinity : ℕ → Bool := fun _ => true
  evict_signal : Bool := false
  allocate_cycle : ℕ := 0
  evict_cycle : ℕ := 0
  sched_priority : ℤ := 0
  /-- Instruction pointer, and its copy in the backup registers -/
  eip : BitVec 32 := 0
  backup_eip : BitVec 32 := 0

namespace Context

/-- `StateRunning`, as `UpdateState` keeps it -/
def running (context : Context) : Bool :=
  !context.suspended && !context.finished && !context.zombie && !context.locked

/-- `Context::UpdateState`: a finished context and a zombie lose every other state bit, except
for `StateAlloc` and `StateMapped`. -/
def UpdateState (context : Context) : Context :=
  if context.finished then
    { context with suspended := false, zombie := false, locked := false, spec_mode := false }
  else if context.zombie then
    { context with suspended := false, locked := false, spec_mode := false }
  else context

/-- `Context::setEip`: leaving the path of the program enters speculative mode. -/
def setEip (context : Context) (eip : BitVec 32) : Context :=
  if context.eip ≠ eip ∧ ¬context.spec_mode then
    { UpdateState { context with spec_mode := true } with backup_eip := context.eip, eip := eip }
  else { context with eip := eip }

def Recover (context : Context) : Option Context :=
  if context.spec_mode then
    some { UpdateState { context with spec_mode := false } with eip := context.backup_eip }
  else none

end Context

inductive Queue
  | Fetch
  | Uop
  | ReorderBuffer
  | Instruction
  | Load
  | Store
  deriving DecidableEq, Repr

structure QueuedUop extends Uop where
  /-- Hardware thread that the uop belongs to -/
  thread : ℕ
  from_trace_cache : Bool := false
  first_speculative_mode : Bool := false
  ready : Bool := false
  dispatched : Bool := false
  issued : Bool := false
  completed : Bool := false
  complete_when : ℕ := 0
  /-- `in_fetch_queue`, `in_uop_queue` and so on -/
  in_queue : Queue → Bool := fun _ => false
  in_event_queue : Bool := false

structure Thread where
  context : Option ℕ := none
  mapped_contexts : List ℕ := []
  fetch_neip : BitVec 32 := 0
  queue : Queue → List ℕ := fun _ => []
  fetch_queue_occupancy : ℕ := 0
  trace_cache_queue_occupancy : ℕ := 0
  /-- The uops that the thread fetched and the ones that it committed, in order -/
  fetched : List ℕ := []
  committed : List ℕ := []

/-- Whether a queue is private to a thread or shared by the threads of a core -/
inductive Kind
  | Private
  | Shared
  deriving DecidableEq, Repr

/-- Stage at which the pipeline recovers from a mispeculation -/
inductive RecoverKind
  | Writeback
  | Commit
  deriving DecidableEq, Repr

structure Config where
  num_threads : ℕ := 1
  context_quantum : ℕ := 100000
  recover_kind : RecoverKind := .Writeback
  decode_width : ℕ := 4
  reorder_buffer_kind : Kind := .Private
  reorder_buffer_size : ℕ := 64
  fetch_queue_size : ℕ := 64
  instruction_queue_kind : Kind := .Private
  instruction_queue_size : ℕ := 40
  load_store_queue_kind : Kind := .Private
  load_store_queue_size : ℕ := 20
  uop_queue_size : ℕ := 32
  trace_cache_queue_size : ℕ := 32
  /-- Block size of the instruction cache -/
  block_size : BitVec 32 := 64

/-- A core (`Core.h`) with the uops and the contexts of the simulation; `memory` holds the uops
whose memory access is in flight. -/
structure Core where
  cycle : ℕ := 0
  num_uops : ℕ := 0
  uops : ℕ → QueuedUop := fun _ => { opcode := .Other, thread := 0 }
  contexts : ℕ → Option Context := fun _ => none
  threads : ℕ → Thread := fun _ => {}
  event_queue : List ℕ := []
  memory : List ℕ := []
  reorder_buffer_occupancy : ℤ := 0
  instruction_queue_occupancy : ℤ := 0
  load_store_queue_occupancy : ℤ := 0

namespace Core

def setUop (core : Core) (u : ℕ) (f : QueuedUop → QueuedUop) : Core :=
  { core with uops := Function.update core.uops u (f (core.uops u)) }

def setThread (core : Core) (t : ℕ) (f : Thread → Thread) : Core :=
  { core with threads := Function.update core.threads t (f (core.threads t)) }

def setContext (core : Core) (c : ℕ) (context : Option Context) : Core :=
  { core with contexts := Function.update core.contexts c context }

def allocated (core : Core) (t : ℕ) : Option Context :=
  (core.threads t).context.bind core.contexts

end Core

namespace Thread

def isPipelineEmpty (thread : Thread) : Bool :=
  (thread.queue .Fetch).isEmpty && (thread.queue .Uop).isEmpty &&
    (thread.queue .ReorderBuffer).isEmpty

def pipeline (thread : Thread) : List ℕ :=
  thread.queue .ReorderBuffer ++ (thread.queue .Uop ++ thread.queue .Fetch)

end Thread

end OISA.X86
