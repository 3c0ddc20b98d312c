import OISA.Lib.Runs
import OISA.X86.Pipeline

/-!
# Runs of a core

The steps that a core and its environment take: the scheduler and the stages of its threads, the
end of a memory access, the next cycle, and what the emulator does to a context.
-/

namespace OISA.X86

open Lib

namespace Core

/-- A step of a core, with what the parts that are not modelled answer -/
inductive Op
  /-- `Thread::Schedule` -/
  | Schedule (t : ℕ)
  /-- `Cpu::MapContext`, which chooses a thread that the context has affinity with -/
  | Map (t c : ℕ)
  /-- The emulator changes the state, the affinity and the priority of a context; one that finished
  or became a zombie does not run again. -/
  | Update (c : ℕ) (suspended finished zombie locked : Bool) (thread_affinity : ℕ → Bool)
      (sched_priority : ℤ)
  /-- A context that is not mapped to the core comes, changes or goes. -/
  | Outside (c : ℕ) (context : Option Context)
  | Commit (t : ℕ) (available : ℕ → Bool) (quantum : ℕ)
  | Writeback
  | IssueLoadQueue (t : ℕ) (available canAccess : ℕ → Bool) (quantum : ℕ)
  | IssueStoreQueue (t : ℕ) (canAccess : ℕ → Bool) (quantum : ℕ)
  | IssueInstructionQueue (t : ℕ) (available : ℕ → Bool) (Reserve : ℕ → ℕ) (quantum : ℕ)
  | MemoryAccessEnd (u : ℕ)
  | Dispatch (t : ℕ) (canRename : ℕ → Bool) (quantum : ℕ)
  | Decode (t : ℕ) (isInFlightAccess : ℕ → Bool)
  | Fetch (t : ℕ) (access : Bool)
      (entry : Option (List (BitVec 32 × Thread.Instruction) × BitVec 32))
      (instructions : List Thread.Instruction)
  | NextCycle

def mapContext (core : Core) (t c : ℕ) : Option Core := do
  let context ← core.contexts c
  guard (!context.evict_signal)
  guard (context.thread_affinity t)
  Thread.MapContext core t c

def isOutside (context : Context) : Bool :=
  !context.mapped && !context.alloc && !context.evict_signal && !context.spec_mode &&
    context.thread.isNone

/-- A step of a core; a thread fetches only if it can. -/
def step (cfg : Config) : Op → Core → Option Core
  | .Schedule t, core => Thread.Schedule cfg core t
  | .Map t c, core => mapContext core t c
  | .Update c suspended finished zombie locked thread_affinity sched_priority, core => do
    let context ← core.contexts c
    some (core.setContext c (some (Context.UpdateState { context with
      finished := context.finished || finished
      zombie := context.zombie || zombie
      suspended, locked, thread_affinity, sched_priority })))
  | .Outside c context, core => do
    guard ((core.contexts c).all isOutside)
    guard (context.all isOutside)
    some (core.setContext c context)
  | .Commit t available quantum, core => Thread.commitStage core t available quantum
  | .Writeback, core => Thread.Writeback cfg core
  | .IssueLoadQueue t available canAccess quantum, core =>
    Thread.IssueLoadQueue t available canAccess quantum ((core.threads t).queue .Load) core
  | .IssueStoreQueue t canAccess quantum, core =>
    Thread.IssueStoreQueue t canAccess quantum ((core.threads t).queue .Store) core
  | .IssueInstructionQueue t available Reserve quantum, core =>
    Thread.IssueInstructionQueue t available Reserve quantum
      ((core.threads t).queue .Instruction) core
  | .MemoryAccessEnd u, core => Thread.memoryAccessEnd core u
  | .Dispatch t canRename quantum, core => Thread.Dispatch cfg t canRename quantum core
  | .Decode t isInFlightAccess, core => Thread.Decode cfg core t isInFlightAccess
  | .Fetch t access entry instructions, core =>
    if Thread.canFetch cfg core t access then Thread.Fetch cfg core t entry instructions
    else some core
  | .NextCycle, core => some { core with cycle := core.cycle + 1 }

end Core

end OISA.X86
