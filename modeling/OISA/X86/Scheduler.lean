import OISA.X86.Core

/-!
# Context scheduler

`timing/ThreadScheduler.cc` and the parts of `timing/CpuScheduler.cc` that it calls.
-/

namespace OISA.X86

namespace Cpu

def AllocateContext (core : Core) (c : ℕ) : Option Core := do
  let context ← core.contexts c
  let t ← context.thread
  guard ((core.threads t).context = none)
  guard context.mapped
  guard (!context.alloc)
  guard (!context.evict_signal)
  let core := core.setContext c (some { context with
    allocate_cycle := core.cycle
    alloc := true })
  some (core.setThread t fun thread => { thread with
    context := some c
    fetch_neip := context.eip })

end Cpu

namespace Thread

def MapContext (core : Core) (t c : ℕ) : Option Core := do
  let context ← core.contexts c
  guard (context.thread = none)
  guard (!context.mapped)
  guard (!context.alloc)
  let core := core.setContext c (some { context with thread := some t, mapped := true })
  some (core.setThread t fun thread => { thread with
    mapped_contexts := thread.mapped_contexts ++ [c] })

/-- `Thread::UnmapContext`: a finished context is freed. -/
def UnmapContext (core : Core) (t c : ℕ) : Option Core := do
  let context ← core.contexts c
  guard context.thread.isSome
  guard context.mapped
  guard (!context.alloc)
  guard ((core.threads t).context ≠ some c)
  let core := core.setContext c (if context.finished then none
    else some { context with mapped := false, thread := none })
  some (core.setThread t fun thread => { thread with
    mapped_contexts := thread.mapped_contexts.erase c })

def EvictContext (core : Core) (t : ℕ) : Option Core := do
  let c ← (core.threads t).context
  let context ← core.contexts c
  guard context.alloc
  guard context.mapped
  guard (!context.spec_mode)
  guard ((core.threads t).queue .ReorderBuffer).isEmpty
  guard context.evict_signal
  let core := core.setContext c (some { context with
    alloc := false
    evict_cycle := core.cycle
    evict_signal := false })
  some (core.setThread t fun thread => { thread with context := none, fetch_neip := 0 })

/-- `Thread::EvictContextSignal`: an empty pipeline is evicted right away. -/
def EvictContextSignal (core : Core) (t : ℕ) : Option Core := do
  let c ← (core.threads t).context
  let context ← core.contexts c
  guard context.alloc
  guard context.mapped
  guard (!context.evict_signal)
  guard (context.thread = some t)
  let core := core.setContext c (some { context with evict_signal := true })
  if (core.threads t).isPipelineEmpty then EvictContext core t else some core

def findCandidate (core : Core) (t : ℕ) (valid : Context → Bool) : List ℕ → Option Bool
  | [] => some false
  | c :: contexts => do
    let context ← core.contexts c
    if some c ≠ (core.threads t).context ∧ context.running ∧ valid context then some true
    else findCandidate core t valid contexts

def checkRunning (core : Core) (t : ℕ) : Option Core := do
  let context ← core.allocated t
  guard context.alloc
  guard context.mapped
  if !context.evict_signal && !context.running then EvictContextSignal core t else some core

def checkAffinity (core : Core) (t : ℕ) : Option Core := do
  let context ← core.allocated t
  if !context.evict_signal && !context.thread_affinity t then EvictContextSignal core t
  else some core

/-- Third check: the quantum of the allocated context expired, or another context of a higher
priority interrupts it. The flag says that `Schedule` returns here. -/
def checkQuantum (cfg : Config) (core : Core) (t : ℕ) : Option (Core × Bool) := do
  let c ← (core.threads t).context
  let context ← core.contexts c
  let mapped_contexts := (core.threads t).mapped_contexts
  let renewed := core.setContext c (some { context with allocate_cycle := core.cycle })
  if !context.evict_signal && decide (context.allocate_cycle + cfg.context_quantum ≤ core.cycle)
  then
    guard (1 ≤ mapped_contexts.length)
    if mapped_contexts.length = 1 then
      guard (mapped_contexts.head? = some c)
      some (renewed, true)
    else
      let found ← findCandidate core t
        (fun temp => decide (context.sched_priority ≤ temp.sched_priority)) mapped_contexts
      if found then (EvictContextSignal core t).map (·, false) else some (renewed, false)
  else if !context.evict_signal then
    let found ← findCandidate core t
      (fun temp => decide (context.sched_priority < temp.sched_priority)) mapped_contexts
    if found then (EvictContextSignal core t).map (·, false) else some (core, false)
  else some (core, false)

/-- Contexts other than the allocated one are unmapped if they lost affinity or finished. -/
def unmapContexts (t : ℕ) : List ℕ → Core → Option Core
  | [], core => some core
  | c :: contexts, core =>
    if some c = (core.threads t).context then unmapContexts t contexts core
    else do
      let context ← core.contexts c
      if !context.thread_affinity t || context.finished then
        unmapContexts t contexts (← UnmapContext core t c)
      else unmapContexts t contexts core

/-- The mapped context, running and with affinity, with the oldest `evict_cycle` -/
def selectContext (core : Core) (t : ℕ) : List ℕ → Option ℕ → Option (Option ℕ)
  | [], allocate_context => some allocate_context
  | c :: contexts, allocate_context => do
    let temp ← core.contexts c
    if !temp.thread_affinity t || !temp.running then selectContext core t contexts allocate_context
    else match allocate_context with
      | none => selectContext core t contexts (some c)
      | some a => do
        let best ← core.contexts a
        if temp.evict_cycle < best.evict_cycle ∧ best.sched_priority ≤ temp.sched_priority then
          selectContext core t contexts (some c)
        else selectContext core t contexts (some a)

def scheduleMapped (core : Core) (t : ℕ) : Option Core := do
  let core ← unmapContexts t (core.threads t).mapped_contexts core
  if (core.threads t).context.isSome then some core
  else match ← selectContext core t (core.threads t).mapped_contexts none with
    | none => some core
    | some c => Cpu.AllocateContext core c

def Schedule (cfg : Config) (core : Core) (t : ℕ) : Option Core :=
  if (core.threads t).context.isSome then do
    let core ← checkRunning core t
    let core ← checkAffinity core t
    let (core, returned) ← checkQuantum cfg core t
    if returned then some core else scheduleMapped core t
  else scheduleMapped core t

end Thread

end OISA.X86
