import OISA.X86.Scheduler

/-!
# Pipeline stages

`timing/Thread.cc`, the stages of `timing/ThreadFetch.cc` to `timing/ThreadRecover.cc`, and the
parts of `timing/Core.cc` and `timing/Cpu.cc` that call them.
-/

namespace OISA.X86

namespace Core

def push (core : Core) (t u : ℕ) (q : Queue) : Core :=
  (core.setUop u fun uop => { uop with in_queue := Function.update uop.in_queue q true }).setThread t
    fun thread => { thread with queue := Function.update thread.queue q (thread.queue q ++ [u]) }

/-- Take a uop out of a queue of its thread, and clear its flag. -/
def take (core : Core) (t u : ℕ) (q : Queue) : Core :=
  (core.setUop u fun uop => { uop with in_queue := Function.update uop.in_queue q false }).setThread t
    fun thread => { thread with queue := Function.update thread.queue q ((thread.queue q).erase u) }

/-- `Uop::Compare`, which returns an `int` -/
def Compare (uop : QueuedUop) (id : ℕ) (other : QueuedUop) (other_id : ℕ) : ℤ :=
  if uop.complete_when ≠ other.complete_when then
    (BitVec.ofInt 32 ((uop.complete_when : ℤ) - other.complete_when)).toInt
  else (BitVec.ofInt 32 ((id : ℤ) - other_id)).toInt

def InsertInEventQueue (core : Core) (u latency : ℕ) : Option Core := do
  guard (!(core.uops u).in_event_queue)
  guard (!(core.uops u).completed)
  let core := core.setUop u fun uop => { uop with
    complete_when := core.cycle + latency
    in_event_queue := true }
  let first := fun v => decide (Compare (core.uops u) u (core.uops v) v < 0)
  some { core with event_queue := core.event_queue.takeWhile (fun v => !first v) ++
    u :: core.event_queue.dropWhile (fun v => !first v) }

def ExtractFromEventQueue (core : Core) (u : ℕ) : Option Core := do
  guard (core.uops u).in_event_queue
  let core := core.setUop u fun uop => { uop with in_event_queue := false }
  some { core with event_queue := core.event_queue.erase u }

end Core

namespace Thread

/-! ### Queues -/

def InsertInFetchQueue (core : Core) (t u : ℕ) : Option Core := do
  let uop := core.uops u
  guard (!uop.in_queue .Fetch)
  some ((core.push t u .Fetch).setThread t fun thread =>
    if uop.from_trace_cache then
      { thread with trace_cache_queue_occupancy := thread.trace_cache_queue_occupancy + 1 }
    else if uop.mop_index = 0 then
      { thread with fetch_queue_occupancy := thread.fetch_queue_occupancy + uop.mop_size }
    else thread)

def ExtractFromFetchQueue (core : Core) (t u : ℕ) : Option Core := do
  let uop := core.uops u
  let fetch_queue := (core.threads t).queue .Fetch
  guard (uop.in_queue .Fetch)
  guard (fetch_queue.head? = some u ∨ fetch_queue.getLast? = some u)
  guard (uop.from_trace_cache → 0 < (core.threads t).trace_cache_queue_occupancy)
  guard (¬uop.from_trace_cache → uop.mop_index = 0 →
    uop.mop_size ≤ (core.threads t).fetch_queue_occupancy)
  some ((core.take t u .Fetch).setThread t fun thread =>
    if uop.from_trace_cache then
      { thread with trace_cache_queue_occupancy := thread.trace_cache_queue_occupancy - 1 }
    else if uop.mop_index = 0 then
      { thread with fetch_queue_occupancy := thread.fetch_queue_occupancy - uop.mop_size }
    else thread)

def InsertInUopQueue (core : Core) (t u : ℕ) : Option Core := do
  guard (!(core.uops u).in_queue .Uop)
  some (core.push t u .Uop)

/-- `Thread::ExtractFromUopQueue`; the assertion on the place of the uop tests a pointer that is
never null. -/
def ExtractFromUopQueue (core : Core) (t u : ℕ) : Option Core := do
  guard ((core.uops u).in_queue .Uop)
  guard ((core.threads t).queue .Uop ≠ [])
  some (core.take t u .Uop)

def canInsertInReorderBuffer (cfg : Config) (core : Core) (t : ℕ) : Bool :=
  match cfg.reorder_buffer_kind with
  | .Private => ((core.threads t).queue .ReorderBuffer).length < cfg.reorder_buffer_size
  | .Shared => core.reorder_buffer_occupancy < cfg.reorder_buffer_size

def InsertInReorderBuffer (core : Core) (t u : ℕ) : Option Core := do
  guard (!(core.uops u).in_queue .ReorderBuffer)
  let core := core.push t u .ReorderBuffer
  some { core with reorder_buffer_occupancy := core.reorder_buffer_occupancy + 1 }

def ExtractFromReorderBuffer (core : Core) (t u : ℕ) : Option Core := do
  guard ((core.uops u).in_queue .ReorderBuffer)
  guard ((core.threads t).queue .ReorderBuffer ≠ [])
  let core := core.take t u .ReorderBuffer
  some { core with reorder_buffer_occupancy := core.reorder_buffer_occupancy - 1 }

def canInsertInInstructionQueue (cfg : Config) (core : Core) (t : ℕ) : Bool :=
  match cfg.instruction_queue_kind with
  | .Private => ((core.threads t).queue .Instruction).length < cfg.instruction_queue_size
  | .Shared => core.instruction_queue_occupancy < cfg.instruction_queue_size

def InsertInInstructionQueue (core : Core) (t u : ℕ) : Option Core := do
  let uop := core.uops u
  guard (!uop.in_queue .Instruction)
  guard (!uop.in_queue .Load)
  guard (!uop.in_queue .Store)
  let core := core.push t u .Instruction
  some { core with instruction_queue_occupancy := core.instruction_queue_occupancy + 1 }

def ExtractFromInstructionQueue (core : Core) (t u : ℕ) : Option Core := do
  let uop := core.uops u
  guard (!uop.in_queue .Load)
  guard (!uop.in_queue .Store)
  guard (uop.in_queue .Instruction)
  let core := core.take t u .Instruction
  some { core with instruction_queue_occupancy := core.instruction_queue_occupancy - 1 }

def canInsertInLoadStoreQueue (cfg : Config) (core : Core) (t : ℕ) : Bool :=
  match cfg.load_store_queue_kind with
  | .Private => ((core.threads t).queue .Load).length + ((core.threads t).queue .Store).length <
      cfg.load_store_queue_size
  | .Shared => core.load_store_queue_occupancy < cfg.load_store_queue_size

/-- `Thread::InsertInLoadStoreQueue`; other opcodes than a load and a store panic. -/
def InsertInLoadStoreQueue (core : Core) (t u : ℕ) : Option Core := do
  let uop := core.uops u
  guard (!uop.in_queue .Load)
  guard (!uop.in_queue .Store)
  let q ← match uop.opcode with
    | .Load => some Queue.Load
    | .Store => some Queue.Store
    | _ => none
  let core := core.push t u q
  some { core with load_store_queue_occupancy := core.load_store_queue_occupancy + 1 }

def ExtractFromLoadQueue (core : Core) (t u : ℕ) : Option Core := do
  let uop := core.uops u
  guard (uop.in_queue .Load)
  guard (!uop.in_queue .Store)
  guard (!uop.in_queue .Instruction)
  let core := core.take t u .Load
  some { core with load_store_queue_occupancy := core.load_store_queue_occupancy - 1 }

def ExtractFromStoreQueue (core : Core) (t u : ℕ) : Option Core := do
  let uop := core.uops u
  guard (!uop.in_queue .Instruction)
  guard (!uop.in_queue .Load)
  guard (uop.in_queue .Store)
  let core := core.take t u .Store
  some { core with load_store_queue_occupancy := core.load_store_queue_occupancy - 1 }

/-! ### Recovery -/

/-- Squash speculative uops from the tail of a queue, as `RecoverFetchQueue`, `RecoverUopQueue` and
the loop of `Recover` over the reorder buffer do. -/
def squashTail (q : Queue) (extract : Core → ℕ → ℕ → Option Core) (t : ℕ) :
    ℕ → Core → Option Core
  | 0, core => some core
  | n + 1, core =>
    match ((core.threads t).queue q).getLast? with
    | none => some core
    | some u => do
      guard ((core.uops u).thread = t)
      if (core.uops u).speculative_mode then squashTail q extract t n (← extract core t u)
      else some core

/-- Squash the speculative uops of a queue from its head, as `RecoverInstructionQueue`,
`RecoverLoadQueue` and `RecoverStoreQueue` do. -/
def squashAll (extract : Core → ℕ → ℕ → Option Core) (t : ℕ) : List ℕ → Core → Option Core
  | [], core => some core
  | u :: uops, core =>
    if (core.uops u).speculative_mode then do squashAll extract t uops (← extract core t u)
    else squashAll extract t uops core

def RecoverFetchQueue (core : Core) (t : ℕ) : Option Core := do
  let core ← squashTail .Fetch ExtractFromFetchQueue t ((core.threads t).queue .Fetch).length core
  guard ((core.threads t).fetch_queue_occupancy = 0)
  guard ((core.threads t).trace_cache_queue_occupancy = 0)
  some core

def RecoverUopQueue (core : Core) (t : ℕ) : Option Core :=
  squashTail .Uop ExtractFromUopQueue t ((core.threads t).queue .Uop).length core

def RecoverInstructionQueue (core : Core) (t : ℕ) : Option Core :=
  squashAll ExtractFromInstructionQueue t ((core.threads t).queue .Instruction) core

def RecoverLoadQueue (core : Core) (t : ℕ) : Option Core :=
  squashAll ExtractFromLoadQueue t ((core.threads t).queue .Load) core

def RecoverStoreQueue (core : Core) (t : ℕ) : Option Core :=
  squashAll ExtractFromStoreQueue t ((core.threads t).queue .Store) core

def squashEvents (t : ℕ) : List ℕ → Core → Option Core
  | [], core => some core
  | u :: uops, core =>
    if (core.uops u).thread = t ∧ (core.uops u).speculative_mode then do
      squashEvents t uops (← core.ExtractFromEventQueue u)
    else squashEvents t uops core

def RecoverEventQueue (core : Core) (t : ℕ) : Option Core :=
  squashEvents t core.event_queue core

def recoverContext (core : Core) (t : ℕ) : Option Core :=
  match (core.threads t).context with
  | none => some core
  | some c => do
    let context ← core.contexts c
    let context ← if context.spec_mode then context.Recover else some context
    let core := core.setContext c (some context)
    some (core.setThread t fun thread => { thread with fetch_neip := context.eip })

def Recover (core : Core) (t : ℕ) : Option Core := do
  let core ← RecoverFetchQueue core t
  let core ← RecoverUopQueue core t
  let core ← RecoverInstructionQueue core t
  let core ← RecoverLoadQueue core t
  let core ← RecoverStoreQueue core t
  let core ← RecoverEventQueue core t
  let core ← squashTail .ReorderBuffer ExtractFromReorderBuffer t
    ((core.threads t).queue .ReorderBuffer).length core
  recoverContext core t

/-! ### Fetch -/

/-- What the emulator does when it executes a macro-instruction, and the address that the branch
predictor and the BTB give for a taken branch of it. -/
structure Instruction where
  size : ℕ
  uinsts : List Opcode := []
  /-- Address of the next macro-instruction of the program -/
  eip : BitVec 32
  suspends : Bool := false
  finishes : Bool := false
  exits : Bool := false
  locks : Bool := false
  target : Option (BitVec 32) := none

def Execute (instruction : Instruction) (context : Context) : Context :=
  Context.UpdateState { context with
    eip := instruction.eip
    suspended := context.suspended || instruction.suspends
    finished := context.finished || instruction.finishes
    zombie := context.zombie || instruction.exits
    locked := context.locked || instruction.locks }

def newUop (core : Core) (t : ℕ) (uop : QueuedUop) : Core :=
  let u := core.num_uops
  { (core.setUop u fun _ => uop).setThread t fun thread => { thread with
      fetched := if uop.speculative_mode then thread.fetched else thread.fetched ++ [u] } with
    num_uops := u + 1 }

def fetchUop (core : Core) (t : ℕ) (uop : QueuedUop) : Option Core :=
  InsertInFetchQueue (newUop core t uop) t core.num_uops

/-- The uops of a macro-instruction enter the fetch queue; `first` says whether its first uop is the
first one in speculative mode. -/
def fetchUops (t : ℕ) (uop : QueuedUop) (first : Bool) : ℕ → List Opcode → Core → Option Core
  | _, [], core => some core
  | mop_index, opcode :: opcodes, core => do
    let core ← fetchUop core t { uop with
      opcode := opcode
      mop_index := mop_index
      first_speculative_mode := decide (mop_index = 0) && first }
    fetchUops t uop first (mop_index + 1) opcodes core

def Instruction.opcodes (instruction : Instruction) : List Opcode :=
  if instruction.uinsts = [] then [.Other] else instruction.uinsts

def FetchInstruction (core : Core) (t : ℕ) (fetch_from_trace_cache : Bool)
    (instruction : Instruction) : Option Core := do
  let c ← (core.threads t).context
  let context ← core.contexts c
  let fetch_eip := (core.threads t).fetch_neip
  let previous_speculative_mode := context.spec_mode
  let context := context.setEip fetch_eip
  let speculative_mode := context.spec_mode
  let context := Execute instruction context
  let core := (core.setContext c (some context)).setThread t fun thread => { thread with
    fetch_neip := fetch_eip + BitVec.ofNat 32 instruction.size }
  fetchUops t
    { opcode := .Other
      thread := t
      mop_count := instruction.opcodes.length
      mop_size := instruction.size
      eip := fetch_eip
      neip := context.eip
      speculative_mode := speculative_mode
      from_trace_cache := fetch_from_trace_cache }
    (!previous_speculative_mode && speculative_mode) 0 instruction.opcodes core

def isRunning (core : Core) (t : ℕ) : Option Bool :=
  (core.allocated t).map Context.running

def fetchTrace (t : ℕ) : List (BitVec 32 × Instruction) → Core → Option Core
  | [], core => some core
  | (eip, instruction) :: entry, core => do
    if ← isRunning core t then
      let core := core.setThread t fun thread => { thread with fetch_neip := eip }
      fetchTrace t entry (← FetchInstruction core t true instruction)
    else some core

/-- The loop of `Fetch` over the macro-instructions of a block; the list has those that the
emulator executes. -/
def fetchBlock (cfg : Config) (t : ℕ) (block_address : BitVec 32) :
    List Instruction → Core → Option Core
  | [], core => some core
  | instruction :: instructions, core =>
    if (core.threads t).fetch_neip &&& ~~~(cfg.block_size - 1) ≠ block_address then some core
    else do
      if !(← isRunning core t) ||
          decide (cfg.fetch_queue_size ≤ (core.threads t).fetch_queue_occupancy) then some core
      else
        let core ← FetchInstruction core t false instruction
        if instruction.size = 0 then some core
        else match instruction.target with
          | some target =>
            if instruction.opcodes.any Opcode.FlagCtrl then
              some (core.setThread t fun thread => { thread with fetch_neip := target })
            else fetchBlock cfg t block_address instructions core
          | none => fetchBlock cfg t block_address instructions core

/-- `Thread::Fetch`; the trace cache may have an entry, with the address that follows it. -/
def Fetch (cfg : Config) (core : Core) (t : ℕ)
    (entry : Option (List (BitVec 32 × Instruction) × BitVec 32))
    (instructions : List Instruction) : Option Core := do
  guard (core.threads t).context.isSome
  match entry with
  | some (entry, neip) =>
    if (core.threads t).trace_cache_queue_occupancy < cfg.trace_cache_queue_size then
      let core ← fetchTrace t entry core
      some (core.setThread t fun thread => { thread with fetch_neip := neip })
    else
      fetchBlock cfg t ((core.threads t).fetch_neip &&& ~~~(cfg.block_size - 1)) instructions core
  | none =>
    fetchBlock cfg t ((core.threads t).fetch_neip &&& ~~~(cfg.block_size - 1)) instructions core

def canFetch (cfg : Config) (core : Core) (t : ℕ) (access : Bool) : Bool :=
  match core.allocated t with
  | none => false
  | some context => context.running && !context.evict_signal &&
      decide ((core.threads t).fetch_queue_occupancy < cfg.fetch_queue_size) && access

/-! ### Decode -/

/-- Move uops from the fetch queue to the uop queue, from `u` on and as long as `more` holds of the
next one. -/
def moveUops (more : QueuedUop → Bool) (t : ℕ) : ℕ → ℕ → Core → Option Core
  | 0, _, core => some core
  | n + 1, u, core => do
    let core ← ExtractFromFetchQueue core t u
    let core ← InsertInUopQueue core t u
    match (core.threads t).queue .Fetch with
    | [] => some core
    | v :: _ => if more (core.uops v) then moveUops more t n v core else some core

/-- The loop of `Decode`, for the decode slots left -/
def decodeSlots (cfg : Config) (isInFlightAccess : ℕ → Bool) (t : ℕ) : ℕ → Core → Option Core
  | 0, core => some core
  | n + 1, core =>
    match (core.threads t).queue .Fetch with
    | [] => some core
    | u :: _ =>
      if cfg.uop_queue_size ≤ ((core.threads t).queue .Uop).length then some core
      else if (core.uops u).from_trace_cache then
        moveUops (·.from_trace_cache) t ((core.threads t).queue .Fetch).length u core
      else do
        guard ((core.uops u).mop_index = 0)
        if isInFlightAccess u then decodeSlots cfg isInFlightAccess t n core
        else
          decodeSlots cfg isInFlightAccess t n (← moveUops (fun uop => decide (uop.mop_index ≠ 0)) t
            ((core.threads t).queue .Fetch).length u core)

def Decode (cfg : Config) (core : Core) (t : ℕ) (isInFlightAccess : ℕ → Bool) : Option Core :=
  decodeSlots cfg isInFlightAccess t cfg.decode_width core

/-! ### Dispatch -/

def canDispatch (cfg : Config) (core : Core) (t : ℕ) (canRename : ℕ → Bool) : Bool :=
  match (core.threads t).queue .Uop with
  | [] => false
  | u :: _ => canInsertInReorderBuffer cfg core t &&
      (if (core.uops u).opcode.FlagMem then canInsertInLoadStoreQueue cfg core t
        else canInsertInInstructionQueue cfg core t) && canRename u

def dispatchUop (core : Core) (t u : ℕ) : Option Core := do
  let core ← ExtractFromUopQueue core t u
  let core ← InsertInReorderBuffer core t u
  let core := core.setUop u fun uop => { uop with dispatched := true }
  if (core.uops u).opcode.FlagMem then InsertInLoadStoreQueue core t u
  else InsertInInstructionQueue core t u

def Dispatch (cfg : Config) (t : ℕ) (canRename : ℕ → Bool) : ℕ → Core → Option Core
  | 0, core => some core
  | quantum + 1, core =>
    if canDispatch cfg core t canRename then
      match (core.threads t).queue .Uop with
      | [] => none
      | u :: _ => do Dispatch cfg t canRename quantum (← dispatchUop core t u)
    else some core

/-! ### Issue -/

def isUopReady (core : Core) (u : ℕ) (available : ℕ → Bool) : Core × Bool :=
  if (core.uops u).ready then (core, true)
  else if available u then (core.setUop u fun uop => { uop with ready := true }, true)
  else (core, false)

def MemoryAccess (core : Core) (u : ℕ) : Core :=
  { core.setUop u fun uop => { uop with issued := true } with memory := core.memory ++ [u] }

/-- `Thread::IssueLoadQueue`, over the uops of the load queue -/
def IssueLoadQueue (t : ℕ) (available canAccess : ℕ → Bool) : ℕ → List ℕ → Core → Option Core
  | _, [], core => some core
  | 0, _ :: _, core => some core
  | quantum + 1, u :: uops, core =>
    match isUopReady core u available with
    | (core, false) => IssueLoadQueue t available canAccess (quantum + 1) uops core
    | (core, true) =>
      if canAccess u then do
        let core ← ExtractFromLoadQueue core t u
        IssueLoadQueue t available canAccess quantum uops (MemoryAccess core u)
      else IssueLoadQueue t available canAccess (quantum + 1) uops core

/-- `Thread::IssueStoreQueue`, over the uops of the store queue -/
def IssueStoreQueue (t : ℕ) (canAccess : ℕ → Bool) : ℕ → List ℕ → Core → Option Core
  | _, [], core => some core
  | 0, _ :: _, core => some core
  | quantum + 1, u :: uops, core => do
    guard ((core.uops u).opcode = .Store)
    if (core.uops u).in_queue .ReorderBuffer || !canAccess u then some core
    else
      let core ← ExtractFromStoreQueue core t u
      IssueStoreQueue t canAccess quantum uops (MemoryAccess core u)

/-- `Thread::IssueInstructionQueue`, over the uops of the instruction queue; `Reserve` is the latency
of the functional unit, or zero if none is free. -/
def IssueInstructionQueue (t : ℕ) (available : ℕ → Bool) (Reserve : ℕ → ℕ) :
    ℕ → List ℕ → Core → Option Core
  | _, [], core => some core
  | 0, _ :: _, core => some core
  | quantum + 1, u :: uops, core => do
    guard (!(core.uops u).opcode.FlagMem)
    match isUopReady core u available with
    | (core, false) => IssueInstructionQueue t available Reserve (quantum + 1) uops core
    | (core, true) =>
      if Reserve u = 0 then IssueInstructionQueue t available Reserve (quantum + 1) uops core
      else
        let core ← ExtractFromInstructionQueue core t u
        let core := core.setUop u fun uop => { uop with issued := true }
        let core ← core.InsertInEventQueue u (Reserve u)
        IssueInstructionQueue t available Reserve quantum uops core

/-- The uops that left a queue of a thread: each of them lowers the quantum by one. -/
def issued (t : ℕ) (q : Queue) (core core' : Core) : ℕ :=
  ((core.threads t).queue q).length - ((core'.threads t).queue q).length

/-- What the register file, the memory system and the functional units answer about the uops
during one call of `Core::Issue` -/
structure IssueEnv where
  available : ℕ → Bool
  canAccess : ℕ → Bool
  Reserve : ℕ → ℕ

def IssueLoadStoreQueue (env : IssueEnv) (t : ℕ) (quantum : ℤ) (core : Core) :
    Option (Core × ℤ) := do
  let core₁ ← IssueLoadQueue t env.available env.canAccess quantum.toNat
    ((core.threads t).queue .Load) core
  let quantum := quantum - issued t .Load core core₁
  let core₂ ← IssueStoreQueue t env.canAccess quantum.toNat ((core₁.threads t).queue .Store) core₁
  some (core₂, quantum - issued t .Store core₁ core₂)

def IssueInstructions (env : IssueEnv) (t : ℕ) (quantum : ℤ) (core : Core) : Option (Core × ℤ) := do
  let core₁ ← IssueInstructionQueue t env.available env.Reserve quantum.toNat
    ((core.threads t).queue .Instruction) core
  some (core₁, quantum - issued t .Instruction core core₁)

end Thread

inductive IssueKind
  | Shared
  | Timeslice
  deriving DecidableEq

/-- The condition on the quantum under which a loop of `Core::Issue` goes on to the next thread -/
def IssueKind.more (kind : IssueKind) (issue_width quantum : ℤ) : Bool :=
  match kind with
  | .Shared => decide (quantum ≠ 0)
  | .Timeslice => decide (quantum = issue_width)

namespace Core

/-- A loop of `Core::Issue`, for the threads that may still be skipped: the threads that it
serves, and `current_issue_thread` after it -/
def issueLoop (num_threads : ℕ) (more : ℤ → Bool)
    (serve : ℕ → ℤ → Core → Option (Core × ℤ)) :
    ℕ → ℤ → ℕ → Core → Option (List ℕ × ℕ × Core)
  | 0, _, current_issue_thread, core => some ([], current_issue_thread, core)
  | skip + 1, quantum, current_issue_thread, core => do
    -- next thread
    let current_issue_thread := (current_issue_thread + 1) % num_threads
    let (core, quantum) ← serve current_issue_thread quantum core
    if more quantum then
      let (threads, current_issue_thread', core) ←
        issueLoop num_threads more serve skip quantum current_issue_thread core
      some (current_issue_thread :: threads, current_issue_thread', core)
    else some ([current_issue_thread], current_issue_thread, core)

/-- A call of `Core::Issue`: the threads that each of the two loops serves -/
structure Issued where
  load_store : List ℕ
  instruction : List ℕ
  current_issue_thread : ℕ
  core : Core

def Issue (kind : IssueKind) (issue_width : ℤ) (num_threads : ℕ) (env : Thread.IssueEnv)
    (current_issue_thread : ℕ) (core : Core) : Option Issued := do
  let more := kind.more issue_width
  let (load_store, current_issue_thread, core) ← issueLoop num_threads more
    (Thread.IssueLoadStoreQueue env) num_threads issue_width current_issue_thread core
  let (instruction, current_issue_thread, core) ← issueLoop num_threads more
    (Thread.IssueInstructions env) num_threads issue_width current_issue_thread core
  some { load_store, instruction, current_issue_thread, core }

end Core

namespace Thread

/-! ### Memory and writeback -/

def memoryAccessEnd (core : Core) (u : ℕ) : Option Core := do
  guard (u ∈ core.memory)
  { core with memory := core.memory.erase u }.InsertInEventQueue u 0

def writebackUop (cfg : Config) (core : Core) (u : ℕ) : Option Core := do
  guard (core.uops u).ready
  guard (!(core.uops u).completed)
  let core ← core.ExtractFromEventQueue u
  let core := core.setUop u fun uop => { uop with completed := true }
  if cfg.recover_kind = .Writeback ∧ (core.uops u).first_speculative_mode then
    Recover core (core.uops u).thread
  else some core

def writebackUops (cfg : Config) : ℕ → Core → Option Core
  | 0, core => some core
  | n + 1, core =>
    match core.event_queue with
    | [] => some core
    | u :: _ =>
      if core.cycle < (core.uops u).complete_when then some core
      else do writebackUops cfg n (← writebackUop cfg core u)

def Writeback (cfg : Config) (core : Core) : Option Core :=
  writebackUops cfg core.event_queue.length core

/-! ### Commit -/

def canCommitUop (core : Core) (u : ℕ) (available : ℕ → Bool) : Core × Bool :=
  if (core.uops u).opcode = .Store then isUopReady core u available
  else (core, (core.uops u).completed)

/-- The loop of `Commit`; the flag says that `Commit` returns after a recovery. -/
def commitUops (t : ℕ) (available : ℕ → Bool) : ℕ → Core → Option (Core × Bool)
  | 0, core => some (core, false)
  | quantum + 1, core =>
    match (core.threads t).queue .ReorderBuffer with
    | [] => some (core, false)
    | u :: _ => do
      guard ((core.uops u).thread = t)
      match canCommitUop core u available with
      | (core, false) => some (core, false)
      | (core, true) =>
        if (core.uops u).first_speculative_mode then (Recover core t).map (·, true)
        else do
          guard (!(core.uops u).speculative_mode)
          let core ← ExtractFromReorderBuffer core t u
          commitUops t available quantum (core.setThread t fun thread => { thread with
            committed := thread.committed ++ [u] })

def Commit (core : Core) (t : ℕ) (available : ℕ → Bool) (quantum : ℕ) : Option Core := do
  guard (core.threads t).context.isSome
  let (core, returned) ← commitUops t available quantum core
  if returned then some core
  else do
    let context ← core.allocated t
    if context.evict_signal && (core.threads t).isPipelineEmpty then EvictContext core t
    else some core

def commitStage (core : Core) (t : ℕ) (available : ℕ → Bool) (quantum : ℕ) : Option Core :=
  match (core.threads t).queue .ReorderBuffer with
  | [] => some core
  | u :: _ => do
    guard ((core.uops u).thread = t)
    match canCommitUop core u available with
    | (core, false) => some core
    | (core, true) => Commit core t available quantum

end Thread

end OISA.X86
