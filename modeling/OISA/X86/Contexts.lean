import Mathlib.Tactic

/-!
# The contexts of the emulator

Model of `Context::UpdateState`, of the context lists of `Emulator.cc` and of what creates,
finishes and frees a context.
-/

namespace OISA.X86.Contexts

inductive Flag where
  | running
  | specMode
  | suspended
  | finished
  | exclusive
  | locked
  | handler
  | sigsuspend
  | nanosleep
  | poll
  | read
  | write
  | waitpid
  | zombie
  | futex
  | alloc
  | callback
  | mapped
  deriving DecidableEq, Repr

abbrev State := Flag → Bool

structure Context where
  state : State
  in_running : Bool := false
  in_suspended : Bool := false
  in_finished : Bool := false
  in_zombie : Bool := false
  parent : Option ℕ := none
  group_parent : Option ℕ := none
  memory : ℕ := 0
  wakeup_futex : BitVec 32 := 0
  wakeup_futex_bitset : BitVec 32 := 0
  wakeup_futex_sleep : ℕ := 0
  eax : BitVec 32 := 0

/-- The flags that `UpdateState` stores: a finished or a zombie context keeps only where it is
allocated and mapped, and a context runs when nothing stops it. -/
def normalize (state : State) : State :=
  let keep (flag f : Flag) : Bool := f = flag || ((f = .alloc || f = .mapped) && state f)
  let s := if state .finished then keep .finished else state
  let s := if s .zombie then keep .zombie else s
  Function.update s .running (!s .suspended && !s .finished && !s .zombie && !s .locked)

structure Emulator where
  ctx : ℕ → Context
  contexts : List ℕ := []
  running : List ℕ := []
  suspended : List ℕ := []
  finished : List ℕ := []
  zombie : List ℕ := []
  next : ℕ := 1
  futex_sleep_count : ℕ := 0
  next_memory : ℕ := 1

namespace Emulator

variable (s : Emulator) (c : ℕ)

def setCtx (context : Context) : Emulator := { s with ctx := Function.update s.ctx c context }

def updateList (list : List ℕ) (isIn present : Bool) : List ℕ :=
  if present && !isIn then list ++ [c] else if !present && isIn then list.erase c else list

def updateRunningContexts (present : Bool) : Emulator :=
  { s.setCtx c { s.ctx c with in_running := present } with
    running := updateList c s.running (s.ctx c).in_running present }

def updateSuspendedContexts (present : Bool) : Emulator :=
  { s.setCtx c { s.ctx c with in_suspended := present } with
    suspended := updateList c s.suspended (s.ctx c).in_suspended present }

def updateFinishedContexts (present : Bool) : Emulator :=
  { s.setCtx c { s.ctx c with in_finished := present } with
    finished := updateList c s.finished (s.ctx c).in_finished present }

def updateZombieContexts (present : Bool) : Emulator :=
  { s.setCtx c { s.ctx c with in_zombie := present } with
    zombie := updateList c s.zombie (s.ctx c).in_zombie present }

def updateState (state : State) : Emulator :=
  let state := normalize state
  ((((s.setCtx c { s.ctx c with state := state }).updateRunningContexts c
    (state .running)).updateZombieContexts c (state .zombie)).updateFinishedContexts c
    (state .finished)).updateSuspendedContexts c (state .suspended)

def setState (flag : Flag) : Emulator :=
  s.updateState c (Function.update (s.ctx c).state flag true)

def clearState (flag : Flag) : Emulator :=
  s.updateState c (Function.update (s.ctx c).state flag false)

def getState (flag : Flag) : Bool := (s.ctx c).state flag

def newContext : Emulator :=
  setState { s.setCtx s.next { state := fun _ => false } with
    contexts := s.contexts ++ [s.next]
    next := s.next + 1 } s.next .running

def freeContext : Emulator :=
  let s := (((s.updateRunningContexts c false).updateSuspendedContexts c
    false).updateFinishedContexts c false).updateZombieContexts c false
  { s with contexts := s.contexts.erase c }

/-- `Context::Clone` and `Context::Fork`, as `ExecuteSyscall_clone` calls them for the flags
`CLONE_VM` and `CLONE_THREAD`. -/
def clone (vm thread : Bool) : Emulator :=
  let child := s.next
  let s := s.newContext
  let memory := if vm then (s.ctx c).memory else s.next_memory
  let group_parent := if thread then some ((s.ctx c).group_parent.getD c) else none
  { s.setCtx child { s.ctx child with
      parent := some c
      group_parent := group_parent
      memory := memory } with
    next_memory := if vm then s.next_memory else s.next_memory + 1 }

def returnFromSignalHandler : Emulator := s.clearState c .handler

def wakeUp : Emulator :=
  let s := (s.clearState c .futex).clearState c .suspended
  s.setCtx c { s.ctx c with eax := 0 }

def orphan (child : ℕ) : Emulator :=
  if (s.ctx child).parent = some c then
    let s := s.setCtx child { s.ctx child with parent := none }
    if s.getState child .zombie then s.setState child .finished else s
  else s

/-- `Context::Finish`, where `clear_child_tid` and the robust list wake up `woken` -/
def finish (woken : List ℕ) : Emulator :=
  if s.getState c .finished || s.getState c .zombie then s
  else
    let s := s.contexts.foldl (fun s child => s.orphan c child) s
    let s := woken.foldl wakeUp s
    let s := if s.getState c .handler then s.returnFromSignalHandler c else s
    s.setState c (if (s.ctx c).parent.isSome then .zombie else .finished)

def finishMember (leader c : ℕ) (s : Emulator) : Emulator :=
  if (s.ctx c).group_parent ≠ some leader ∧ c ≠ leader then s
  else
    let s := if s.getState c .zombie then s.setState c .finished else s
    let s := if s.getState c .handler then s.returnFromSignalHandler c else s
    if c = leader then
      s.setState c (if (s.ctx c).parent.isSome then .zombie else .finished)
    else s.setState c .finished

def finishLeader (leader : ℕ) : Emulator :=
  if s.getState leader .finished || s.getState leader .zombie then s
  else s.contexts.foldl (fun s c => s.finishMember leader c) s

def getZombie (pid : Option ℕ) : Option ℕ :=
  s.zombie.find? fun z => (s.ctx z).parent = some c && (pid = some z || pid = none)

def loadProgram : Emulator :=
  let c := s.next
  let s := s.newContext
  { s.setCtx c { s.ctx c with memory := s.next_memory } with next_memory := s.next_memory + 1 }

end Emulator

/-! ### The life cycle -/

/-- No context yet -/
def Emulator.empty : Emulator := { ctx := fun _ => { state := fun _ => false } }

/-- What happens to contexts. -/
inductive Op where
  | load
  | clone (c : ℕ) (vm thread : Bool)
  | setFlag (c : ℕ) (flag : Flag)
  | clearFlag (c : ℕ) (flag : Flag)
  | finish (c : ℕ) (woken : List ℕ)
  | finishGroup (c : ℕ)
  | waitpid (c : ℕ) (pid : Option ℕ)
  | free (c : ℕ)
  deriving DecidableEq, Repr

def lifeFlags : List Flag := [.running, .finished, .zombie]

/-- One operation, if the emulator can reach it: the contexts it names are not freed, a context
clones when it runs, and a context is freed when it is finished. -/
def step (op : Op) (s : Emulator) : Option Emulator :=
  match op with
  | .load => some s.loadProgram
  | .clone c vm thread =>
    if c ∈ s.contexts ∧ s.getState c .running then some (s.clone c vm thread) else none
  | .setFlag c flag =>
    if c ∈ s.contexts ∧ flag ∉ lifeFlags then some (s.setState c flag) else none
  | .clearFlag c flag =>
    if c ∈ s.contexts ∧ flag ∉ lifeFlags then some (s.clearState c flag) else none
  | .finish c woken =>
    if c ∈ s.contexts ∧ woken.Nodup ∧ ∀ w ∈ woken, w ∈ s.contexts then some (s.finish c woken)
    else none
  | .finishGroup c =>
    if c ∈ s.contexts then
      match (s.ctx c).group_parent with
      | none => some (s.finishLeader c)
      | some leader =>
        if leader ∈ s.contexts ∧ (s.ctx leader).group_parent = none then
          some (s.finishLeader leader)
        else none
    else none
  | .waitpid c pid =>
    if c ∈ s.contexts then
      match s.getZombie c pid with
      | none => some s
      | some z => some (s.setState z .finished)
    else none
  | .free c =>
    if c ∈ s.contexts ∧ s.getState c .finished then some (s.freeContext c) else none

end OISA.X86.Contexts
