import OISA.Esim.Run
import OISA.Memory.Directory

/-!
# Requests to upper modules

The handlers of `memory/SystemEvents.cc` that send requests to upper modules and wait for all of
them: `invalidate`, `read_request_updown` and `read_request_downup`.
-/

namespace OISA.Memory

open OISA.Esim

abbrev ModuleId := ℕ

/-- What the handlers need of a module: `high_nodes` are the modules above it. -/
structure Module where
  block_size : ℕ
  sub_block_size : ℕ
  directory : Directory
  high_nodes : ℕ → ModuleId

/-- The events of the handlers. Each was registered on its own. -/
structure Events where
  write_request : EventId
  read_request : EventId
  invalidate_finish : EventId
  read_request_updown_finish : EventId
  read_request_updown_miss : EventId
  read_request_downup_finish : EventId
  registered : ∀ event ∈ [invalidate_finish, read_request_updown_finish, read_request_updown_miss,
    read_request_downup_finish], event ≠ null_event
  distinct : read_request_updown_miss ∉ [invalidate_finish, read_request_updown_finish,
    read_request_downup_finish]

structure Request where
  target_module : ModuleId
  address : ℕ
  deriving DecidableEq, Repr

structure Invalidation where
  module : ModuleId
  set : ℕ
  way : ℕ
  tag : ℕ
  address : ℕ
  partial_invalidation : Bool
  except_module : Option ModuleId
  deriving DecidableEq, Repr

/-- The frame of `read_request`: `requester` is the node of the requesting module, `state` tells
whether the block was found, `low_module` serves the address. -/
structure ReadRequest where
  target_module : ModuleId
  set : ℕ
  way : ℕ
  tag : ℕ
  requester : ℕ
  state : Bool
  low_module : ModuleId
  deriving DecidableEq, Repr

/-- `fresh` is set from the moment a frame leaves the heap to the moment its handler has run. -/
structure Requests where
  world : World := {}
  modules : ModuleId → Module
  pending : FrameId → ℕ := fun _ => 0
  target : FrameId → Option Request := fun _ => none
  fresh : Bool := false
  parents : List FrameId := []
  requests : FrameId → List FrameId := fun _ => []
  returnsTo : FrameId → Option EventId := fun _ => none
  resumed : FrameId → ℕ := fun _ => 0

section Loops

/-- One iteration of the inner loop of `invalidate`: node `i` of sub-block `z`. -/
def invalidateNode (modules : ModuleId → Module) (frame : Invalidation) (z i : ℕ)
    (acc : Directory × List Request) : Option (Directory × List Request) :=
  let (directory, requests) := acc
  let directory_entry_tag := frame.tag + z * (modules frame.module).sub_block_size
  (directory.isSharer frame.set frame.way z i).bind fun is_sharer =>
    let sharer := (modules frame.module).high_nodes i
    if !is_sharer || frame.except_module = some sharer then some acc
    else
      (directory.clearSharer frame.set frame.way z i).bind fun directory =>
        (directory.getEntry frame.set frame.way z).bind fun entry =>
          (if entry.owner = some i then directory.setOwner frame.set frame.way z none
            else some directory).map fun directory =>
              -- mid-block sub-blocks are invalidated with the first one of the block above
              if directory_entry_tag % (modules sharer).block_size ≠ 0 then (directory, requests)
              else (directory, requests ++ [⟨sharer, directory_entry_tag⟩])

/-- One iteration of the outer loop of `invalidate`: sub-block `z`. -/
def invalidateSubBlock (modules : ModuleId → Module) (frame : Invalidation)
    (acc : Directory × List Request) (z : ℕ) : Option (Directory × List Request) :=
  let sub_block_size := (modules frame.module).sub_block_size
  let directory_entry_tag := frame.tag + z * sub_block_size
  if frame.partial_invalidation && (frame.address < directory_entry_tag ||
      directory_entry_tag + sub_block_size ≤ frame.address) then some acc
  else
    (List.range (modules frame.module).directory.num_nodes).foldlM
      (fun acc i => invalidateNode modules frame z i acc) acc

def invalidateRequests (modules : ModuleId → Module) (frame : Invalidation) :
    Option (Directory × List Request) :=
  let directory := (modules frame.module).directory
  (List.range directory.num_sub_blocks).foldlM (invalidateSubBlock modules frame) (directory, [])

/-- One iteration of the loops of `read_request_updown` and `read_request_downup`: the owner of
sub-block `z`, unless it is the node to skip. -/
def ownerRequest (modules : ModuleId → Module) (frame : ReadRequest) (skip : Option ℕ)
    (requests : List Request) (z : ℕ) : Option (List Request) :=
  let target_module := modules frame.target_module
  let directory_entry_tag := frame.tag + z * target_module.sub_block_size
  (target_module.directory.getEntry frame.set frame.way z).map fun entry =>
    match entry.owner with
    | none => requests
    | some owner =>
      let owner_module := target_module.high_nodes owner
      if skip = some owner then requests
      else if directory_entry_tag % (modules owner_module).block_size ≠ 0 then requests
      else requests ++ [⟨owner_module, directory_entry_tag⟩]

def ownerRequests (modules : ModuleId → Module) (frame : ReadRequest) (skip : Option ℕ) :
    Option (List Request) :=
  (List.range (modules frame.target_module).directory.num_sub_blocks).foldlM
    (ownerRequest modules frame skip) []

end Loops

namespace Requests

/-- The handler of frame `p` starts to count, with the given number. -/
def start (s : Requests) (p : FrameId) (finish : EventId) (pending : ℕ) : Requests :=
  { s with
    pending := Function.update s.pending p pending
    fresh := false
    parents := p :: s.parents
    returnsTo := Function.update s.returnsTo p (some finish) }

/-- `frame->pending++` -/
def count (s : Requests) (p : FrameId) : Requests :=
  { s with pending := Function.update s.pending p (s.pending p + 1) }

def callRequest (s : Requests) (p : FrameId) (event finish : EventId) (request : Request) :
    Option Requests :=
  (World.step (.call (some event) none (some finish) 0 0) s.world).map fun world =>
    { s with
      world := world
      target := Function.update s.target s.world.engine.num_frames (some request)
      requests := Function.update s.requests p (s.world.engine.num_frames :: s.requests p) }

/-- The handler of frame `p` schedules an event of its own frame. -/
def next (s : Requests) (event : EventId) : Option Requests :=
  (World.step (.next (some event) 0 0) s.world).map fun world => { s with world := world }

def countRequest (p : FrameId) (event finish : EventId) (s : Requests) (request : Request) :
    Option Requests :=
  (s.count p).callRequest p event finish request

def fork (s : Requests) (p : FrameId) (event finish : EventId) (requests : List Request) :
    Option Requests :=
  (requests.foldlM (countRequest p event finish) (s.start p finish 1)).bind (next · finish)

def setDirectory (s : Requests) (module : ModuleId) (directory : Directory) : Requests :=
  { s with
    modules := Function.update s.modules module
      { s.modules module with directory := directory } }

def invalidate (events : Events) (s : Requests) (p : FrameId) (frame : Invalidation) :
    Option Requests :=
  (invalidateRequests s.modules frame).bind fun x =>
    (s.setDirectory frame.module x.1).fork p events.write_request events.invalidate_finish x.2

def read_request_updown (events : Events) (s : Requests) (p : FrameId) (frame : ReadRequest) :
    Option Requests :=
  if frame.state then
    (ownerRequests s.modules frame (some frame.requester)).bind fun requests =>
      s.fork p events.read_request events.read_request_updown_finish requests
  else
    (s.start p events.read_request_updown_miss 1).callRequest p events.read_request
      events.read_request_updown_miss ⟨frame.low_module, frame.tag⟩

def read_request_downup (events : Events) (s : Requests) (p : FrameId) (frame : ReadRequest) :
    Option Requests :=
  (ownerRequests s.modules frame none).bind fun requests =>
    s.fork p events.read_request events.read_request_downup_finish requests

def resume (s : Requests) (p : FrameId) : Requests :=
  { s with resumed := Function.update s.resumed p (s.resumed p + 1) }

def returnTo (s : Requests) (p : FrameId) (event : Option EventId) : Requests :=
  { s with returnsTo := Function.update s.returnsTo p event }

def uncount (s : Requests) (p : FrameId) : Requests :=
  { s with pending := Function.update s.pending p (s.pending p - 1) }

def read_request_updown_miss (events : Events) (s : Requests) (p : FrameId) (error : Bool) :
    Option Requests :=
  let s := { s with fresh := false }
  if error then some ((s.returnTo p none).resume p)
  else
    (s.returnTo p (some events.read_request_updown_finish)).next events.read_request_updown_finish

/-- Events `invalidate_finish`, `read_request_updown_finish` and `read_request_downup_finish`:
ignore while pending. -/
def finish (s : Requests) (p : FrameId) : Option Requests :=
  if s.pending p = 0 then none
  else
    let s := { s with fresh := false }.uncount p
    if s.pending p ≠ 0 then some s else some (s.resume p)

/-- A request of frame `p` is complete: the handler of its frame `c` returns. -/
def complete (s : Requests) (p c : FrameId) : Option Requests :=
  (World.step (.ret 0) s.world).map fun world =>
    { s with
      world := world
      requests := Function.update s.requests p ((s.requests p).erase c) }

inductive Op
  | esim (op : Esim.Op)
  | invalidate (frame : Invalidation)
  | read_request_updown (frame : ReadRequest)
  | read_request_downup (frame : ReadRequest)
  | read_request_updown_miss (error : Bool)
  | finish
  | complete
  | update (module : ModuleId) (directory : Directory)

def takesFrame : Esim.Op → Bool
  | .processEvent | .drainEvent => true
  | _ => false

/-- Whether the handler of the frame a parent waits in has been called and has not run. -/
def waits (s : Requests) (p : FrameId) : Bool :=
  s.fresh && p ∈ s.parents && s.world.engine.running = s.returnsTo p &&
    s.world.engine.running.isSome

/-- Any operation on the engine. -/
def esim (op : Esim.Op) (s : Requests) : Option Requests :=
  (World.step op s.world).map fun world =>
    { s with world := world, fresh := op ≠ .handlerEnd && (s.fresh || takesFrame op) }

/-- The operations of a handler are those of the current frame. -/
def step (events : Events) (op : Op) (s : Requests) : Option Requests :=
  match op, s.world.engine.current_frame with
  | .esim op, current => if current.any s.waits then none else s.esim op
  | .update module directory, _ => some (s.setDirectory module directory)
  | .invalidate frame, some p => s.invalidate events p frame
  | .read_request_updown frame, some p => s.read_request_updown events p frame
  | .read_request_downup frame, some p => s.read_request_downup events p frame
  | .read_request_updown_miss error, some p =>
    if s.waits p && s.world.engine.running = some events.read_request_updown_miss then
      s.read_request_updown_miss events p error
    else none
  | .finish, some p =>
    if s.waits p && s.world.engine.running ≠ some events.read_request_updown_miss then s.finish p
    else none
  | .complete, some c =>
    match (s.world.engine.frames c).parent_frame with
    | some p => if c ∈ s.requests p then s.complete p c else none
    | none => none
  | _, none => none

end Requests

end OISA.Memory
