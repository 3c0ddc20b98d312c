import OISA.Esim.Run

/-!
# Queues of suspended frames

`lib/esim/Queue.cc`: a queue has pointers to its first and last frame, and each frame one to the
next frame of its queue.
-/

namespace OISA.Esim

inductive Move
  | suspend (queue : QueueId) (frame : FrameId) (priority : Bool)
  | wake (queue : QueueId) (frame : FrameId)
  deriving DecidableEq, Repr

/-- The engine and the pointers of the queues and of their frames. -/
structure QueueState where
  engine : Engine := {}
  next : FrameId → Option FrameId := fun _ => none
  head : QueueId → Option FrameId := fun _ => none
  tail : QueueId → Option FrameId := fun _ => none
  moves : List Move := []

inductive QueueOp
  | esim (op : Op)
  | wakeupAll (queue : QueueId)
  deriving DecidableEq, Repr

namespace QueueState

def PushBack (s : QueueState) (queue : QueueId) (frame : FrameId) : Option QueueState :=
  if (s.engine.frames frame).in_queue ∨ (s.next frame).isSome then none
  else
    match s.head queue, s.tail queue with
    | none, none =>
      some { s with
        head := Function.update s.head queue (some frame)
        tail := Function.update s.tail queue (some frame) }
    | some _, some tail =>
      if (s.next tail).isSome then none
      else
        some { s with
          next := Function.update s.next tail (some frame)
          tail := Function.update s.tail queue (some frame) }
    | _, _ => none

def PushFront (s : QueueState) (queue : QueueId) (frame : FrameId) : Option QueueState :=
  if (s.engine.frames frame).in_queue ∨ (s.next frame).isSome then none
  else
    match s.head queue, s.tail queue with
    | none, none =>
      some { s with
        head := Function.update s.head queue (some frame)
        tail := Function.update s.tail queue (some frame) }
    | some head, some tail =>
      if (s.next tail).isSome then none
      else
        some { s with
          next := Function.update s.next frame (some head)
          head := Function.update s.head queue (some frame) }
    | _, _ => none

def PopFront (s : QueueState) (queue : QueueId) : Option (QueueState × Option FrameId) :=
  match s.head queue with
  | none => if (s.tail queue).isSome then none else some (s, none)
  | some frame =>
    let s :=
      if s.tail queue = some frame then
        { s with
          head := Function.update s.head queue none
          tail := Function.update s.tail queue none }
      else { s with head := Function.update s.head queue (s.next frame) }
    some ({ s with next := Function.update s.next frame none }, some frame)

def isEmpty (s : QueueState) (queue : QueueId) : Bool := (s.head queue).isNone

/-- Suspend the current event chain in the queue. -/
def Wait (s : QueueState) (queue : QueueId) (event : Option EventId) (priority : Bool) :
    Option QueueState :=
  match s.engine.current_frame, event with
  | some frame, some event =>
    if (s.engine.frames frame).in_heap then none
    else if (s.engine.frames frame).wakeup_event.isSome then none
    else
      (if priority then s.PushFront queue frame else s.PushBack queue frame).map fun s =>
        { s with
          engine := s.engine.queueFrame frame (some event)
          moves := .suspend queue frame priority :: s.moves }
  | _, _ => none

def WakeupOne (s : QueueState) (queue : QueueId) : Option QueueState :=
  if s.isEmpty queue then none
  else do
    let (s, frame) ← s.PopFront queue
    let frame ← frame
    let event ← (s.engine.frames frame).wakeup_event
    let engine ← (s.engine.queueFrame frame none).Schedule (some event) (some frame) 0 0
    some { s with engine := engine, moves := .wake queue frame :: s.moves }

def WakeupAll (queue : QueueId) : ℕ → QueueState → Option QueueState
  | 0, s => if s.isEmpty queue then some s else none
  | n + 1, s => if s.isEmpty queue then some s else (s.WakeupOne queue).bind (WakeupAll queue n)

/-- There are at most `num_frames` frames to wake up. -/
def step (op : QueueOp) (s : QueueState) : Option QueueState :=
  match op with
  | .wakeupAll queue =>
    if World.callable s.engine then WakeupAll queue s.engine.num_frames s else none
  | .esim (.wait queue event priority) =>
    if World.callable s.engine then s.Wait queue event priority else none
  | .esim (.wakeupOne queue) => if World.callable s.engine then s.WakeupOne queue else none
  | .esim op => (World.step op { engine := s.engine }).map fun w => { s with engine := w.engine }

end QueueState

end OISA.Esim
