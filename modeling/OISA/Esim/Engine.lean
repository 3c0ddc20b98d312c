import Mathlib.Tactic

/-!
# Event-driven simulation engine

`lib/esim`: frames are scheduled for a time of their event's frequency domain and leave the heap
in the order of `Frame::CompareSharedPointers`.
-/

namespace OISA.Esim

abbrev FrameId := ℕ
abbrev EventId := ℕ
abbrev DomainId := ℕ

structure FrequencyDomain where
  frequency : ℕ
  cycle_time : ℕ
  deriving DecidableEq, Repr

/-- Constructor: frequency in MHz, cycle time in picoseconds. -/
def FrequencyDomain.new (frequency : ℕ) : FrequencyDomain := ⟨frequency, 1000000 / frequency⟩

structure Event where
  frequency_domain : Option DomainId
  num_in_flight : ℤ := 0
  deriving DecidableEq, Repr

structure Frame where
  event : Option EventId := none
  time : ℕ := 0
  schedule_sequence : ℕ := 0
  period : ℕ := 0
  in_heap : Bool := false
  parent_frame : Option FrameId := none
  return_event : Option EventId := none
  in_queue : Bool := false
  wakeup_event : Option EventId := none
  deriving DecidableEq, Repr

def Frame.CompareSharedPointers (lhs rhs : Frame) : Bool :=
  rhs.time < lhs.time ||
    (lhs.time = rhs.time && rhs.schedule_sequence < lhs.schedule_sequence)

/-- The order of the heap: by time, and by sequence number at equal times. -/
def Frame.key (frame : Frame) : ℕ ×ₗ ℕ := toLex (frame.time, frame.schedule_sequence)

/-- One call of `Schedule` that put a frame in the heap, at the current time `now`. -/
structure Ticket where
  frame : FrameId
  time : ℕ
  sequence : ℕ
  now : ℕ
  deriving DecidableEq, Repr

/-- A frame that left the heap at time `now`, when `counter` sequence numbers had been used. -/
structure Execution extends Ticket where
  counter : ℕ
  deriving DecidableEq, Repr

inductive Mode
  | outside
  | processing
  | draining (num_events max_events : ℕ)
  | ending
  deriving DecidableEq, Repr

/-- `running` is the event whose handler was called by the engine, `saved` the current frames
saved by nested calls of `Execute`. -/
structure Engine where
  events : List Event := [⟨none, 0⟩]
  frequency_domains : List FrequencyDomain := []
  frames : FrameId → Frame := fun _ => {}
  num_frames : ℕ := 0
  heap : List FrameId := []
  end_frames : List FrameId := []
  locked : Bool := false
  current_time : ℕ := 0
  fastest_frequency : ℕ := 0
  shortest_cycle_time : ℕ := 0
  current_frame : Option FrameId := none
  schedule_sequence_counter : ℕ := 0
  mode : Mode := .outside
  running : Option EventId := none
  saved : List (Option FrameId) := []
  scheduled : List Ticket := []
  ran : List Execution := []

/-- The event registered by the constructor of the engine -/
def null_event : EventId := 0

namespace Engine

def updateFrame (e : Engine) (f : FrameId) (g : Frame → Frame) : Engine :=
  { e with frames := Function.update e.frames f (g (e.frames f)) }

def linkFrame (e : Engine) (f : FrameId) (return_event : Option EventId)
    (parent_frame : Option FrameId) : Engine :=
  e.updateFrame f fun frame =>
    { frame with return_event := return_event, parent_frame := parent_frame }

def queueFrame (e : Engine) (f : FrameId) (wakeup_event : Option EventId) : Engine :=
  { e.updateFrame f (fun frame =>
      { frame with wakeup_event := wakeup_event, in_queue := wakeup_event.isSome }) with
    num_frames := max e.num_frames (f + 1) }

def setEvent (e : Engine) (f : FrameId) (event : EventId) : Engine :=
  e.updateFrame f fun frame => { frame with event := some event }

def heapTop (e : Engine) : Option FrameId := e.heap.argmin fun f => (e.frames f).key

def newFrame (e : Engine) : Engine × FrameId :=
  ({ e.updateFrame e.num_frames (fun _ => {}) with num_frames := e.num_frames + 1 }, e.num_frames)

def RegisterFrequencyDomain (e : Engine) (frequency : ℕ) : Option Engine :=
  if frequency = 0 then none
  else
    let e : Engine :=
      { e with frequency_domains := e.frequency_domains ++ [FrequencyDomain.new frequency] }
    if e.fastest_frequency < frequency then
      some { e with fastest_frequency := frequency, shortest_cycle_time := 1000000 / frequency }
    else some e

def UpdateFastestFrequency.body (e : Engine) (domain : FrequencyDomain) : Engine :=
  if e.fastest_frequency < domain.frequency then
    { e with fastest_frequency := domain.frequency, shortest_cycle_time := domain.cycle_time }
  else e

def UpdateFastestFrequency (e : Engine) : Engine :=
  e.frequency_domains.foldl UpdateFastestFrequency.body
    { e with fastest_frequency := 0, shortest_cycle_time := 0 }

def setFrequency (e : Engine) (domain : DomainId) (frequency : ℕ) : Option Engine :=
  if frequency = 0 then none
  else some (UpdateFastestFrequency { e with
    frequency_domains := e.frequency_domains.set domain (FrequencyDomain.new frequency) })

def RegisterEvent (e : Engine) (domain : Option DomainId) : Engine :=
  { e with events := e.events ++ [⟨domain, 0⟩] }

def addInFlight (e : Engine) (event : EventId) (n : ℤ) : Engine :=
  { e with events := e.events.modify event fun ev =>
      { ev with num_in_flight := ev.num_in_flight + n } }

def timeAfter (e : Engine) (cycle_time after : ℕ) : ℕ :=
  e.current_time / cycle_time * cycle_time + cycle_time * after

/-- Cycle time of the frequency domain of an event, if it has one. -/
def cycleTime (e : Engine) (event : EventId) : Option ℕ := do
  let ev ← e.events[event]?
  let domain ← ev.frequency_domain
  let frequency_domain ← e.frequency_domains[domain]?
  some frequency_domain.cycle_time

/-- Insert a frame into the heap with the next sequence number. -/
def insert (e : Engine) (event : EventId) (f : FrameId) (time period : ℕ) : Engine :=
  let sequence := e.schedule_sequence_counter + 1
  let e : Engine := e.updateFrame f fun frame =>
    { frame with event := some event, time := time, period := period,
                 schedule_sequence := sequence, in_heap := true }
  addInFlight { e with
    num_frames := max e.num_frames (f + 1)
    schedule_sequence_counter := sequence
    heap := f :: e.heap
    scheduled := ⟨f, time, sequence, e.current_time⟩ :: e.scheduled } event 1

def Schedule (e : Engine) (event : Option EventId) (frame : Option FrameId)
    (after period : ℕ) : Option Engine :=
  match frame with
  | none => none
  | some f =>
    if (e.frames f).in_queue then none
    else if (e.frames f).in_heap then none
    else if e.locked then some e
    else
      match event with
      | none => some e
      | some event =>
        if event = null_event then some e
        else
          (e.cycleTime event).bind fun cycle_time =>
            -- a cycle time of zero divides by zero
            if cycle_time = 0 then none
            else some (e.insert event f (e.timeAfter cycle_time after) period)

def Next (e : Engine) (event : Option EventId) (after period : ℕ) : Option Engine :=
  match e.current_frame with
  | some f => e.Schedule event (some f) after period
  | none => e.newFrame.1.Schedule event (some e.newFrame.2) after period

/-- `Execute` up to the call of the handler; `executeEnd` restores the previous frame. -/
def Execute (e : Engine) (event : Option EventId) (frame : FrameId)
    (receive_event : Option EventId) : Option Engine :=
  match event with
  | none => some e
  | some event =>
    if event = null_event then some e
    else
      some { e.linkFrame frame receive_event e.current_frame with
        current_frame := some frame, saved := e.current_frame :: e.saved }

def executeEnd (e : Engine) : Option Engine :=
  match e.saved with
  | [] => none
  | old :: saved => some { e with current_frame := old, saved := saved }

def Call (e : Engine) (event : Option EventId) (frame : Option FrameId)
    (return_event : Option EventId) (after period : ℕ) : Option Engine :=
  match frame with
  | some f => (e.linkFrame f return_event e.current_frame).Schedule event (some f) after period
  | none =>
    (e.newFrame.1.linkFrame e.newFrame.2 return_event e.current_frame).Schedule event
      (some e.newFrame.2) after period

def Return (e : Engine) (after : ℕ) : Option Engine :=
  match e.current_frame with
  | none => none
  | some f =>
    match (e.frames f).return_event with
    | none => some e
    | some event => e.Schedule (some event) (e.frames f).parent_frame after 0

def EndEvent (e : Engine) (event : Option EventId) : Option Engine :=
  match event with
  | none => some e
  | some event =>
    if event = null_event then some e
    else
      some { e.newFrame.1.setEvent e.newFrame.2 event with
        end_frames := e.end_frames ++ [e.newFrame.2] }

/-- Take the frame on top of the heap and make it the current frame, at time `now`. -/
def extract (e : Engine) (f : FrameId) (event : EventId) (now : ℕ) : Engine :=
  let frame := e.frames f
  let e := e.updateFrame f fun frame => { frame with in_heap := false }
  { e with
    heap := e.heap.erase f
    current_time := now
    current_frame := some f
    running := some event
    ran := ⟨⟨f, frame.time, frame.schedule_sequence, now⟩, e.schedule_sequence_counter⟩ :: e.ran }

/-- One iteration of the loop of `ProcessEvents`, up to the call of the handler. -/
def processEvent (e : Engine) : Option Engine :=
  match e.mode, e.running, e.heapTop with
  | .processing, none, some f =>
    if e.current_time < (e.frames f).time then none
    else if e.current_frame.isSome || !(e.frames f).in_heap then none
    else (e.frames f).event.map fun event =>
      (e.extract f event e.current_time).addInFlight event (-1)
  | _, _, _ => none

def nextCycle (e : Engine) : Option Engine :=
  match e.mode, e.running with
  | .processing, none =>
    if e.heapTop.any fun f => (e.frames f).time ≤ e.current_time then none
    else some { e with mode := .outside, current_time := e.current_time + e.shortest_cycle_time }
  | _, _ => none

/-- One iteration of the loop of `Drain`, up to the call of the handler. -/
def drainEvent (e : Engine) : Option Engine :=
  match e.mode, e.running, e.heapTop with
  | .draining num_events max_events, none, some f =>
    if e.current_frame.isSome || !(e.frames f).in_heap then none
    else (e.frames f).event.map fun event =>
      { e.extract f event (e.frames f).time with mode := .draining (num_events + 1) max_events }
  | _, _, _ => none

def drainEnd (e : Engine) : Option Engine :=
  match e.mode, e.running, e.heap with
  | .draining _ _, none, [] => some { e with mode := .outside }
  | _, _, _ => none

def endEvent (e : Engine) : Option Engine :=
  match e.mode, e.running, e.end_frames with
  | .ending, none, f :: end_frames =>
    if e.current_frame.isSome then none
    else (e.frames f).event.map fun event =>
      { e with end_frames := end_frames, current_frame := some f, running := some event }
  | _, _, _ => none

/-- What follows a handler in the loop: `ProcessEvents` reschedules a periodic frame, and `Drain`
stops after `max_events` handlers. -/
def afterHandler (e : Engine) (event : EventId) : Option Engine :=
  match e.mode, e.current_frame with
  | .processing, some f =>
    if 0 < (e.frames f).period then
      e.Schedule (some event) (some f) (e.frames f).period (e.frames f).period
    else some e
  | .draining num_events max_events, _ =>
    if num_events = max_events then some { e with mode := .outside } else some e
  | _, _ => some e

/-- The handler called by the engine returns. -/
def handlerEnd (e : Engine) : Option Engine :=
  match e.running, e.saved with
  | some event, [] =>
    (e.afterHandler event).map fun e => { e with current_frame := none, running := none }
  | _, _ => none

def wait (e : Engine) (queue : List FrameId) (event : Option EventId) (priority : Bool) :
    Option (Engine × List FrameId) :=
  match e.current_frame, event with
  | some f, some event =>
    if (e.frames f).in_heap then none
    else if (e.frames f).wakeup_event.isSome || (e.frames f).in_queue then none
    else some (e.queueFrame f (some event), if priority then f :: queue else queue ++ [f])
  | _, _ => none

def wakeupOne (e : Engine) (queue : List FrameId) : Option (Engine × List FrameId) :=
  match queue with
  | [] => none
  | f :: queue =>
    match (e.frames f).wakeup_event with
    | none => none
    | some event =>
      ((e.queueFrame f none).Schedule (some event) (some f) 0 0).map fun e => (e, queue)

end Engine

end OISA.Esim
