import OISA.Esim.Engine
import OISA.Lib.Runs

/-!
# Runs of the engine

A handler is any sequence of operations on the engine, so a run is a list of operations: those of
handlers and of the code around the engine, and the steps of the engine's own loops.
-/

namespace OISA.Esim

abbrev QueueId := ℕ

structure World where
  engine : Engine := {}
  queues : QueueId → List FrameId := fun _ => []

inductive Op
  | registerFrequencyDomain (frequency : ℕ)
  | setFrequency (domain : DomainId) (frequency : ℕ)
  | registerEvent (domain : Option DomainId)
  | newFrame
  | schedule (event : Option EventId) (frame : FrameId) (after period : ℕ)
  | next (event : Option EventId) (after period : ℕ)
  | call (event : Option EventId) (frame : Option FrameId) (return_event : Option EventId)
      (after period : ℕ)
  | ret (after : ℕ)
  | execute (event : Option EventId) (frame : FrameId) (receive_event : Option EventId)
  | executeEnd
  | atEnd (event : Option EventId)
  | wait (queue : QueueId) (event : Option EventId) (priority : Bool)
  | wakeupOne (queue : QueueId)
  | startProcess
  | processEvent
  | nextCycle
  | startDrain (max_events : ℕ)
  | drainEvent
  | drainEnd
  | startEnd
  | endEvent
  | endEnd
  | handlerEnd
  deriving DecidableEq, Repr

namespace World

/-- Operations of handlers and of the code outside the loops of the engine. -/
def call (e : Engine) : Op → Option Engine
  | .registerFrequencyDomain frequency => e.RegisterFrequencyDomain frequency
  | .setFrequency domain frequency => e.setFrequency domain frequency
  | .registerEvent domain => some (e.RegisterEvent domain)
  | .newFrame => some e.newFrame.1
  | .schedule event f after period => e.Schedule event (some f) after period
  | .next event after period => e.Next event after period
  | .call event frame return_event after period => e.Call event frame return_event after period
  | .ret after => e.Return after
  | .execute event f receive_event => e.Execute event f receive_event
  | .executeEnd => e.executeEnd
  | .atEnd event => e.EndEvent event
  | _ => none

/-- Steps of the loops of the engine. -/
def loop (e : Engine) : Op → Option Engine
  | .startProcess => if e.mode = .outside then some { e with mode := .processing } else none
  | .processEvent => e.processEvent
  | .nextCycle => e.nextCycle
  | .startDrain max_events =>
    if e.mode = .outside then some { e with mode := .draining 0 max_events } else none
  | .drainEvent => e.drainEvent
  | .drainEnd => e.drainEnd
  | .startEnd => if e.mode = .outside then some { e with mode := .ending } else none
  | .endEvent => e.endEvent
  | .endEnd =>
    if e.mode = .ending ∧ e.running = none ∧ e.end_frames = [] then
      some { e with mode := .outside }
    else none
  | .handlerEnd => e.handlerEnd
  | _ => none

/-- Whether handlers or the code outside the loops may run. -/
def callable (e : Engine) : Bool := e.running.isSome || e.mode = .outside

def step (op : Op) (w : World) : Option World :=
  match op with
  | .wait queue event priority =>
    if callable w.engine then
      (w.engine.wait (w.queues queue) event priority).map fun x =>
        ⟨x.1, Function.update w.queues queue x.2⟩
    else none
  | .wakeupOne queue =>
    if callable w.engine then
      (w.engine.wakeupOne (w.queues queue)).map fun x =>
        ⟨x.1, Function.update w.queues queue x.2⟩
    else none
  | op =>
    if callable w.engine ∧ (call w.engine op).isSome then
      (call w.engine op).map fun e => { w with engine := e }
    else (loop w.engine op).map fun e => { w with engine := e }

/-- The event an operation passes to `Schedule`, and the number of cycles. -/
def request (w : World) : Op → Option (EventId × ℕ)
  | .schedule event _ after _ => event.map (·, after)
  | .next event after _ => event.map (·, after)
  | .call event _ _ after _ => event.map (·, after)
  | .ret after => do
    let f ← w.engine.current_frame
    let event ← (w.engine.frames f).return_event
    some (event, after)
  | .wakeupOne queue => do
    let f ← (w.queues queue).head?
    let event ← (w.engine.frames f).wakeup_event
    some (event, 0)
  | _ => none

end World

end OISA.Esim
