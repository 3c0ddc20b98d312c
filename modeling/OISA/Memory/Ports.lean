import OISA.Esim.Run

/-!
# Ports of a module

`Module::LockPort` and `Module::UnlockPort`, on top of the event engine: a frame that finds no
free port is suspended in the port queue of the module, and the frame that unlocks a port hands it
to the head of that queue.
-/

namespace OISA.Memory

open OISA.Esim

def port_queue : QueueId := 0

structure Ports where
  world : World := {}
  ports : List (Option FrameId) := []
  num_locked_ports : ℕ := 0
  port : FrameId → Option ℕ := fun _ => none
  waits : List FrameId := []
  grants : List FrameId := []

namespace Ports

/-- A module with `n` ports, in an engine that has not started. -/
def new (n : ℕ) : Ports := { ports := List.replicate n none }

def num_ports (m : Ports) : ℕ := m.ports.length

/-- Give a port to a frame. -/
def lock (m : Ports) (port : ℕ) (frame : FrameId) : Ports :=
  { m with
    ports := m.ports.set port (some frame)
    port := Function.update m.port frame (some port)
    num_locked_ports := m.num_locked_ports + 1 }

def unlock (m : Ports) (port : ℕ) (frame : FrameId) : Ports :=
  { m with
    ports := m.ports.set port none
    port := Function.update m.port frame none
    num_locked_ports := m.num_locked_ports - 1 }

/-- Called in a handler of the frame. The direction of its request is given by `down_up`. -/
def LockPort (down_up : FrameId → Bool) (m : Ports) (frame : FrameId) (event : Option EventId) :
    Option Ports :=
  if m.num_ports ≤ m.num_locked_ports then
    (World.step (.wait port_queue event (down_up frame)) m.world).map fun world =>
      { m with world := world, waits := m.waits ++ [frame] }
  else
    match m.ports.findIdx? (·.isNone) with
    | none => none
    | some port =>
      (World.step (.next event 0 0) m.world).map fun world =>
        { m.lock port frame with world := world }

def UnlockPort (m : Ports) (port : ℕ) (frame : FrameId) : Option Ports :=
  if m.num_locked_ports = 0 then none
  else if m.port frame = some port ∧ m.ports[port]? = some (some frame) then
    let m := m.unlock port frame
    match (m.world.queues port_queue).head? with
    | none => some m
    | some frame =>
      (World.step (.wakeupOne port_queue) m.world).map fun world =>
        { m.lock port frame with world := world, grants := m.grants ++ [frame] }
  else none

/-- Everything else in the system works on the engine, and on no queue of ports. -/
inductive Op
  | esim (op : Esim.Op)
  | lockPort (frame : FrameId) (event : Option EventId)
  | unlockPort (port : ℕ) (frame : FrameId)
  deriving DecidableEq, Repr

def onPortQueue : Esim.Op → Bool
  | .wait queue _ _ => queue = port_queue
  | .wakeupOne queue => queue = port_queue
  | _ => false

def step (down_up : FrameId → Bool) (op : Op) (m : Ports) : Option Ports :=
  match op with
  | .esim op =>
    if onPortQueue op then none
    else (World.step op m.world).map fun world => { m with world := world }
  | .lockPort frame event =>
    if m.world.engine.current_frame = some frame then m.LockPort down_up frame event else none
  | .unlockPort port frame =>
    if World.callable m.world.engine then m.UnlockPort port frame else none

end Ports

end OISA.Memory
