import OISA.Net.Wires
import OISA.Lib.Digraphs

/-!
# Messages and their packets

Model of `Network::CanSend`, `Send`, `TrySend` and `Receive`, of the events of
`network/SystemEvents.cc`, of `Message.cc` and of the space in buffers.
-/

namespace OISA.Net

/-- The panics about packets and space. Any other panic or error is `other`. -/
inductive Panic
  | noEnoughSpace
  | outputBufferFull
  | assembledTwice
  | notInBuffer
  | other
  deriving DecidableEq, Repr

structure Topology extends Wiring where
  /-- the output buffer of an entry of the routing table -/
  buffer : ℕ → ℕ → Option ℕ
  is_switch : ℕ → Bool
  is_end : ℕ → Bool
  packet_size : ℕ
  fix_latency : ℕ

structure Contents where
  packets : List ℕ
  count : ℕ

structure MessagePacket where
  size : ℕ
  message : ℕ
  node : Option ℕ
  buffer : Option ℕ

structure Message where
  source_node : ℕ
  destination_node : ℕ
  size : ℕ
  packets : List ℕ
  received_packets : List ℕ
  automatic_receive : Bool

inductive Stage
  | output
  | input
  | receive
  deriving DecidableEq, Repr

instance : LawfulBEq (ℕ × Stage) := inferInstance

/-- A message received: where it went, and the nodes of its packets at that time. -/
structure Reception where
  message : ℕ
  destination : ℕ
  nodes : List (Option ℕ)

structure Delivery where
  buffers : ℕ → Contents
  packets : ℕ → MessagePacket
  message_table : ℕ → Option Message
  events : List (ℕ × Stage)
  num_packets : ℕ
  num_messages : ℕ
  /-- messages whose receive event has been scheduled -/
  returned : List ℕ
  received : List Reception

def Delivery.new : Delivery where
  buffers _ := { packets := [], count := 0 }
  packets _ := { size := 0, message := 0, node := none, buffer := none }
  message_table _ := none
  events := []
  num_packets := 0
  num_messages := 0
  returned := []
  received := []

namespace Delivery

variable (w : Topology) (s : Delivery)

/-- `Next` of an event of a packet -/
def schedule (p : ℕ) (stage : Stage) : Delivery := { s with events := s.events ++ [(p, stage)] }

def setPacket (p : ℕ) (packet : MessagePacket) : Delivery :=
  { s with packets := Function.update s.packets p packet }

def setContents (B : ℕ) (contents : Contents) : Delivery :=
  { s with buffers := Function.update s.buffers B contents }

def InsertPacket (B p : ℕ) : Except Panic Delivery :=
  if (s.buffers B).count + (s.packets p).size > w.size B then .error .noEnoughSpace
  else .ok (s.setContents B {
    packets := (s.buffers B).packets ++ [p]
    count := (s.buffers B).count + (s.packets p).size })

def RemovePacket (B p : ℕ) : Except Panic Delivery :=
  if p ∉ (s.buffers B).packets then .error .notInBuffer
  else .ok (s.setContents B {
    packets := (s.buffers B).packets.erase p
    count := (s.buffers B).count - (s.packets p).size })

def ExtractPacket (B : ℕ) : Except Panic Delivery :=
  match (s.buffers B).packets with
  | [] => .error .other
  | p :: packets => .ok (s.setContents B {
    packets
    count := (s.buffers B).count - (s.packets p).size })

def put (B p : ℕ) (node : Option ℕ) : Except Panic Delivery :=
  (s.InsertPacket w B p).map fun s => s.setPacket p { s.packets p with
    node
    buffer := some B }

def move (B D p : ℕ) (node : Option ℕ) (stage : Stage) : Except Panic Delivery :=
  (s.ExtractPacket B).bind fun s => (s.put w D p node).map fun s => s.schedule p stage

def linkTransferPacket (l B p : ℕ) (blocked : Bool) : Except Panic Delivery :=
  if B ∉ w.link_sources l then .error .other
  else if (s.buffers B).packets.head? ≠ some p ∨ blocked then .ok (s.schedule p .output)
  else match (w.link_destinations l)[(w.link_sources l).idxOf B]? with
    | none => .error .other
    | some D =>
      if (s.buffers D).count + (s.packets p).size > w.size D then .ok (s.schedule p .output)
      else s.move w B D p (some (w.node D)) .input

/-- `Bus::TransferPacket` -/
def busTransferPacket (b B p : ℕ) (message : Message) (blocked : Bool) : Except Panic Delivery :=
  if B ∉ w.bus_sources b then .error .other
  else if (s.buffers B).packets.head? ≠ some p then .ok (s.schedule p .output)
  else match (w.next_node (w.node B) message.destination_node).bind fun node =>
      (w.bus_destinations b).find? fun D => w.node D = node with
    | none => .error .other
    | some D =>
      if blocked then .ok (s.schedule p .output)
      else if (s.packets p).size > w.size D then .error .other
      else if (s.buffers D).count + (s.packets p).size > w.size D then .ok (s.schedule p .output)
      else s.move w B D p (some (w.node D)) .input

def EventTypeOutputBufferHandler (p : ℕ) (message : Message) (blocked : Bool) :
    Except Panic Delivery :=
  match (s.packets p).buffer with
  | none => .error .other
  | some B => match w.connection B with
    | .link l => s.linkTransferPacket w l B p blocked
    | .bus b => s.busTransferPacket w b B p message blocked

def Forward (node B p : ℕ) (message : Message) (blocked : Bool) : Except Panic Delivery :=
  if w.node B ≠ node then .error .other
  else match w.buffer node message.destination_node with
    | none => .error .other
    | some D =>
      if blocked then .ok (s.schedule p .input)
      else if (s.packets p).size > w.size D then .error .other
      else if (s.buffers D).count + (s.packets p).size > w.size D then .ok (s.schedule p .input)
      else s.move w B D p (s.packets p).node .output

def EventTypeInputBufferHandler (p : ℕ) (message : Message) (blocked : Bool) :
    Except Panic Delivery :=
  match (s.packets p).node, (s.packets p).buffer with
  | some node, some B =>
    if node = message.destination_node then .ok (s.schedule p .receive)
    else if (s.buffers B).packets.head? ≠ some p then .ok (s.schedule p .input)
    else if !w.is_switch node then .error .other
    else s.Forward w node B p message blocked
  | _, _ => .error .other

def removePackets : List ℕ → Delivery → Except Panic Delivery
  | [], s => .ok s
  | p :: ps, s => match (s.packets p).buffer with
    | none => .error .other
    | some B => (s.RemovePacket B p).bind (removePackets ps)

def Receive (node m : ℕ) : Except Panic Delivery :=
  match s.message_table m with
  | none => .error .other
  | some message =>
    if message.packets.any fun p => (s.packets p).node ≠ some node then .error .other
    else
      (if w.fix_latency = 0 then removePackets message.packets s else .ok s).map fun s =>
        { s with
          message_table := Function.update s.message_table m none
          received := s.received ++ [{
            message := m
            destination := message.destination_node
            nodes := message.packets.map fun p => (s.packets p).node }] }

def Assemble (m p : ℕ) (message : Message) : Except Panic (Delivery × Bool) :=
  if p ∉ message.packets then .error .other
  else if p ∈ message.received_packets then .error .assembledTwice
  else
    let message := { message with received_packets := message.received_packets ++ [p] }
    .ok ({ s with message_table := Function.update s.message_table m (some message) },
      message.received_packets.length = message.packets.length)

def EventTypeReceiveHandler (p : ℕ) (message : Message) : Except Panic Delivery :=
  match (s.packets p).node with
  | none => .error .other
  | some node =>
    if !w.is_end node then .error .other
    else (s.Assemble (s.packets p).message p message).bind fun (s, complete) =>
      if complete then
        if message.automatic_receive then s.Receive w node (s.packets p).message
        else .ok { s with returned := s.returned ++ [(s.packets p).message] }
      else .ok s

def EventTypeSendHandler (p : ℕ) (message : Message) : Except Panic Delivery :=
  if w.fix_latency ≠ 0 then
    .ok ((s.setPacket p { s.packets p with
      node := some message.destination_node }).schedule p .receive)
  else match w.buffer message.source_node message.destination_node with
    | none => .error .other
    | some B =>
      if message.size > w.size B then .error .other
      else if (s.buffers B).count + (s.packets p).size > w.size B then .error .outputBufferFull
      else (s.put w B p (some message.source_node)).map fun s => s.schedule p .output

def sendPackets (message : Message) : List ℕ → Delivery → Except Panic Delivery
  | [], s => .ok s
  | p :: ps, s => (s.EventTypeSendHandler w p message).bind (sendPackets message ps)

def packetSize (size : ℕ) : ℕ := if w.packet_size = 0 then size else w.packet_size

def packetCount (size : ℕ) : ℕ := (size - 1) / packetSize w size + 1

/-- `newMessage` and `Message::Packetize` -/
def newMessage (source destination size : ℕ) (automatic_receive : Bool) : Message × Delivery :=
  let message : Message := {
    source_node := source
    destination_node := destination
    size
    packets := List.range' s.num_packets (packetCount w size)
    received_packets := []
    automatic_receive }
  let packet : MessagePacket := {
    size := packetSize w size
    message := s.num_messages
    node := none
    buffer := none }
  (message, { s with
    message_table := Function.update s.message_table s.num_messages (some message)
    packets := fun p => if p ∈ message.packets then packet else s.packets p
    num_messages := s.num_messages + 1
    num_packets := s.num_packets + packetCount w size })

def Send (source destination size : ℕ) (automatic_receive : Bool) : Except Panic Delivery :=
  let (message, s) := s.newMessage w source destination size automatic_receive
  sendPackets w message message.packets s

/-- `Network::CanSend`, where the output buffer may be busy -/
def CanSend (source destination size : ℕ) (busy : Bool) : Except Panic Bool :=
  match w.buffer source destination with
  | none => .ok false
  | some B =>
    if busy then .ok false
    else
      let required_size :=
        if w.packet_size ≠ 0 then ((size - 1) / w.packet_size + 1) * w.packet_size else size
      if required_size > w.size B then .error .other
      else .ok ((s.buffers B).count + required_size ≤ w.size B)

def TrySend (source destination size : ℕ) (automatic_receive busy : Bool) :
    Except Panic Delivery :=
  match w.buffer source destination with
  | none => .error .other
  | some _ => (s.CanSend w source destination size busy).bind fun can =>
    if can then s.Send w source destination size automatic_receive else .ok s

/-- The event of a packet is handled. -/
def handle (p : ℕ) (stage : Stage) (blocked : Bool) : Except Panic Delivery :=
  match s.message_table (s.packets p).message with
  | none => .error .other
  | some message =>
    let s := { s with events := s.events.erase (p, stage) }
    match stage with
    | .output => s.EventTypeOutputBufferHandler w p message blocked
    | .input => s.EventTypeInputBufferHandler w p message blocked
    | .receive => s.EventTypeReceiveHandler w p message

end Delivery

/-- What happens: a message is sent, an event of a packet is handled, or the receive event of a
message is handled, which receives it. -/
inductive DeliveryOp
  | send (source destination size : ℕ) (automatic_receive : Bool)
  | trySend (source destination size : ℕ) (automatic_receive busy : Bool)
  | handle (p : ℕ) (stage : Stage) (blocked : Bool)
  | receive (node m : ℕ)

/-- The operation, if it can happen -/
def DeliveryOp.outcome (w : Topology) : DeliveryOp → Delivery → Option (Except Panic Delivery)
  | .send source destination size automatic, s =>
    if 0 < size then some (s.Send w source destination size automatic) else none
  | .trySend source destination size automatic busy, s =>
    if 0 < size then some (s.TrySend w source destination size automatic busy) else none
  | .handle p stage blocked, s =>
    if (p, stage) ∈ s.events then some (s.handle w p stage blocked) else none
  | .receive node m, s =>
    if m ∈ s.returned then
      some ({ s with returned := s.returned.filter (· ≠ m) }.Receive w node m)
    else none

structure DeliveryRun where
  network : Delivery
  panic : Option Panic

def DeliveryRun.new : DeliveryRun where
  network := .new
  panic := none

/-- A panic ends the simulation. -/
def DeliveryOp.perform (w : Topology) (op : DeliveryOp) (r : DeliveryRun) : Option DeliveryRun :=
  if r.panic.isSome then none
  else (op.outcome w r.network).map fun
    | .ok s => { r with network := s }
    | .error panic => { r with panic := some panic }

end OISA.Net

/-!
## Dependencies of output buffers

Model of `RoutingTable::hasCycle`. The vertices are the output buffers in the routing table, and an
edge leads from the output buffer of a route to the one at the next node.
-/

namespace OISA.Net

open OISA.Lib

structure Layout where
  nodes : List ℕ
  output_buffers : ℕ → List ℕ

namespace Layout

variable (layout : Layout) (w : Topology)

def vertices : List ℕ :=
  layout.nodes.flatMap fun node => (layout.output_buffers node).filter fun B =>
    layout.nodes.any fun destination => w.buffer node destination = some B

def adjacent (B : ℕ) : List ℕ :=
  layout.nodes.flatMap fun source => layout.nodes.filterMap fun destination =>
    if source = destination then none
    else if w.buffer source destination = some B then
      (w.next_node source destination).bind fun next => w.buffer next destination
    else none

def hasCycle : Bool := searchCycle (layout.adjacent w) (layout.vertices w)

end Layout

def Topology.target (w : Topology) (B destination : ℕ) : Option ℕ :=
  match w.connection B with
  | .link l => (w.link_destinations l)[(w.link_sources l).idxOf B]?
  | .bus b => (w.next_node (w.node B) destination).bind fun node =>
      (w.bus_destinations b).find? fun D => w.node D = node

/-- The source buffers of the connection of a buffer -/
def Topology.sources (w : Topology) (B : ℕ) : List ℕ :=
  match w.connection B with
  | .link l => w.link_sources l
  | .bus b => w.bus_sources b

/-- What the routing table of a network gives: the output buffer of an entry is at its node and a
source of its connection, which leads to an input buffer of the next node, and the next node is the
destination or a switch with a route to it. -/
structure WellRouted (layout : Layout) (w : Topology) : Prop where
  known : ∀ {n d B}, w.buffer n d = some B → n ∈ layout.nodes ∧ d ∈ layout.nodes ∧ n ≠ d ∧
    B ∈ layout.output_buffers n ∧ w.node B = n
  source : ∀ {n d B}, w.buffer n d = some B → B ∈ w.sources B
  target : ∀ {n d B}, w.buffer n d = some B → ∃ D, w.target B d = some D ∧
    w.next_node n d = some (w.node D) ∧
      (w.node D = d ∨ w.is_switch (w.node D) = true ∧ ∃ B', w.buffer (w.node D) d = some B')
  input : ∀ {n d B B' d' D}, w.buffer n d = some B → w.target B' d' = some D → D ≠ B

/-- An input buffer of a switch is reached from one output buffer. -/
def FedOnce (w : Topology) : Prop :=
  ∀ {n d B n' d' B' D}, w.buffer n d = some B → w.target B d = some D →
    w.buffer n' d' = some B' → w.target B' d' = some D → w.is_switch (w.node D) = true → B = B'

end OISA.Net
