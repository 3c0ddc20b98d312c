import Mathlib.Tactic

/-!
# Transfers over links and buses

Model of `network/Link.cc`, `network/Bus.cc`, `network/Buffer.cc` and the output-buffer events of
`network/SystemEvents.cc`. Buffers, packets, links and buses are numbers.
-/

namespace OISA.Net

inductive Connected
  | link (l : ℕ)
  | bus (b : ℕ)
  deriving DecidableEq, Repr

structure Wiring where
  connection : ℕ → Connected
  /-- whether a buffer is a source buffer of its connection -/
  isSource : ℕ → Bool
  node : ℕ → ℕ
  size : ℕ → ℕ
  link_bandwidth : ℕ → ℕ
  link_sources : ℕ → List ℕ
  link_destinations : ℕ → List ℕ
  /-- the bandwidth of each lane -/
  bus_lanes : ℕ → List ℕ
  bus_sources : ℕ → List ℕ
  bus_destinations : ℕ → List ℕ
  /-- the next node of the routing table -/
  next_node : ℕ → ℕ → Option ℕ
  link_valid : ∀ l, ∀ B ∈ link_sources l, connection B = .link l ∧ isSource B = true
  bus_valid : ∀ b, ∀ B ∈ bus_sources b, connection B = .bus b ∧ isSource B = true

structure PacketBuffer where
  packets : List ℕ
  count : ℕ
  read_busy : ℤ
  write_busy : ℤ

structure Packet where
  size : ℕ
  destination : ℕ
  buffer : ℕ
  busy : ℤ

structure LinkState where
  busy : ℤ
  scheduled_when : ℤ
  scheduled_buffer : Option ℕ
  last_scheduled_buffer_index : ℤ

structure Lane where
  busy : ℤ
  scheduled_when : ℤ
  scheduled_buffer : Option ℕ

/-- The output-buffer event of a packet: due at a cycle, or in the queue of a buffer. -/
inductive Pending
  | due (cycle : ℤ)
  | waiting (B : ℕ)
  deriving DecidableEq

inductive Wire
  | link (l : ℕ)
  | lane (b k : ℕ)
  deriving DecidableEq, Repr

structure Transmission where
  wire : Wire
  source : ℕ
  packet : ℕ
  start : ℤ
  latency : ℕ
  deriving DecidableEq, Repr

def Transmission.last (T : Transmission) : ℤ := T.start + T.latency - 1

structure Traffic where
  cycle : ℤ
  buffers : ℕ → PacketBuffer
  packets : ℕ → Packet
  links : ℕ → LinkState
  lanes : ℕ → ℕ → Lane
  last_node_index : ℕ → ℤ
  events : List (ℕ × Pending)
  transmissions : List Transmission

def Traffic.new : Traffic where
  cycle := 0
  buffers _ := { packets := [], count := 0, read_busy := -1, write_busy := -1 }
  packets _ := { size := 0, destination := 0, buffer := 0, busy := 0 }
  links _ := {
    busy := -1
    scheduled_when := -1
    scheduled_buffer := none
    last_scheduled_buffer_index := -1 }
  lanes _ _ := { busy := -1, scheduled_when := 0, scheduled_buffer := none }
  last_node_index _ := -1
  events := []
  transmissions := []

namespace Traffic

variable (w : Wiring) (s : Traffic)

/-- `Next(current_event, after)` -/
def next (p : ℕ) (after : ℤ) : Traffic :=
  { s with events := s.events ++ [(p, .due (s.cycle + after))] }

def wait (p B : ℕ) : Traffic := { s with events := s.events ++ [(p, .waiting B)] }

def wake (B : ℕ) : Traffic :=
  { s with events := s.events.map fun event =>
      if event.2 = .waiting B then (event.1, .due s.cycle) else event }

def setBuffer (B : ℕ) (buffer : PacketBuffer) : Traffic :=
  { s with buffers := Function.update s.buffers B buffer }

/-- The arbitration check of a source buffer: a packet at the head that is ready, in a buffer
that is not being read. -/
def ready (B : ℕ) : Bool :=
  match (s.buffers B).packets.head? with
  | none => false
  | some p => (s.packets p).busy < s.cycle && (s.buffers B).read_busy < s.cycle

def pick (sources : List ℕ) (last : ℤ) : Option (ℕ × ℕ) :=
  (List.range sources.length).findSome? fun i =>
    let index := ((last + i + 1) % sources.length).toNat
    sources[index]?.bind fun B => if s.ready B then some (index, B) else none

def setLink (l : ℕ) (link : LinkState) : Traffic :=
  { s with links := Function.update s.links l link }

def VirtualChannelArbitration (l : ℕ) : Traffic × Option ℕ :=
  let link := s.links l
  if link.scheduled_when = s.cycle then (s, link.scheduled_buffer)
  else match s.pick (w.link_sources l) link.last_scheduled_buffer_index with
    | some (index, B) =>
      (s.setLink l { link with
        scheduled_when := s.cycle
        scheduled_buffer := some B
        last_scheduled_buffer_index := index }, some B)
    | none =>
      (s.setLink l { link with
        scheduled_when := s.cycle
        scheduled_buffer := none }, none)

def setLane (b k : ℕ) (lane : Lane) : Traffic :=
  { s with lanes := fun b' k' => if b' = b ∧ k' = k then lane else s.lanes b' k' }

def LaneArbitration (b k : ℕ) : Traffic × Option ℕ :=
  let lane := s.lanes b k
  if lane.scheduled_when ≥ s.cycle then (s, lane.scheduled_buffer)
  else if lane.busy ≥ s.cycle then
    (s.setLane b k { lane with
      scheduled_when := s.cycle
      scheduled_buffer := none }, none)
  else match s.pick (w.bus_sources b) (s.last_node_index b) with
    | some (index, B) =>
      ({ s.setLane b k { lane with
          scheduled_when := s.cycle
          scheduled_buffer := some B } with
        last_node_index := Function.update s.last_node_index b index }, some B)
    | none =>
      (s.setLane b k { lane with
        scheduled_when := s.cycle
        scheduled_buffer := none }, none)

def Arbitration (b B : ℕ) : List ℕ → Traffic → Traffic × Option ℕ
  | [], s => (s, none)
  | k :: ks, s =>
    let (s, found) := s.LaneArbitration w b k
    if found = some B then (s, some k) else Arbitration b B ks s

/-- The transfer of the packet at the head of buffer `B` to buffer `D`: the buffers are busy,
the packet moves, and the events in the queue of the source buffer wake up. -/
def transfer (wire : Wire) (latency p B D : ℕ) : Traffic :=
  let busy := s.cycle + latency - 1
  let packet := s.packets p
  let source := s.buffers B
  let s := s.setBuffer B { source with
    packets := source.packets.tail
    count := source.count - packet.size
    read_busy := busy }
  let s := s.wake B
  let destination := s.buffers D
  let s := s.setBuffer D { destination with
    packets := destination.packets ++ [p]
    count := destination.count + packet.size
    write_busy := busy }
  { s with
    packets := Function.update s.packets p { packet with
      buffer := D
      busy := busy }
    transmissions := s.transmissions ++
      [{ wire, source := B, packet := p, start := s.cycle, latency }] }

def latency (p bandwidth : ℕ) : ℕ := ((s.packets p).size - 1) / bandwidth + 1

/-- `Link::TransferPacket`, with `none` for a panic -/
def linkTransfer (l p : ℕ) : Option Traffic :=
  let B := (s.packets p).buffer
  if B ∉ w.link_sources l then none
  else if (s.buffers B).packets.head? ≠ some p then some (s.wait p B)
  else if (s.links l).busy ≥ s.cycle then some (s.next p ((s.links l).busy - s.cycle + 1))
  else
    let (s, next_buffer) := s.VirtualChannelArbitration w l
    if next_buffer ≠ some B then some (s.next p 1)
    else match (w.link_destinations l)[(w.link_sources l).idxOf B]? with
      | none => none
      | some D =>
        if (s.buffers D).write_busy ≥ s.cycle then
          some (s.next p ((s.buffers D).write_busy - s.cycle + 1))
        else if (s.buffers D).count + (s.packets p).size > w.size D then some (s.wait p D)
        else
          let latency := s.latency p (w.link_bandwidth l)
          let s := s.setLink l { s.links l with busy := s.cycle + latency - 1 }
          some (s.transfer (.link l) latency p B D)

def busDestination (b p B : ℕ) : Option ℕ :=
  (w.next_node (w.node B) (s.packets p).destination).bind fun node =>
    (w.bus_destinations b).find? fun D => w.node D = node

/-- `Bus::TransferPacket`, with `none` for a panic -/
def busTransfer (b p : ℕ) : Option Traffic :=
  let B := (s.packets p).buffer
  if B ∉ w.bus_sources b then none
  else if (s.buffers B).packets.head? ≠ some p then some (s.wait p B)
  else match s.busDestination w b p B with
    | none => none
    | some D =>
      if (s.buffers D).write_busy ≥ s.cycle then
        some (s.next p ((s.buffers D).write_busy - s.cycle + 1))
      else if (s.packets p).size > w.size D then none
      else if (s.buffers D).count + (s.packets p).size > w.size D then some (s.wait p D)
      else
        let (s, lane) := Arbitration w b B (List.range (w.bus_lanes b).length) s
        match lane with
        | none => some (s.next p 1)
        | some k =>
          let latency := s.latency p ((w.bus_lanes b).getD k 0)
          let s := s.setLane b k { s.lanes b k with busy := s.cycle + latency - 1 }
          some (s.transfer (.lane b k) latency p B D)

def outputBufferHandler (p : ℕ) : Option Traffic :=
  match w.connection (s.packets p).buffer with
  | .link l => s.linkTransfer w l p
  | .bus b => s.busTransfer w b p

end Traffic

/-- What happens: the cycle advances when no output-buffer event is due, an output-buffer event
is handled, a packet is put into an output buffer by the send handler or a switch, or a packet
is taken out of an input buffer, which may be read for some cycles. -/
inductive TrafficOp
  | advance
  | output (p : ℕ)
  | arrive (p B size destination latency : ℕ)
  | leave (p D : ℕ) (read_busy : ℤ)

def TrafficOp.perform (w : Wiring) : TrafficOp → Traffic → Option Traffic
  | .advance, s =>
    if s.events.any fun event => event.2 = .due s.cycle then none
    else some { s with cycle := s.cycle + 1 }
  | .output p, s =>
    if (p, .due s.cycle) ∈ s.events then
      { s with events := s.events.erase (p, .due s.cycle) }.outputBufferHandler w p
    else none
  | .arrive p B size destination latency, s =>
    let buffer := s.buffers B
    if w.isSource B ∧ 0 < latency ∧ buffer.count + size ≤ w.size B then
      let busy := s.cycle + latency - 1
      let s := s.setBuffer B { buffer with
        packets := buffer.packets ++ [p]
        count := buffer.count + size
        write_busy := busy }
      let s := { s with
        packets := Function.update s.packets p { size, destination, buffer := B, busy } }
      some (s.next p latency)
    else none
  | .leave p D read_busy, s =>
    let buffer := s.buffers D
    if ¬w.isSource D ∧ p ∈ buffer.packets then
      some ((s.setBuffer D { buffer with
        packets := buffer.packets.erase p
        count := buffer.count - (s.packets p).size
        read_busy := read_busy }).wake D)
    else none

end OISA.Net
