import Mathlib.Tactic

/-!
# Buffers and their statistics

Model of `network/Buffer.cc`: the packets of a buffer, the bytes they take, and the samples from
which the occupancy is accumulated.
-/

namespace OISA.Net

structure Buffer (P : Type) where
  size : ℤ
  /-- occupied buffer entries -/
  count : ℤ := 0
  packets : List P := []
  occupancy_in_bytes : ℤ := 0
  occupancy_in_packets : ℤ := 0
  occupancy_measured_cycle : ℤ := 0
  accumulated_occupancy_in_bytes : ℤ := 0
  accumulated_occupancy_in_packets : ℤ := 0

namespace Buffer

variable {P : Type} [DecidableEq P] (getSize : P → ℕ)

def UpdateOccupancyInformation (cycle : ℤ) (buffer : Buffer P) : Buffer P :=
  -- accumulate previous values
  let cycles := cycle - buffer.occupancy_measured_cycle
  { buffer with
    accumulated_occupancy_in_packets :=
      buffer.accumulated_occupancy_in_packets + buffer.occupancy_in_packets * cycles
    accumulated_occupancy_in_bytes :=
      buffer.accumulated_occupancy_in_bytes + buffer.occupancy_in_bytes * cycles
    -- the new samples
    occupancy_in_bytes := buffer.count
    occupancy_in_packets := buffer.packets.length
    occupancy_measured_cycle := cycle }

def InsertPacket (cycle : ℤ) (packet : P) (buffer : Buffer P) : Option (Buffer P) :=
  if buffer.size < buffer.count + getSize packet then none
  else
    let buffer := { buffer with count := buffer.count + getSize packet }
    let buffer := buffer.UpdateOccupancyInformation cycle
    some { buffer with packets := buffer.packets ++ [packet] }

def RemovePacket (packet : P) (buffer : Buffer P) : Option (Buffer P) :=
  if packet ∈ buffer.packets then
    some { buffer with
      count := buffer.count - getSize packet
      packets := buffer.packets.filter (· ≠ packet) }
  else none

def ExtractPacket (cycle : ℤ) (buffer : Buffer P) : Option (Buffer P) :=
  match buffer.packets with
  | [] => none
  | packet :: packets =>
    let buffer := { buffer with packets := packets }
    let buffer := buffer.UpdateOccupancyInformation cycle
    some { buffer with count := buffer.count - getSize packet }

end Buffer

inductive BufferCall (P : Type)
  | InsertPacket (packet : P)
  | ExtractPacket
  | RemovePacket (packet : P)

def BufferCall.perform {P : Type} [DecidableEq P] (getSize : P → ℕ) (cycle : ℤ) :
    BufferCall P → Buffer P → Option (Buffer P)
  | .InsertPacket packet => Buffer.InsertPacket getSize cycle packet
  | .ExtractPacket => Buffer.ExtractPacket getSize cycle
  | .RemovePacket packet => Buffer.RemovePacket getSize packet

end OISA.Net
