import OISA.Esim.Engine

/-!
# In-flight accesses of a module

`Module::StartAccess`, `FinishAccess`, `canCoalesce` and `Coalesce` of `memory/Module.cc`: the
lists of accesses of a module and the frames that wait for another one to the same block.
-/

namespace OISA.Memory

open OISA.Esim

inductive Module.AccessType
  | Invalid
  | Load
  | Store
  | NCStore
  deriving DecidableEq, Repr

/-- The fields of a memory frame that the lists of accesses use -/
structure Accesses.Frame where
  address : ℕ := 0
  access_type : Module.AccessType := .Invalid
  coalesced : Bool := false
  master_frame : Option FrameId := none
  port_locked : Bool := false
  deriving DecidableEq, Repr

structure Accesses where
  log_block_size : ℕ
  frames : FrameId → Accesses.Frame := fun _ => {}
  accesses : List FrameId := []
  write_accesses : List FrameId := []
  in_flight_block_addresses : List (ℕ × FrameId) := []
  in_flight_access_ids : List FrameId := []
  num_coalesced_accesses : ℕ := 0

namespace Accesses

def new (log_block_size : ℕ) : Accesses := { log_block_size := log_block_size }

/-- Block of the address of a frame. -/
def block (m : Accesses) (frame : FrameId) : ℕ := (m.frames frame).address >>> m.log_block_size

def StartAccess (m : Accesses) (frame : FrameId) (access_type : Module.AccessType) : Accesses :=
  { m with
    frames := Function.update m.frames frame
      { m.frames frame with access_type := access_type }
    accesses := m.accesses ++ [frame]
    write_accesses :=
      if access_type = .Store then m.write_accesses ++ [frame] else m.write_accesses
    in_flight_block_addresses := m.in_flight_block_addresses ++ [(m.block frame, frame)]
    in_flight_access_ids := m.in_flight_access_ids ++ [frame] }

def detach (finished : FrameId) (frames : FrameId → Frame) (list : List FrameId) :
    FrameId → Frame :=
  list.foldl
    (fun frames frame =>
      if (frames frame).master_frame = some finished then
        Function.update frames frame { frames frame with master_frame := none }
      else frames)
    frames

def FinishAccess (m : Accesses) (frame : FrameId) : Option Accesses :=
  if frame ∉ m.accesses ∨ (m.frames frame).access_type = .Invalid ∨
      (m.block frame, frame) ∉ m.in_flight_block_addresses ∨
      ((m.frames frame).coalesced ∧ m.num_coalesced_accesses = 0) then none
  else
    some { m with
      accesses := m.accesses.erase frame
      write_accesses :=
        if (m.frames frame).access_type = .Store then m.write_accesses.erase frame
        else m.write_accesses
      in_flight_block_addresses := m.in_flight_block_addresses.erase (m.block frame, frame)
      in_flight_access_ids := m.in_flight_access_ids.erase frame
      num_coalesced_accesses :=
        if (m.frames frame).coalesced then m.num_coalesced_accesses - 1
        else m.num_coalesced_accesses
      frames := detach frame m.frames (m.accesses.erase frame) }

def getInFlightAddress (m : Accesses) (address : ℕ) (older_than_frame : Option FrameId) :
    Option (Option FrameId) :=
  match m.in_flight_block_addresses.find? (fun entry =>
      entry.1 = address >>> m.log_block_size ∧ older_than_frame.all (entry.2 < ·)) with
  | none => some none
  | some entry =>
    if m.block entry.2 = address >>> m.log_block_size then some (some entry.2) else none

def masterOf (m : Accesses) (frame : FrameId) : Option (Option FrameId) :=
  match (m.frames frame).master_frame with
  | none => some (some frame)
  | some master_frame =>
    if (m.frames master_frame).master_frame = none then some (some master_frame) else none

def coalesceLoad (m : Accesses) (address : ℕ) : List FrameId → Option (Option FrameId)
  | [] => some none
  | frame :: rest =>
    if (m.frames frame).access_type ≠ .Load then some none
    else if m.block frame = address >>> m.log_block_size then m.masterOf frame
    else m.coalesceLoad address rest

/-- Only coalesce with last access if it is of the same kind, to the same block, and has not
started yet. -/
def coalesceWrite (m : Accesses) (access_type : Module.AccessType) (address : ℕ) (tail : FrameId) :
    Option (Option FrameId) :=
  if (m.frames tail).access_type ≠ access_type then some none
  else if m.block tail ≠ address >>> m.log_block_size then some none
  else if (m.frames tail).port_locked then some none
  else m.masterOf tail

/-- The access that an access can be coalesced with, if there is one. -/
def canCoalesce (m : Accesses) (access_type : Module.AccessType) (address : ℕ)
    (older_than_frame : Option FrameId) : Option (Option FrameId) :=
  if m.accesses = [] then some none
  else if access_type = .Invalid then none
  else
    (m.getInFlightAddress address older_than_frame).bind fun found =>
      match found, older_than_frame with
      | none, _ => some none
      | some _, none => none
      | some _, some older_than_frame =>
        if older_than_frame ∉ m.accesses then none
        else
          match (m.accesses.takeWhile (· ≠ older_than_frame)).reverse with
          | [] => some none
          | tail :: rest =>
            match access_type with
            | .Invalid => none
            | .Load => m.coalesceLoad address (tail :: rest)
            | .Store => m.coalesceWrite .Store address tail
            | .NCStore => m.coalesceWrite .NCStore address tail

def Coalesce (m : Accesses) (master_frame frame : FrameId) : Option Accesses :=
  if (m.frames master_frame).master_frame ≠ none ∨ (m.frames frame).access_type = .Invalid ∨
      m.accesses.length < m.num_coalesced_accesses then none
  else
    some { m with
      frames := Function.update m.frames frame
        { m.frames frame with coalesced := true, master_frame := some master_frame }
      num_coalesced_accesses := m.num_coalesced_accesses + 1 }

/-- The events of a module that concern its lists: the first event of a load, store or
non-coherent store with a new frame, the last event of one, and the ports. -/
inductive Op
  | access (frame : FrameId) (access_type : Module.AccessType) (address : ℕ)
  | finish (frame : FrameId)
  | setPortLocked (frame : FrameId) (port_locked : Bool)
  deriving DecidableEq, Repr

/-- Every handler records its access and then tries to coalesce it. -/
def step (op : Op) (m : Accesses) : Option Accesses :=
  match op with
  | .access frame access_type address =>
    let m := { m with frames := Function.update m.frames frame { address := address } }
    let m := m.StartAccess frame access_type
    (m.canCoalesce access_type address (some frame)).bind fun master_frame =>
      match master_frame with
      | none => some m
      | some master_frame => m.Coalesce master_frame frame
  | .finish frame => m.FinishAccess frame
  | .setPortLocked frame port_locked =>
    some { m with
      frames := Function.update m.frames frame
        { m.frames frame with port_locked := port_locked } }

end Accesses

end OISA.Memory
