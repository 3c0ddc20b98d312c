import OISA.Memory.DirectoryLocks
import OISA.Memory.Requests

/-!
# Messages to lower modules

The event `message_action` of `System::EventMessageHandler`: a module that has a block in state
exclusive tells the module below to remove it as an owner.
-/

namespace OISA.Memory

/-- The number of sub-blocks per block, as set by `setSubBlockSize` -/
def Module.num_sub_blocks (m : Module) : ℕ := m.block_size / m.sub_block_size

def Module.directory_size (m : Module) : ℕ := m.directory.num_sets * m.directory.num_ways

inductive ReplyType
  | ReplyNone
  | ReplyAck
  | ReplyAckData
  | ReplyAckError
  deriving DecidableEq, Repr

inductive MessageType
  | MessageNone
  | MessageClearOwner
  deriving DecidableEq, Repr

structure MessageFrame where
  id : ℕ
  address : BitVec 32
  tag : BitVec 32
  set : ℕ
  way : ℕ
  error : Bool := false
  message_type : MessageType
  reply : ReplyType := .ReplyAck
  reply_size : ℕ := 8
  deriving DecidableEq, Repr

/-- The frame of a message, what it returns to its parent, and the target module with the locks of
its directory. -/
structure MessageState where
  frame : MessageFrame
  parent_error : Bool := false
  parent_reply : ReplyType := .ReplyNone
  target_module : Module
  locks : DirectoryLocks

def Directory.Entry.setOwner (entry : Entry) (owner : Option ℕ) : Entry :=
  { entry with owner := owner }

def ReplyType.setReplyIfHigher (old reply : ReplyType) : ReplyType :=
  if old.ctorIdx < reply.ctorIdx then reply else old

namespace MessageState

def matched (target_module : Module) (frame : MessageFrame) (z : ℕ) : Bool :=
  frame.address = frame.tag + BitVec.ofNat 32 (z * target_module.num_sub_blocks)

def clearOwner (target_module : Module) (frame : MessageFrame) (directory : Directory) (z : ℕ) :
    Option Directory :=
  if matched target_module frame z then
    (directory.getEntry frame.set frame.way z).map fun dir_entry =>
      directory.setEntry frame.set frame.way z (dir_entry.setOwner none)
  else some directory

def message_action (s : MessageState) : Option MessageState :=
  if s.frame.error then
    some { s with
      parent_error := true
      parent_reply := s.parent_reply.setReplyIfHigher .ReplyAckError
      frame := { s.frame with reply_size := 8 } }
  else
    match s.frame.message_type with
    | .MessageClearOwner => do
      let directory ← (List.range s.target_module.directory_size).foldlM
        (clearOwner s.target_module s.frame) s.target_module.directory
      let locks ← s.locks.UnlockEntry s.frame.set s.frame.way s.frame.id
      some { s with
        target_module := { s.target_module with directory := directory }
        locks := locks }
    | .MessageNone => none

end MessageState

end OISA.Memory
