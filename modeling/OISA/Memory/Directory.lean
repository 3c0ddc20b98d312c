import Mathlib.Tactic

/-!
# Directory

`memory/Directory.cc`: owners and sharers of the sub-blocks of a cache. The arrays are functions
of the position, and a failed assertion is `none`. The owner is a node of the network above, or
none.
-/

namespace OISA.Memory

structure Directory.Entry where
  owner : Option ℕ := none
  num_sharers : ℕ := 0
  deriving DecidableEq, Repr

structure Directory where
  num_sets : ℕ
  num_ways : ℕ
  num_sub_blocks : ℕ
  num_nodes : ℕ
  entries : ℕ → Directory.Entry := fun _ => {}
  sharers : ℕ → Bool := fun _ => false

namespace Directory

/-- Constructor -/
def new (num_sets num_ways num_sub_blocks num_nodes : ℕ) : Directory :=
  { num_sets := num_sets, num_ways := num_ways, num_sub_blocks := num_sub_blocks
    num_nodes := num_nodes }

def inRange (d : Directory) (set_id way_id sub_block_id : ℕ) : Bool :=
  set_id < d.num_sets && way_id < d.num_ways && sub_block_id < d.num_sub_blocks

/-- Position of a sub-block in the array of entries. -/
def entryIndex (d : Directory) (set_id way_id sub_block_id : ℕ) : ℕ :=
  set_id * d.num_ways * d.num_sub_blocks + way_id * d.num_sub_blocks + sub_block_id

def bitIndex (d : Directory) (set_id way_id sub_block_id node_id : ℕ) : ℕ :=
  set_id * d.num_ways * d.num_sub_blocks * d.num_nodes + way_id * d.num_sub_blocks * d.num_nodes +
    sub_block_id * d.num_nodes + node_id

def getEntry (d : Directory) (set_id way_id sub_block_id : ℕ) : Option Entry :=
  if d.inRange set_id way_id sub_block_id then
    some (d.entries (d.entryIndex set_id way_id sub_block_id))
  else none

def setEntry (d : Directory) (set_id way_id sub_block_id : ℕ) (entry : Entry) : Directory :=
  { d with
    entries := Function.update d.entries (d.entryIndex set_id way_id sub_block_id) entry }

/-- Set new owner for the directory entry. -/
def setOwner (d : Directory) (set_id way_id sub_block_id : ℕ) (owner : Option ℕ) :
    Option Directory :=
  if owner.all (· < d.num_nodes) then
    (d.getEntry set_id way_id sub_block_id).map fun entry =>
      d.setEntry set_id way_id sub_block_id { entry with owner := owner }
  else none

def isSharer (d : Directory) (set_id way_id sub_block_id node_id : ℕ) : Option Bool :=
  if d.inRange set_id way_id sub_block_id && node_id < d.num_nodes then
    some (d.sharers (d.bitIndex set_id way_id sub_block_id node_id))
  else none

/-- Disable one sharer for a directory entry. -/
def clearSharer (d : Directory) (set_id way_id sub_block_id node_id : ℕ) : Option Directory :=
  (d.isSharer set_id way_id sub_block_id node_id).bind fun is_sharer =>
    if !is_sharer then some d
    else
      (d.getEntry set_id way_id sub_block_id).bind fun entry =>
        if entry.num_sharers = 0 then none
        else
          some { d.setEntry set_id way_id sub_block_id
              { entry with num_sharers := entry.num_sharers - 1 } with
            sharers := Function.update d.sharers
              (d.bitIndex set_id way_id sub_block_id node_id) false }

/-- Activate one sharer for a directory entry. -/
def setSharer (d : Directory) (set_id way_id sub_block_id node_id : ℕ) : Option Directory :=
  (d.isSharer set_id way_id sub_block_id node_id).bind fun is_sharer =>
    if is_sharer then some d
    else
      (d.getEntry set_id way_id sub_block_id).bind fun entry =>
        if d.num_nodes ≤ entry.num_sharers then none
        else
          some { d.setEntry set_id way_id sub_block_id
              { entry with num_sharers := entry.num_sharers + 1 } with
            sharers := Function.update d.sharers
              (d.bitIndex set_id way_id sub_block_id node_id) true }

/-- Clear all sharers of a directory entry. -/
def clearAllSharers (d : Directory) (set_id way_id sub_block_id : ℕ) : Option Directory :=
  (d.getEntry set_id way_id sub_block_id).map fun entry =>
    if entry.num_sharers = 0 then d
    else
      { d.setEntry set_id way_id sub_block_id { entry with num_sharers := 0 } with
        sharers := (List.range d.num_nodes).foldl
          (fun sharers i =>
            Function.update sharers (d.bitIndex set_id way_id sub_block_id 0 + i) false)
          d.sharers }

/-- Return whether part of a block is shared or owned. -/
def isBlockSharedOrOwned (d : Directory) (set_id way_id : ℕ) : Option Bool :=
  (List.range d.num_sub_blocks).foldlM
    (fun found sub_block_id =>
      if found then some true
      else
        (d.getEntry set_id way_id sub_block_id).map fun entry =>
          0 < entry.num_sharers || entry.owner.isSome)
    false

inductive Op
  | setOwner (set_id way_id sub_block_id : ℕ) (owner : Option ℕ)
  | setSharer (set_id way_id sub_block_id node_id : ℕ)
  | clearSharer (set_id way_id sub_block_id node_id : ℕ)
  | clearAllSharers (set_id way_id sub_block_id : ℕ)
  deriving DecidableEq, Repr

def step (op : Op) (d : Directory) : Option Directory :=
  match op with
  | .setOwner set_id way_id sub_block_id owner => d.setOwner set_id way_id sub_block_id owner
  | .setSharer set_id way_id sub_block_id node_id => d.setSharer set_id way_id sub_block_id node_id
  | .clearSharer set_id way_id sub_block_id node_id =>
    d.clearSharer set_id way_id sub_block_id node_id
  | .clearAllSharers set_id way_id sub_block_id => d.clearAllSharers set_id way_id sub_block_id

end Directory

end OISA.Memory
