import OISA.Cpp.List

/-!
# Cache replacement

`memory/Cache.cc`: the blocks of a cache and, for each set, the list of its blocks in the order of
replacement. A node of a list is the way of its block.
-/

namespace OISA.Memory

open OISA.Cpp

inductive ReplacementPolicy
  | ReplacementInvalid
  | ReplacementLRU
  | ReplacementFIFO
  | ReplacementRandom
  deriving DecidableEq, Repr

inductive BlockState
  | BlockInvalid
  | BlockNonCoherent
  | BlockModified
  | BlockOwned
  | BlockExclusive
  | BlockShared
  deriving DecidableEq, Repr

structure Cache.Block where
  tag : BitVec 32 := 0
  state : BlockState := .BlockInvalid
  deriving DecidableEq, Repr

structure Cache where
  num_sets : ℕ
  num_ways : ℕ
  replacement_policy : ReplacementPolicy
  blocks : ℕ → Cache.Block := fun _ => {}
  lru_list : ℕ → NodeList

namespace Cache

def initialList (num_ways : ℕ) : Option NodeList :=
  (List.range num_ways).foldlM (fun list way_id => (list.PushBack way_id).map Prod.fst) {}

/-- Constructor -/
def new (num_sets num_ways block_size : ℕ) (replacement_policy : ReplacementPolicy) :
    Option Cache :=
  if num_sets &&& (num_sets - 1) ≠ 0 then none
  else if num_ways &&& (num_ways - 1) ≠ 0 then none
  else if block_size &&& (block_size - 1) ≠ 0 then none
  -- the logarithm of zero panics
  else if block_size = 0 then none
  else
    (initialList num_ways).map fun list =>
      { num_sets := num_sets, num_ways := num_ways, replacement_policy := replacement_policy
        lru_list := fun _ => list }

def inRange (c : Cache) (set_id way_id : ℕ) : Bool := set_id < c.num_sets && way_id < c.num_ways

def blockIndex (c : Cache) (set_id way_id : ℕ) : ℕ := set_id * c.num_ways + way_id

def getBlock (c : Cache) (set_id way_id : ℕ) : Option Block :=
  if c.inRange set_id way_id then some (c.blocks (c.blockIndex set_id way_id)) else none

def moveToHead (c : Cache) (set_id way_id : ℕ) : Option Cache := do
  let (list, _) ← (c.lru_list set_id).Erase (some way_id)
  let (list, _) ← list.PushFront way_id
  some { c with lru_list := Function.update c.lru_list set_id list }

def setBlock (c : Cache) (set_id way_id : ℕ) (tag : BitVec 32) (state : BlockState) :
    Option Cache := do
  let block ← c.getBlock set_id way_id
  -- the block is being brought to the cache now for the first time
  let c ←
    if c.replacement_policy = .ReplacementFIFO ∧ block.tag ≠ tag then c.moveToHead set_id way_id
    else some c
  some { c with
    blocks := Function.update c.blocks (c.blockIndex set_id way_id) { tag := tag, state := state } }

def AccessBlock (c : Cache) (set_id way_id : ℕ) : Option Cache := do
  let block ← c.getBlock set_id way_id
  if c.replacement_policy = .ReplacementLRU ∨
      c.replacement_policy = .ReplacementFIFO ∧ block.state = .BlockInvalid then
    c.moveToHead set_id way_id
  else some c

/-- The way to replace. The number is drawn by `random`. -/
def ReplaceBlock (c : Cache) (set_id random : ℕ) : Option (Cache × ℕ) :=
  if set_id < c.num_sets then
    match c.replacement_policy with
    | .ReplacementLRU | .ReplacementFIFO => do
      let way_id ← (c.lru_list set_id).tail
      let c ← c.moveToHead set_id way_id
      some (c, way_id)
    | .ReplacementRandom => if c.num_ways = 0 then none else some (c, random % c.num_ways)
    | .ReplacementInvalid => none
  else none

inductive Op
  | setBlock (set_id way_id : ℕ) (tag : BitVec 32) (state : BlockState)
  | accessBlock (set_id way_id : ℕ)
  | replaceBlock (set_id random : ℕ)
  deriving DecidableEq, Repr

def step (op : Op) (c : Cache) : Option Cache :=
  match op with
  | .setBlock set_id way_id tag state => c.setBlock set_id way_id tag state
  | .accessBlock set_id way_id => c.AccessBlock set_id way_id
  | .replaceBlock set_id random => (c.ReplaceBlock set_id random).map Prod.fst

end Cache

end OISA.Memory
