import OISA.Lib.Layouts
import OISA.Memory.Memory

/-!
# Memory manager

`memory/Manager.cc`: allocation in pages that the manager maps. The map of chunks is a list in the
order of the addresses, and the multimap of holes a list in the order of the sizes.
-/

namespace OISA.Memory

open OISA.Lib

/-- Base address and size of a piece of memory: a hole if it is free, else a pointer. -/
structure Chunk where
  address : ℕ
  size : ℕ
  is_allocated : Bool := false
  deriving DecidableEq, Repr

def Chunk.stop (chunk : Chunk) : ℕ := chunk.address + chunk.size

structure Allocation where
  address : ℕ
  size : ℕ
  alignment : ℕ
  deriving DecidableEq, Repr

structure Manager where
  memory : Memory
  chunks : List Chunk := []
  holes : List (ℕ × Chunk) := []
  live : List Allocation := []

namespace Manager

def MapBaseAddress : BitVec 32 := 0xb7fb0000#32

def getNextAlignedAddress (address alignment : ℕ) : ℕ :=
  (address + alignment - 1) / alignment * alignment

def canHoleContain (hole : Chunk) (size alignment : ℕ) : Bool :=
  let aligned_address := getNextAlignedAddress hole.address alignment
  let gap := aligned_address - hole.address
  size + gap ≤ hole.size

def isInSamePage (addr1 addr2 : ℕ) : Bool :=
  addr1 / PageSize.toNat = addr2 / PageSize.toNat

def insertChunk (s : Manager) (chunk : Chunk) : Option Manager :=
  if s.chunks.any fun c => c.address = chunk.address then none
  else some { s with chunks := insertItem Chunk.address chunk s.chunks }

def CreateHole (s : Manager) (addr size : ℕ) : Option (Manager × Chunk) :=
  let hole : Chunk := ⟨addr, size, false⟩
  (s.insertChunk hole).map fun s =>
    ({ s with
      holes := s.holes.orderedInsert (fun a b => a.1 < b.1) (size, hole) }, hole)

def RemoveHole (s : Manager) (hole : Chunk) : Option Manager :=
  if hole.is_allocated then none
  else
    some { s with
      holes := s.holes.erase (hole.size, hole)
      chunks := s.chunks.erase hole }

def CreatePointer (s : Manager) (addr size : ℕ) : Option Manager :=
  s.insertChunk ⟨addr, size, true⟩

def RemovePointer (s : Manager) (pointer : Chunk) : Manager :=
  { s with chunks := s.chunks.erase pointer }

def CreateRest (s : Manager) (addr size : ℕ) : Option Manager :=
  if 0 < size then (s.CreateHole addr size).map Prod.fst else some s

def unsignedSub (a b : ℕ) : ℕ := if b ≤ a then a - b else a + 2 ^ 32 - b

def getEndAddress (chunk : Chunk) : ℕ := unsignedSub ((chunk.address + chunk.size) % 2 ^ 32) 1

def AllocateIn (s : Manager) (hole : Chunk) (size alignment : ℕ) : Option (Manager × ℕ) :=
  (s.RemoveHole hole).bind fun s =>
    let aligned_address := getNextAlignedAddress hole.address alignment
    let hole1_size := unsignedSub aligned_address hole.address
    (s.CreateRest hole.address hole1_size).bind fun s =>
      let hole2_size := unsignedSub (unsignedSub hole.size size) hole1_size
      (s.CreateRest (hole.address + hole1_size + size) hole2_size).bind fun s =>
        (s.CreatePointer aligned_address size).map (·, aligned_address)

def RequestOnePage (fuel : ℕ) (s : Manager) (base_address : BitVec 32) :
    Option (Manager × Chunk) :=
  (s.memory.MapSpace fuel base_address PageSize).bind fun addr =>
    if addr = -1#32 then none
    else
      (s.memory.Map fuel addr PageSize 7#32).bind fun memory =>
        { s with memory := memory }.CreateHole addr.toNat PageSize.toNat

def pageAlignedSize (size : ℕ) : ℕ :=
  (size + PageSize.toNat - 1) / PageSize.toNat * PageSize.toNat

def AllocateLarge (fuel : ℕ) (s : Manager) (size : ℕ) : Option (Manager × ℕ) :=
  let page_aligned_size := pageAlignedSize size
  (s.memory.MapSpaceDown fuel MapBaseAddress (.ofNat 32 page_aligned_size)).bind fun address =>
    if address = -1#32 then none
    else
      (s.memory.Map fuel address (.ofNat 32 size) 7#32).bind fun memory =>
        ({ s with memory := memory }.CreatePointer address.toNat page_aligned_size).map
          (·, address.toNat)

/-- The allocation without the record of what is live. -/
def allocate (fuel : ℕ) (s : Manager) (size alignment : ℕ) : Option (Manager × ℕ) :=
  if PageSize.toNat < alignment then none
  else if PageSize.toNat < size then s.AllocateLarge fuel size
  else
    -- all holes that have a bigger size than the required space
    match (s.holes.dropWhile fun h => h.1 < size).find? fun h => canHoleContain h.2 size alignment
    with
    | some h => s.AllocateIn h.2 size alignment
    | none =>
      (s.RequestOnePage fuel MapBaseAddress).bind fun x =>
        (x.1.AllocateIn x.2 size alignment).map fun y => (y.1, x.2.address)

def Allocate (fuel : ℕ) (s : Manager) (size alignment : ℕ) : Option (Manager × ℕ) :=
  (s.allocate fuel size alignment).map fun x =>
    ({ x.1 with live := ⟨x.2, size, alignment⟩ :: x.1.live }, x.2)

def DeallocatePage (fuel : ℕ) (s : Manager) (addr : ℕ) : Option Manager :=
  (s.memory.Unmap fuel (.ofNat 32 addr) PageSize).map fun memory => { s with memory := memory }

def Merge2Holes (s : Manager) (hole1 hole2 : Chunk) : Option Manager :=
  if hole1.is_allocated || hole2.is_allocated || hole1.address + hole1.size ≠ hole2.address then
    none
  else
    (s.RemoveHole hole2).bind fun s =>
      (s.RemoveHole hole1).bind fun s =>
        (s.CreateHole hole1.address (hole1.size + hole2.size)).map Prod.fst

def mergeForward (s : Manager) (hole : Chunk) : Option Manager :=
  (lowerBound Chunk.address s.chunks hole.address).bind fun it =>
    match nextItem Chunk.address s.chunks it with
    | some next =>
      if isInSamePage hole.address next.address && !next.is_allocated then s.Merge2Holes hole next
      else some s
    | none => some s

/-- Try to merge back. The address of the chunk in front is read after the merge has freed the
chunk: `stale` is what the memory of the freed chunk holds then. -/
def mergeBack (s : Manager) (addr stale : ℕ) : Option (Manager × ℕ) :=
  (lowerBound Chunk.address s.chunks addr).bind fun chunk1 =>
    match prevItem Chunk.address s.chunks chunk1 with
    | some chunk2 =>
      if isInSamePage addr chunk2.address && !chunk2.is_allocated then
        (s.Merge2Holes chunk2 chunk1).map (·, stale)
      else some (s, addr)
    | none => some (s, addr)

def releasePage (fuel : ℕ) (s : Manager) (merged_addr : ℕ) : Option Manager :=
  (lowerBound Chunk.address s.chunks merged_addr).bind fun it =>
    if it.size = PageSize.toNat then
      (s.DeallocatePage fuel merged_addr).bind fun s => s.RemoveHole it
    else some s

def MergeHoles (fuel : ℕ) (s : Manager) (hole : Chunk) (stale : ℕ) : Option Manager :=
  if hole.is_allocated then none
  else
    (s.mergeForward hole).bind fun s =>
      (s.mergeBack hole.address stale).bind fun x => x.1.releasePage fuel x.2

def deallocatePages (fuel : ℕ) : ℕ → ℕ → Manager → Option Manager
  | 0, _, s => some s
  | num_pages + 1, address, s =>
    (s.DeallocatePage fuel address).bind
      (deallocatePages fuel num_pages (address + PageSize.toNat))

def FreeLarge (fuel : ℕ) (s : Manager) (pointer : Chunk) : Option Manager :=
  (deallocatePages fuel (pointer.size / PageSize.toNat) pointer.address s).map
    fun s => s.RemovePointer pointer

/-- The deallocation without the record of what is live. -/
def free (fuel : ℕ) (s : Manager) (address stale : ℕ) : Option Manager :=
  match s.chunks.find? fun c => c.address = address with
  | none => none
  | some it =>
    if PageSize.toNat < it.size then s.FreeLarge fuel it
    else
      ((s.RemovePointer it).CreateHole address it.size).bind fun x =>
        x.1.MergeHoles fuel x.2 stale

def Free (fuel : ℕ) (s : Manager) (address stale : ℕ) : Option Manager :=
  (s.free fuel address stale).map fun s =>
    { s with live := s.live.filter fun a => a.address ≠ address }

/-- How a call of `Free` ends. The exception has its message and the state at that time. -/
inductive Outcome
  | thrown (message : String) (s : Manager)
  | failed
  | returned (s : Manager)

def freeOutcome (fuel : ℕ) (s : Manager) (address stale : ℕ) : Outcome :=
  match s.chunks.find? fun c => c.address = address with
  | none =>
    .thrown "Trying to free a pointer not created by Allocate or has already been freed." s
  | some _ =>
    match s.free fuel address stale with
    | none => .failed
    | some s => .returned s

/-- Behind the last chunk, the end of the map is dereferenced. -/
def isValidAddress (s : Manager) (address : ℕ) : Option Bool :=
  (lowerBound Chunk.address s.chunks address).map fun it =>
    it.address ≤ address && address ≤ getEndAddress it && it.is_allocated

inductive Op
  | allocate (size alignment : ℕ)
  | free (address stale : ℕ)
  deriving DecidableEq, Repr

def step (fuel : ℕ) (op : Op) (s : Manager) : Option Manager :=
  match op with
  | .allocate size alignment => (s.Allocate fuel size alignment).map Prod.fst
  | .free address stale => s.Free fuel address stale

end Manager

end OISA.Memory
