import Mathlib
import OISA.Lib.Runs
import OISA.Primitives.PathOram

/-!
# The suboptimal tree ORAM

Model of `path_oram_suboptimal/oram.c`, which looks ids up in the position map and moves the
blocks of a path to any slots of the stash.
-/

namespace OISA.Primitives.Suboptimal

open OISA.Lib

structure Params where
  bucketSize : ℕ
  numRealBlocks : ℕ
  C : ℕ
  numRealBlocks_pos : 1 ≤ numRealBlocks := by decide
  depth_le : log2 (BitVec.ofNat 32 numRealBlocks) ≤ 29

namespace Params

variable (p : Params)

/-- The real depth and one -/
def depth : ℕ := log2 (BitVec.ofNat 32 p.numRealBlocks) + 1
def numLeaves : ℕ := 1 <<< (p.depth - 1)
def posMapSize : ℕ := p.bucketSize * ((1 <<< p.depth) - 1)
def stashSize : ℕ :=
  roundToPowerOf2 (p.bucketSize * log2 (BitVec.ofNat 32 p.numRealBlocks) + p.C)

end Params

structure PosMapEntry where
  valid : ℤ
  id : ℤ
  leaf : ℤ
  deriving DecidableEq, Repr

structure Block where
  valid : ℤ
  id : ℤ
  leaf : ℤ
  data : List ℤ
  deriving DecidableEq, Repr

structure StashSlot where
  key : ℤ
  valid : ℤ
  id : ℤ
  leaf : ℤ
  data : List ℤ
  deriving DecidableEq, Repr

structure Oram where
  tree : ℕ → ℕ → Block
  stash : ℕ → StashSlot
  posMap : ℕ → PosMapEntry

section Init

variable (p : Params)

/-- The arrays after `Init_ORAM`. What `malloc` returns is the content of `m`. -/
def initOram (m : Oram) : Oram where
  tree i j :=
    if i < 1 <<< p.depth ∧ j < p.bucketSize then { m.tree i j with valid := 0 } else m.tree i j
  stash i := if i < p.stashSize then { m.stash i with valid := 0 } else m.stash i
  posMap i := if i < p.posMapSize then { m.posMap i with valid := 0 } else m.posMap i

end Init

section Access

variable (p : Params)

def genRandLeaf (r : ℕ) : ℕ := r % p.numLeaves

def fullMask (occupied : ℕ → ℕ) (L : ℕ) : BitVec 32 :=
  (List.range L).foldl
    (fun full i => if occupied i = p.bucketSize then full + 1#32 <<< i else full) 0

/-- The level to which a block goes back, or -1 -/
def pushBack (accessedLeaf stashLeaf : ℤ) (occupied : ℕ → ℕ) (L : ℕ) : ℤ :=
  let t1 := bitwiseReverse (BitVec.ofInt 32 accessedLeaf) L ^^^
    bitwiseReverse (BitVec.ofInt 32 stashLeaf) L
  let t2 := t1 &&& -t1
  let t3 := t2 - 1
  let full := fullMask p occupied L
  let t4 := t3 &&& ~~~full
  let t5 := bitwiseReverse t4 L
  let t6 := t5 &&& -t5
  let t7 := bitwiseReverse t6 L
  if t3 = 0 ∧ occupied 0 < p.bucketSize then 0 else if t7 = 0 then -1 else log2 t7

structure Retrieved where
  posMap : ℕ → PosMapEntry
  accessLeaf : ℤ
  newIdDeployed : Bool := false

def retrieveStep (op : Op) (id newLeaf : ℤ) (s : Retrieved) (i : ℕ) : Retrieved :=
  let entry := s.posMap i
  -- if id is found in posmap, access the associated path
  let modifyExistEntry : Bool := id = entry.id ∧ entry.valid ≠ 0
  let accessLeaf := if modifyExistEntry then entry.leaf else s.accessLeaf
  let entry := if modifyExistEntry then { entry with leaf := newLeaf } else entry
  -- if id not found in posmap, write posmap with id/leaf if op is WRITE
  let addNewEntry : Bool := op = .write ∧ entry.valid = 0 ∧ !s.newIdDeployed
  let entry := if addNewEntry then { id := id, valid := 1, leaf := newLeaf } else entry
  { posMap := Function.update s.posMap i entry
    accessLeaf := accessLeaf
    newIdDeployed := s.newIdDeployed || modifyExistEntry || addNewEntry }

def retrieveLeafLabel (op : Op) (id accessLeaf newLeaf : ℤ) (s : Oram) : Retrieved :=
  (List.range p.posMapSize).foldl (retrieveStep op id newLeaf)
    { posMap := s.posMap, accessLeaf := accessLeaf }

/-- The block `k` of a bucket moves to the slot `j` of the stash if the slot is free. -/
def fetchBlock (bucketIdx j : ℕ) (s : Oram) (k : ℕ) : Oram :=
  let block := s.tree bucketIdx k
  if block.valid ≠ 0 ∧ (s.stash j).valid = 0 then
    { s with
      stash := Function.update s.stash j
        { s.stash j with
          valid := block.valid, id := block.id, leaf := block.leaf, data := block.data }
      tree := Function.update s.tree bucketIdx
        (Function.update (s.tree bucketIdx) k { block with valid := 0 }) }
  else s

def fetchBucket (bucketIdx : ℕ) (s : Oram) : Oram :=
  (List.range p.stashSize).foldl
    (fun s j => (List.range p.bucketSize).foldl (fetchBlock bucketIdx j) s) s

def bucketIdx (accessLeaf : ℤ) (i : ℕ) : ℕ :=
  (walkStep^[i] (1, (bitwiseReverse (BitVec.ofInt 32 accessLeaf) (p.depth - 1)).toNat)).1

def fetchPath (accessLeaf : ℤ) (s : Oram) : Oram :=
  (List.range p.depth).foldl (fun s i => fetchBucket p (bucketIdx p accessLeaf i) s) s

def stashFull (s : Oram) : Bool := (List.range p.stashSize).all fun i => (s.stash i).valid ≠ 0

/-- The state of the second loop of `Fetch_Blocks`: the stash, the buffer of the caller and
`did_write`. -/
structure Scan where
  stash : ℕ → StashSlot
  data : List ℤ
  didWrite : Bool := false

def accessStep (op : Op) (id newLeaf : ℤ) (s : Scan) (i : ℕ) : Scan :=
  let slot := s.stash i
  -- if id is in stash, we read / write the corresponding stash entry
  let idMatch : Bool := slot.id = id ∧ slot.valid ≠ 0
  let data := if idMatch ∧ op = .read then slot.data else s.data
  let slot := { slot with
    leaf := if idMatch then newLeaf else slot.leaf
    data := if idMatch ∧ op = .write then data else slot.data }
  -- if id is new, we create new entry in stash
  let writeNewBlock : Bool := !s.didWrite ∧ slot.valid = 0 ∧ op = .write
  let slot :=
    if writeNewBlock then { slot with valid := 1, id := id, leaf := newLeaf, data := data }
    else slot
  { stash := Function.update s.stash i slot
    data := data
    didWrite := s.didWrite || writeNewBlock }

def accessStash (op : Op) (id newLeaf : ℤ) (data : List ℤ) (stash : ℕ → StashSlot) : Scan :=
  (List.range p.stashSize).foldl (accessStep op id newLeaf) { stash := stash, data := data }

def fetchBlocks (op : Op) (id : ℤ) (data : List ℤ) (accessLeaf newLeaf : ℤ) (s : Oram) :
    Option (Oram × List ℤ) :=
  let s := fetchPath p accessLeaf s
  if stashFull p s then none
  else
    let scan := accessStash p op id newLeaf data s.stash
    some ({ s with stash := scan.stash }, scan.data)

structure Eviction where
  stash : ℕ → StashSlot
  wbPath : ℕ → ℤ := fun _ => -1
  occupied : ℕ → ℕ := fun _ => 0

/-- One round of the loop that hands out the places of the path. -/
def evictStep (accessLeaf : ℤ) (i : ℕ) (s : Eviction) : Option Eviction :=
  let slot := s.stash i
  let level := pushBack p accessLeaf slot.leaf s.occupied p.depth
  if slot.valid ≠ 0 ∧ level > -1 then
    let offset := level.toNat * p.bucketSize + s.occupied level.toNat
    if level.toNat < p.depth ∧ offset < p.depth * p.bucketSize then
      some
        { stash := Function.update s.stash i { slot with key := offset }
          wbPath := Function.update s.wbPath offset i
          occupied :=
            Function.update s.occupied level.toNat (s.occupied level.toNat + 1) }
    else none
  else some { s with stash := Function.update s.stash i { slot with key := maxInt } }

structure WriteBack where
  oram : Oram
  movStashIdx : ℕ := 0

/-- The place `t` of the path takes the next slot of the stash if it was handed out. -/
def writeBackStep (accessLeaf : ℤ) (wbPath : ℕ → ℤ) (t : ℕ) (s : WriteBack) : Option WriteBack :=
  if wbPath t ≠ -1 then
    if s.movStashIdx < p.stashSize then
      let bucket := bucketIdx p accessLeaf (t / p.bucketSize)
      let slot := s.oram.stash s.movStashIdx
      some
        { oram :=
            { s.oram with
              tree := Function.update s.oram.tree bucket
                (Function.update (s.oram.tree bucket) (t % p.bucketSize)
                  { valid := slot.valid, id := slot.id, leaf := slot.leaf, data := slot.data })
              stash := Function.update s.oram.stash s.movStashIdx { slot with valid := 0 } }
          movStashIdx := s.movStashIdx + 1 }
    else none
  else some s

/-- `Store_Blocks`. The places of the path are numbered from the root on. -/
def storeBlocks (sort : (ℕ → StashSlot) → ℕ → StashSlot) (accessLeaf : ℤ) (s : Oram) :
    Option Oram :=
  (run (evictStep p accessLeaf) (List.range p.stashSize) { stash := s.stash }).bind fun e =>
    (run (writeBackStep p accessLeaf e.wbPath) (List.range (p.depth * p.bucketSize))
      { oram := { s with stash := sort e.stash } }).map (·.oram)

/-- The arguments of `Access_ORAM`, and its two random draws. -/
structure Call where
  op : Op
  id : ℤ
  data : List ℤ
  r1 : ℕ
  r2 : ℕ
  deriving DecidableEq, Repr

/-- The leaf of the path that a call accesses, and the arrays with the new leaf in the position
map. -/
def retrieve (c : Call) (s : Oram) : Option (ℤ × Oram) :=
  let r := retrieveLeafLabel p c.op c.id (genRandLeaf p c.r1) (genRandLeaf p c.r2) s
  if r.newIdDeployed then some (r.accessLeaf, { s with posMap := r.posMap }) else none

/-- A call up to the end of `Fetch_Blocks`: the leaf, the arrays and the buffer. -/
def accessFetch (c : Call) (s : Oram) : Option (ℤ × Oram × List ℤ) :=
  (retrieve p c s).bind fun r =>
    (fetchBlocks p c.op c.id c.data r.1 (genRandLeaf p c.r2) r.2).map fun x => (r.1, x)

def accessOram (sort : (ℕ → StashSlot) → ℕ → StashSlot) (c : Call) (s : Oram) :
    Option (Oram × List ℤ) :=
  (accessFetch p c s).bind fun x =>
    (storeBlocks p sort x.1 x.2.1).map fun s => (s, x.2.2)

def step (sort : (ℕ → StashSlot) → ℕ → StashSlot) (c : Call) (s : Oram) : Option Oram :=
  (accessOram p sort c s).map Prod.fst

end Access

end OISA.Primitives.Suboptimal
