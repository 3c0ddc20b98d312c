import OISA.Primitives.Misc
import OISA.Primitives.MergeSort

/-!
# The tree ORAM

Model of `path_oram.c`.
-/

namespace OISA.Primitives

open OISA.Lib OISA.Lib.Traced

/-- The arrays of the ORAM; `data` is the buffer the caller passes as `data_ptr`. -/
inductive OramArr where
  | tree
  | stashInfo
  | stashData
  | posMap
  | wbPath
  | occupied
  | data
  deriving DecidableEq, Repr

inductive SortScheme where
  | mergeSort
  | bitonicSort
  deriving DecidableEq, Repr

inductive Op where
  | read
  | write
  deriving DecidableEq, Repr

structure OramParams where
  bucketSize : ℕ
  numRealBlocks : ℕ
  blockSize : ℕ
  C : ℕ
  sortScheme : SortScheme
  bucketSize_pos : 1 ≤ bucketSize
  two_le_numRealBlocks : 2 ≤ numRealBlocks
  numRealBlocks_int : numRealBlocks < 2 ^ 31
  depth_le : log2 (BitVec.ofNat 32 numRealBlocks) ≤ 15

def maxInt : ℤ := 0xfffffff
def posmapLeafMask : ℕ := 0x7FFF
def posmapValidMask : ℕ := 0x8000

namespace OramParams

variable (p : OramParams)

def depth : ℕ := log2 (BitVec.ofNat 32 p.numRealBlocks)
def numLeaves : ℕ := 1 <<< (p.depth - 1)
def stashSize : ℕ := roundToPowerOf2 (p.bucketSize * p.depth + p.C)

def treeStride : ℕ := 3 + p.blockSize

end OramParams

/-! ### Words of the records -/

def infoKey (i : ℕ) : ℕ := i * 4
def infoValid (i : ℕ) : ℕ := i * 4 + 1
def infoId (i : ℕ) : ℕ := i * 4 + 2
def infoLeaf (i : ℕ) : ℕ := i * 4 + 3

/-! ### Initialisation -/

def calloc (a : OramArr) (n : ℕ) (m : Mem OramArr) : Mem OramArr :=
  ⟨fun b i => if b = a ∧ i < n then 0 else m.get b i⟩

section Init

variable (p : OramParams)

def initStash (m : Mem OramArr) : Mem OramArr := calloc .stashInfo (p.stashSize * 4) m

def initPosMap (m : Mem OramArr) : Mem OramArr := calloc .posMap p.numRealBlocks m

def initOramController (m : Mem OramArr) : Mem OramArr := initStash p (initPosMap p m)

def initOramTree : Traced OramArr Unit :=
  forUpTo ((1 <<< p.depth) * p.bucketSize) fun _ => store .tree p.treeStride 0

/-- The arrays after `Init_ORAM`. What `malloc` returns is the content of `m`. -/
def initOram (m : Mem OramArr) : Mem OramArr := (initOramTree p).exec (initOramController p m)

end Init

section Access

variable (p : OramParams)

def genRandLeaf (r : ℕ) : ℕ := r % p.numLeaves

def fullMask (L : ℕ) : Traced OramArr (BitVec 32) :=
  loop (fun i full => do
    let o ← load .occupied i
    pure (if o = p.bucketSize then full + 1#32 <<< i else full)) L 0

def pushBack (accessedLeaf : ℕ) (stashLeaf : ℤ) (L : ℕ) : Traced OramArr ℤ := do
  let t1 := bitwiseReverse (BitVec.ofNat 32 accessedLeaf) L ^^^
    bitwiseReverse (BitVec.ofInt 32 stashLeaf) L
  let t2 := t1 &&& -t1
  let t3 := t2 - 1
  let full ← fullMask p L
  let t4 := t3 &&& ~~~full
  let t5 := bitwiseReverse t4 L
  let t6 := t5 &&& -t5
  let t7 := bitwiseReverse t6 L
  let rootFree ← if t3 = 0 then do
      let o ← load .occupied 0
      pure (decide (o < p.bucketSize))
    else pure false
  pure (if rootFree then 0 else if t7 = 0 then -1 else (log2 t7 : ℤ))

/-- One round of the loop of `Retrieve_LeafLabel`; the state is the access leaf and
`if_new_data`. -/
def retrieveStep (id newLeaf : ℕ) (i : ℕ) (s : ℕ × Bool) : Traced OramArr (ℕ × Bool) := do
  let e ← load .posMap i
  let entryLeaf := e.toNat &&& posmapLeafMask
  let e ← load .posMap i
  let entryValid := e.toNat &&& posmapValidMask
  let idMatch : Bool := id = i
  let idMatchValid : Bool := idMatch && entryValid ≠ 0
  let idMatchInvalid : Bool := idMatch && entryValid = 0
  let ifNewData := s.2 || idMatchInvalid
  let entryValid := if idMatchInvalid then posmapValidMask else entryValid
  let accessLeaf := if idMatchValid then entryLeaf else s.1
  let entryLeaf := if idMatch then newLeaf else entryLeaf
  store .posMap i (((entryLeaf ||| entryValid) % 2 ^ 16 : ℕ) : ℤ)
  pure (accessLeaf, ifNewData)

def retrieveLeafLabel (id accessLeaf newLeaf : ℕ) : Traced OramArr (ℕ × Bool) :=
  loop (retrieveStep id newLeaf) p.numRealBlocks (accessLeaf, false)

/-- The block `t` of the tree moves to slot `s` of the stash. -/
def fetchBlock (t s : ℕ) : Traced OramArr Unit := do
  let valid ← load .tree (t * p.treeStride)
  store .stashInfo (infoValid s) valid
  let id ← load .tree (t * p.treeStride + 1)
  store .stashInfo (infoId s) id
  let leaf ← load .tree (t * p.treeStride + 2)
  store .stashInfo (infoLeaf s) leaf
  store .tree (t * p.treeStride) 0
  forUpTo p.blockSize fun k => do
    let w ← load .tree (t * p.treeStride + 3 + k)
    store .stashData (s * p.blockSize + k) w

def walkStep (s : ℕ × ℕ) : ℕ × ℕ := (s.1 * 2 + s.2 % 2, s.2 / 2)

def walkStart (accessLeaf : ℕ) : ℕ × ℕ :=
  (1, (bitwiseReverse (BitVec.ofNat 32 accessLeaf) (p.depth - 1)).toNat)

def fetchPath (accessLeaf : ℕ) : Traced OramArr (ℕ × ℕ) :=
  loop (fun i s => do
    forUpTo p.bucketSize fun j => fetchBlock p (s.1 * p.bucketSize + j) (i * p.bucketSize + j)
    pure (walkStep s)) p.depth (walkStart p accessLeaf)

/-- The conjunction of `test` and a test on the `valid` word of slot `i`. It short-circuits,
so the word is loaded only when `test` holds. -/
def andValid (test : Bool) (i : ℕ) (f : ℤ → Bool) : Traced OramArr Bool :=
  if test then do
    let valid ← load .stashInfo (infoValid i)
    pure (f valid)
  else pure false

/-- One round of the second loop of `Fetch_Blocks`; the state is `did_write`. -/
def accessStep (op : Op) (id newLeaf : ℕ) (ifNewData : Bool) (i : ℕ) (didWrite : Bool) :
    Traced OramArr Bool := do
  let sid ← load .stashInfo (infoId i)
  let idMatch ← andValid (sid = id) i fun valid => valid ≠ 0
  let readCond := idMatch && op = .read
  let writeCond := idMatch && op = .write
  cmovTo idMatch newLeaf .stashInfo (infoLeaf i)
  cmovn readCond .stashData (i * p.blockSize) .data 0 p.blockSize
  cmovn writeCond .data 0 .stashData (i * p.blockSize) p.blockSize
  let writeNewBlock ← andValid ifNewData i fun valid => valid = 0 && !didWrite
  cmovTo writeNewBlock 1 .stashInfo (infoValid i)
  cmovTo writeNewBlock id .stashInfo (infoId i)
  cmovTo writeNewBlock newLeaf .stashInfo (infoLeaf i)
  cmovn writeNewBlock .data 0 .stashData (i * p.blockSize) p.blockSize
  pure (didWrite || writeNewBlock)

def accessStash (op : Op) (id newLeaf : ℕ) (ifNewData : Bool) : Traced OramArr Bool :=
  loop (accessStep p op id newLeaf ifNewData) p.stashSize false

def fetchBlocks (op : Op) (id accessLeaf newLeaf : ℕ) (ifNewData : Bool) :
    Traced OramArr Unit := do
  let _ ← fetchPath p accessLeaf
  let _ ← accessStash p op id newLeaf ifNewData
  pure ()

def clearScratch : Traced OramArr Unit := do
  forUpTo (p.depth * p.bucketSize) fun i => store .wbPath i (-1)
  forUpTo p.depth fun i => store .occupied i 0

/-- One round of the eviction loop of `Store_Blocks`. -/
def evictStep (accessLeaf i : ℕ) : Traced OramArr Unit := do
  let valid ← load .stashInfo (infoValid i)
  let leaf ← load .stashInfo (infoLeaf i)
  let level ← pushBack p accessLeaf leaf p.depth
  let cond : Bool := valid ≠ 0 && level > -1
  let occupiedLevel ← scanOramRead .occupied p.depth 0 level
  let offset := level * p.bucketSize + occupiedLevel
  let wbPathOffset : ℤ := if cond then i else 0
  scanOramWrite .wbPath (p.depth * p.bucketSize) wbPathOffset offset
  let incOccupied := occupiedLevel + 1
  let occupiedLevel := if cond then incOccupied else occupiedLevel
  scanOramWrite .occupied p.depth occupiedLevel level
  cmovTo cond offset .stashInfo (infoKey i)
  cmovTo (!cond) maxInt .stashInfo (infoKey i)

def evict (accessLeaf : ℕ) : Traced OramArr Unit :=
  forUpTo p.stashSize (evictStep p accessLeaf)

/-- One round of the loop that hands the key `i` to an invalid slot; the state is
`add_extra_key_done`. -/
def extraKeyStep (i : ℕ) (ifAddExtraKey : Bool) (j : ℕ) (done : Bool) :
    Traced OramArr Bool := do
  let cond ← andValid (ifAddExtraKey && !done) j fun valid => valid = 0
  cmovTo cond i .stashInfo (infoKey j)
  pure (done || cond)

def addExtraKeys : Traced OramArr Unit :=
  forUpTo (p.depth * p.bucketSize) fun i => do
    let w ← load .wbPath i
    let _ ← loop (extraKeyStep i (w = -1)) p.stashSize false
    pure ()

def sortStash : Option (Traced OramArr Unit) :=
  match p.sortScheme with
  | .mergeSort => some (mergeSortTwoArrayTwoKey .stashInfo .stashData p.stashSize
      0 .ascending 1 .ascending 4 p.blockSize)
  | .bitonicSort => bitonicSortTwoArrayTwoKey .stashInfo .stashData p.stashSize
      0 .ascending 1 .ascending 4 p.blockSize

/-- Slot `s` of the stash moves to the block `t` of the tree. -/
def writeBackBlock (t s : ℕ) : Traced OramArr Unit := do
  let valid ← load .stashInfo (infoValid s)
  store .tree (t * p.treeStride) valid
  let id ← load .stashInfo (infoId s)
  store .tree (t * p.treeStride + 1) id
  let leaf ← load .stashInfo (infoLeaf s)
  store .tree (t * p.treeStride + 2) leaf
  store .stashInfo (infoValid s) 0
  forUpTo p.blockSize fun k => do
    let w ← load .stashData (s * p.blockSize + k)
    store .tree (t * p.treeStride + 3 + k) w

def writeBackPath (accessLeaf : ℕ) : Traced OramArr (ℕ × ℕ) :=
  loop (fun i s => do
    forUpTo p.bucketSize fun j =>
      writeBackBlock p (s.1 * p.bucketSize + j) (i * p.bucketSize + j)
    pure (walkStep s)) p.depth (walkStart p accessLeaf)

def assignKeys (accessLeaf : ℕ) : Traced OramArr Unit := do
  clearScratch p
  evict p accessLeaf
  addExtraKeys p

def storeBlocks (accessLeaf : ℕ) : Option (Traced OramArr Unit) :=
  (sortStash p).map fun sort => do
    assignKeys p accessLeaf
    sort
    let _ ← writeBackPath p accessLeaf
    pure ()

/-- `Access_ORAM` with the two random draws `r1` and `r2`. The result is the list of the
cells touched and the memory left, or no memory when an assertion stops the call. -/
def accessOram (op : Op) (id : ℤ) (r1 r2 : ℕ) (m : Mem OramArr) :
    List (OramArr × ℕ) × Option (Mem OramArr) :=
  if id < 0 ∨ id ≥ p.numRealBlocks then ([], none)
  else
    let newLeaf := genRandLeaf p r2
    let retrieve := retrieveLeafLabel p id.toNat (genRandLeaf p r1) newLeaf
    let (accessLeaf, ifNewData) := retrieve.val m
    if op = .read ∧ ifNewData then (retrieve.log m, none)
    else
      match storeBlocks p accessLeaf with
      | none => (retrieve.log m, none)
      | some store =>
        let rest := do
          let _ ← retrieve
          fetchBlocks p op id.toNat accessLeaf newLeaf ifNewData
          store
        (rest.log m, some (rest.exec m))

end Access

end OISA.Primitives
