import OISA.Lib.Runs
import OISA.Lib.Transfers

/-!
# Memory

`memory/Memory.cc`: a 32-bit virtual memory space made of pages whose data is allocated on the
first write.
-/

namespace OISA

open OISA.Lib

namespace Memory

/-- Log base 2 of the page size -/
def LogPageSize : ℕ := 12

def PageSize : BitVec 32 := 1#32 <<< LogPageSize

inductive AccessType
  | Invalid
  | Read
  | Write
  | Exec
  | Init
  | Modified
  deriving DecidableEq, Repr

def AccessType.bits : AccessType → BitVec 32
  | Invalid => 0#32
  | Read => 1#32 <<< 0
  | Write => 1#32 <<< 1
  | Exec => 1#32 <<< 2
  | Init => 1#32 <<< 3
  | Modified => 1#32 <<< 4

def fullPerm : BitVec 32 :=
  AccessType.Read.bits ||| AccessType.Write.bits ||| AccessType.Exec.bits ||| AccessType.Init.bits

/-- What an access throws, with its address. A failed assertion or a call of `abort` ends the
program. -/
inductive Error
  | SegmentationFault (address : BitVec 32)
  | PermissionDenied (address : BitVec 32)
  | Abort
  deriving DecidableEq, Repr

def Error.message : Error → String
  | SegmentationFault address =>
    "[0x" ++ String.ofList (Nat.toDigits 16 address.toNat) ++
      "] Segmentation fault in guest program"
  | PermissionDenied address =>
    "[0x" ++ String.ofList (Nat.toDigits 16 address.toNat) ++ "] Permission denied"
  | Abort => ""

structure Page where
  tag : BitVec 32
  perm : BitVec 32
  data : Option (ℕ → UInt8)
  aligned : pageOffset LogPageSize tag = 0#32

/-- The page data after `AllocateData`, which fills it with zeros. -/
def Page.AllocateData (page : Page) : ℕ → UInt8 := page.data.getD fun _ => 0

def Page.setPerm (page : Page) (perm : BitVec 32) : Page := { page with perm := perm }

def Page.addPerm (page : Page) (perm : BitVec 32) : Page :=
  { page with perm := page.perm ||| perm }

def Page.setData (page : Page) (data : ℕ → UInt8) : Page := { page with data := some data }

def Page.allows (page : Page) (access : AccessType) : Bool :=
  page.perm &&& access.bits = access.bits

def memcpy (data : ℕ → UInt8) (offset : ℕ) (buffer : List UInt8) : ℕ → UInt8 := fun i =>
  if offset ≤ i then buffer[i - offset]?.getD (data i) else data i

def Page.touch (page : Page) (access : AccessType) : Page :=
  if access = .Write then page.addPerm AccessType.Modified.bits else page

/-- The part of `AccessAtPageBoundary` that follows the lookup of the page. The modified flag is
set before the permissions are checked. -/
def Page.access (safe : Bool) (access : AccessType) (address : BitVec 32) (buffer : List UInt8)
    (page : Page) : Outcome Page UInt8 Error :=
  let offset := (address &&& (PageSize - 1#32)).toNat
  let page := page.touch access
  if safe && !page.allows access then ⟨page, buffer, some (.PermissionDenied address)⟩
  else
    match access with
    | .Read | .Exec =>
      match page.data with
      | some data => ⟨page, (List.range buffer.length).map fun i => data (offset + i), none⟩
      | none => ⟨page, List.replicate buffer.length 0, none⟩
    | .Write | .Init =>
      ⟨page.setData (memcpy page.AllocateData offset buffer), buffer, none⟩
    | .Invalid | .Modified => ⟨page, buffer, some .Abort⟩

end Memory

/-- A 32-bit virtual memory space. Memory objects use safe mode unless configured otherwise. -/
structure Memory where
  pages : BitVec 32 → Option Memory.Page := fun _ => none
  safe : Bool := true

namespace Memory

def getPage (m : Memory) (address : BitVec 32) : Option Page :=
  m.pages (address &&& ~~~ (PageSize - 1#32))

/-- Change the entry of the hash table for the page of an address. -/
def setPage (m : Memory) (address : BitVec 32) (page : Option Page) : Memory :=
  { m with pages := Function.update m.pages (address &&& ~~~ (PageSize - 1#32)) page }

/-- A page of the given permissions, with the tag of the address. -/
def Page.new (address perm : BitVec 32) : Page :=
  ⟨address &&& ~~~ (PageSize - 1#32), perm, none, pageOffset_pageTag⟩

def newPage (m : Memory) (address perm : BitVec 32) : Option (Memory × Page) :=
  match m.getPage address with
  | some _ => none
  | none => some (m.setPage address (some (Page.new address perm)), Page.new address perm)

def onPage (m : Memory) (address : BitVec 32) (o : Outcome Page UInt8 Error) :
    Outcome Memory UInt8 Error :=
  ⟨m.setPage address (some o.state), o.buffer, o.error⟩

def AccessAtPageBoundary (access : AccessType) (address : BitVec 32) (buffer : List UInt8)
    (m : Memory) : Outcome Memory UInt8 Error :=
  if PageSize.toNat < (address &&& (PageSize - 1#32)).toNat + buffer.length then
    ⟨m, buffer, some .Abort⟩
  else
    match m.getPage address with
    | some page => m.onPage address (page.access m.safe access address buffer)
    | none =>
      if m.safe then ⟨m, buffer, some (.SegmentationFault address)⟩
      else
        match access with
        | .Read | .Exec => ⟨m, List.replicate buffer.length 0, none⟩
        | .Write | .Init =>
          match m.newPage address fullPerm with
          | none => ⟨m, buffer, some .Abort⟩
          | some (m, page) => m.onPage address (page.access m.safe access address buffer)
        | .Invalid | .Modified => ⟨m, buffer, some .Abort⟩

/-- Access memory at any address and size, without page boundary restrictions. The buffer is read
or written, and its length is the size. -/
def Access (m : Memory) (address : BitVec 32) (buffer : List UInt8) (access : AccessType) :
    Outcome Memory UInt8 Error :=
  transfer LogPageSize (AccessAtPageBoundary access) address buffer m

def Read (m : Memory) (address : BitVec 32) (buffer : List UInt8) : Outcome Memory UInt8 Error :=
  m.Access address buffer .Read

def Write (m : Memory) (address : BitVec 32) (buffer : List UInt8) : Outcome Memory UInt8 Error :=
  m.Access address buffer .Write

def Init (m : Memory) (address : BitVec 32) (buffer : List UInt8) : Outcome Memory UInt8 Error :=
  m.Access address buffer .Init

/-- The loop `for (tag = tag1; tag <= tag2; tag += PageSize)`. It stops with `none` where the
body throws, or after `fuel` iterations. -/
def forTags (body : BitVec 32 → Memory → Option Memory) (tag2 : BitVec 32) :
    ℕ → BitVec 32 → Memory → Option Memory
  | 0, _, _ => none
  | fuel + 1, tag, m =>
    if tag ≤ tag2 then (body tag m).bind (forTags body tag2 fuel (tag + PageSize)) else some m

def Map.body (perm tag : BitVec 32) (m : Memory) : Option Memory :=
  match m.getPage tag with
  | some page => some (m.setPage tag (some (page.addPerm perm)))
  | none => (m.newPage tag perm).map fun x => x.1.setPage tag (some (x.2.addPerm perm))

def Map (fuel : ℕ) (m : Memory) (address size perm : BitVec 32) : Option Memory :=
  let tag1 := address &&& ~~~ (PageSize - 1#32)
  let tag2 := (address + size - 1#32) &&& ~~~ (PageSize - 1#32)
  forTags (Map.body perm) tag2 fuel tag1 m

def Unmap.body (tag : BitVec 32) (m : Memory) : Option Memory := some (m.setPage tag none)

def Unmap (fuel : ℕ) (m : Memory) (address size : BitVec 32) : Option Memory :=
  if address &&& (PageSize - 1#32) ≠ 0 ∨ size &&& (PageSize - 1#32) ≠ 0 then none
  else
    let tag1 := address &&& ~~~ (PageSize - 1#32)
    let tag2 := (address + size - 1#32) &&& ~~~ (PageSize - 1#32)
    forTags Unmap.body tag2 fuel tag1 m

def Protect.body (perm tag : BitVec 32) (m : Memory) : Option Memory :=
  match m.getPage tag with
  | none => some m
  | some page => some (m.setPage tag (some (page.setPerm perm)))

def Protect (fuel : ℕ) (m : Memory) (address size perm : BitVec 32) : Option Memory :=
  if address &&& (PageSize - 1#32) ≠ 0 ∨ size &&& (PageSize - 1#32) ≠ 0 then none
  else
    let tag1 := address &&& ~~~ (PageSize - 1#32)
    let tag2 := (address + size - 1#32) &&& ~~~ (PageSize - 1#32)
    forTags (Protect.body perm) tag2 fuel tag1 m

/-- The loop of `MapSpace`. -/
def MapSpace.loop (m : Memory) (size : BitVec 32) : ℕ → BitVec 32 → BitVec 32 → Option (BitVec 32)
  | 0, _, _ => none
  | fuel + 1, tag_start, tag_end =>
    -- address space overflow
    if tag_end = 0#32 then some (-1#32)
    else if (m.getPage tag_end).isSome then
      MapSpace.loop m size fuel (tag_end + PageSize) (tag_end + PageSize)
    else if tag_end - tag_start + PageSize = size then some tag_start
    else if tag_end - tag_start + PageSize < size then
      MapSpace.loop m size fuel tag_start (tag_end + PageSize)
    else none

/-- Find free pages upwards. -/
def MapSpace (fuel : ℕ) (m : Memory) (address size : BitVec 32) : Option (BitVec 32) :=
  if address &&& (PageSize - 1#32) ≠ 0 ∨ size &&& (PageSize - 1#32) ≠ 0 then none
  else MapSpace.loop m size fuel address address

/-- The loop of `MapSpaceDown`. -/
def MapSpaceDown.loop (m : Memory) (size : BitVec 32) :
    ℕ → BitVec 32 → BitVec 32 → Option (BitVec 32)
  | 0, _, _ => none
  | fuel + 1, tag_start, tag_end =>
    -- address space overflow
    if tag_start = 0#32 then some (-1#32)
    else if (m.getPage tag_start).isSome then
      MapSpaceDown.loop m size fuel (tag_start - PageSize) (tag_start - PageSize)
    else if tag_end - tag_start + PageSize = size then some tag_start
    else if tag_end - tag_start + PageSize < size then
      MapSpaceDown.loop m size fuel (tag_start - PageSize) tag_end
    else none

/-- Find free pages downwards. -/
def MapSpaceDown (fuel : ℕ) (m : Memory) (address size : BitVec 32) : Option (BitVec 32) :=
  if address &&& (PageSize - 1#32) ≠ 0 ∨ size &&& (PageSize - 1#32) ≠ 0 then none
  else MapSpaceDown.loop m size fuel address address

inductive Op
  | map (address size perm : BitVec 32)
  | unmap (address size : BitVec 32)
  | protect (address size perm : BitVec 32)
  | read (address : BitVec 32) (buffer : List UInt8)
  | write (address : BitVec 32) (buffer : List UInt8)
  | init (address : BitVec 32) (buffer : List UInt8)
  deriving DecidableEq, Repr

/-- The memory after an operation. An access that throws leaves what it did before. -/
def step (fuel : ℕ) (op : Op) (m : Memory) : Option Memory :=
  match op with
  | .map address size perm => m.Map fuel address size perm
  | .unmap address size => m.Unmap fuel address size
  | .protect address size perm => m.Protect fuel address size perm
  | .read address buffer => some (m.Read address buffer).state
  | .write address buffer => some (m.Write address buffer).state
  | .init address buffer => some (m.Init address buffer).state

end Memory

end OISA
