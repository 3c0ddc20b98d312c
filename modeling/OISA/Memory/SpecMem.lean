import OISA.Memory.Memory

/-!
# Speculative memory

`memory/SpecMem.cc`: a temporary memory for speculative writes on top of a memory.
-/

namespace OISA

open OISA.Lib

namespace SpecMem

/-- Log base 2 of the size of a speculative page -/
def LogPageSize : ℕ := 4

def PageSize : BitVec 32 := 1#32 <<< LogPageSize

def PageMask : BitVec 32 := ~~~ (PageSize - 1#32)

def PageTableSize : BitVec 32 := 32#32

/-- To prevent an excessive growth of speculative memory, this is a limit of pages. -/
def MaxPages : ℕ := 100

structure Page where
  address : BitVec 32
  data : ℕ → UInt8

/-- Copy a buffer into a page, from an offset on. -/
def Page.write (page : Page) (offset : ℕ) (buffer : List UInt8) : Page :=
  { page with data := Memory.memcpy page.data offset buffer }

def replacePage (page : Page) : List Page → List Page
  | [] => []
  | p :: chain => if p.address = page.address then page :: chain else p :: replacePage page chain

end SpecMem

structure SpecMem where
  memory : Memory
  num_pages : ℕ := 0
  pages : BitVec 32 → List SpecMem.Page := fun _ => []

namespace SpecMem

/-- Position of a page address in the hash table. -/
def index (address : BitVec 32) : BitVec 32 := (address >>> LogPageSize) % PageTableSize

def getPage (s : SpecMem) (address : BitVec 32) : Option Page :=
  let address := address &&& PageMask
  (s.pages (index address)).find? (·.address = address)

/-- Change the contents of a page of the table. -/
def setPage (s : SpecMem) (page : Page) : SpecMem :=
  { s with
    pages := Function.update s.pages (index page.address)
      (replacePage page (s.pages (index page.address))) }

def unsafeRead (memory : Memory) (address : BitVec 32) (buffer : List UInt8) :
    Outcome Memory UInt8 Memory.Error :=
  let safe := memory.safe
  let o := { memory with safe := false }.Read address buffer
  match o.error with
  | some _ => o
  | none => { o with state := { o.state with safe := safe } }

/-- Create a page and read its initial contents. -/
def newPage (s : SpecMem) (address : BitVec 32) : Outcome SpecMem UInt8 Memory.Error :=
  let address := address &&& PageMask
  let o := unsafeRead s.memory address (List.replicate PageSize.toNat 0)
  match o.error with
  | some _ => ⟨{ s with memory := o.state }, o.buffer, o.error⟩
  | none =>
    let page : Page := ⟨address, fun i => o.buffer[i]?.getD 0⟩
    ⟨{ memory := o.state
       num_pages := s.num_pages + 1
       pages := Function.update s.pages (index address) (page :: s.pages (index address)) },
      o.buffer, none⟩

/-- Access a page that is in the table. -/
def accessPage (s : SpecMem) (page : Page) (access : Memory.AccessType) (address : BitVec 32)
    (buffer : List UInt8) : Outcome SpecMem UInt8 Memory.Error :=
  let offset := (address &&& ~~~ PageMask).toNat
  if PageSize.toNat < offset + buffer.length then ⟨s, buffer, some .Abort⟩
  else
    match access with
    | .Read => ⟨s, (List.range buffer.length).map fun i => page.data (offset + i), none⟩
    | .Write => ⟨s.setPage (page.write offset buffer), buffer, none⟩
    | _ => ⟨s, buffer, some .Abort⟩

def AccessAligned (access : Memory.AccessType) (address : BitVec 32) (buffer : List UInt8)
    (s : SpecMem) : Outcome SpecMem UInt8 Memory.Error :=
  match s.getPage address with
  | some page => s.accessPage page access address buffer
  | none =>
    match access with
    | .Read =>
      let o := unsafeRead s.memory address buffer
      ⟨{ s with memory := o.state }, o.buffer, o.error⟩
    | .Write =>
      -- above the limit the write is ignored
      if MaxPages ≤ s.num_pages then ⟨s, buffer, none⟩
      else
        let o := s.newPage address
        match o.error, o.state.getPage address with
        | none, some page => o.state.accessPage page access address buffer
        | _, _ => ⟨o.state, buffer, o.error⟩
    | _ => ⟨s, buffer, some .Abort⟩

def Access (s : SpecMem) (address : BitVec 32) (buffer : List UInt8)
    (access : Memory.AccessType) : Outcome SpecMem UInt8 Memory.Error :=
  transfer LogPageSize (AccessAligned access) address buffer s

def Read (s : SpecMem) (address : BitVec 32) (buffer : List UInt8) :
    Outcome SpecMem UInt8 Memory.Error :=
  s.Access address buffer .Read

def Write (s : SpecMem) (address : BitVec 32) (buffer : List UInt8) :
    Outcome SpecMem UInt8 Memory.Error :=
  s.Access address buffer .Write

def Clear (s : SpecMem) : SpecMem := { s with pages := fun _ => [], num_pages := 0 }

inductive Op
  | read (address : BitVec 32) (buffer : List UInt8)
  | write (address : BitVec 32) (buffer : List UInt8)
  | clear
  deriving DecidableEq, Repr

def step (s : SpecMem) : Op → SpecMem
  | .read address buffer => (s.Read address buffer).state
  | .write address buffer => (s.Write address buffer).state
  | .clear => s.Clear

end SpecMem

end OISA
