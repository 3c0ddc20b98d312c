import OISA.Lib.Pages

/-!
# Memory management unit

`memory/Mmu.cc`: pages of virtual spaces are given consecutive physical pages on first use. A
space is known to the unit only through its pointer, so the spaces are an arbitrary type.
-/

namespace OISA.Memory

namespace Mmu

/-- Log base 2 of the page size -/
def LogPageSize : ℕ := 12

def PageSize : BitVec 32 := 1#32 <<< LogPageSize

def PageMask : BitVec 32 := ~~~ (PageSize - 1#32)

structure Page (Space : Type) where
  space : Space
  virtual_address : BitVec 32
  physical_address : BitVec 32
  deriving DecidableEq, Repr

end Mmu

/-- `virtual_pages` holds the table of each space, `physical_pages` the one of the unit. -/
structure Mmu (Space : Type) where
  top_physical_address : BitVec 32 := 0#32
  pages : List (Mmu.Page Space) := []
  virtual_pages : Space → BitVec 32 → Option (Mmu.Page Space) := fun _ _ => none
  physical_pages : BitVec 32 → Option (Mmu.Page Space) := fun _ => none

namespace Mmu

variable {Space : Type} [DecidableEq Space]

def addPage (m : Mmu Space) (page : Page Space) : Mmu Space :=
  { m with virtual_pages := fun s va =>
      if s = page.space ∧ va = page.virtual_address then some page else m.virtual_pages s va }

def newPage (m : Mmu Space) (space : Space) (virtual_tag : BitVec 32) : Page Space :=
  ⟨space, virtual_tag, m.top_physical_address⟩

def insertPage (m : Mmu Space) (page : Page Space) : Mmu Space :=
  { m.addPage page with
    pages := m.pages ++ [page]
    physical_pages := Function.update m.physical_pages page.physical_address (some page)
    top_physical_address := m.top_physical_address + PageSize }

def findPage (m : Mmu Space) (space : Space) (virtual_tag : BitVec 32) :
    Mmu Space × Page Space :=
  match m.virtual_pages space virtual_tag with
  | some page => (m, page)
  | none => (m.insertPage (m.newPage space virtual_tag), m.newPage space virtual_tag)

def TranslateVirtualAddress (m : Mmu Space) (space : Space) (virtual_address : BitVec 32) :
    Mmu Space × BitVec 32 :=
  let virtual_tag := virtual_address &&& PageMask
  let page_offset := virtual_address &&& ~~~ PageMask
  let (m, page) := m.findPage space virtual_tag
  (m, page.physical_address + page_offset)

def TranslatePhysicalAddress (m : Mmu Space) (physical_address : BitVec 32) :
    Option (Space × BitVec 32) :=
  let physical_tag := physical_address &&& PageMask
  let page_offset := physical_address &&& ~~~ PageMask
  match m.physical_pages physical_tag with
  | none => none
  | some page => some (page.space, page.virtual_address + page_offset)

def isValidPhysicalAddress (m : Mmu Space) (physical_address : BitVec 32) : Bool :=
  (m.physical_pages (physical_address &&& PageMask)).isSome

def translateAll : List (Space × BitVec 32) → Mmu Space → Mmu Space × List (BitVec 32)
  | [], m => (m, [])
  | (space, virtual_address) :: calls, m =>
    let (m, physical_address) := m.TranslateVirtualAddress space virtual_address
    let (m, rest) := translateAll calls m
    (m, physical_address :: rest)

end Mmu

end OISA.Memory
