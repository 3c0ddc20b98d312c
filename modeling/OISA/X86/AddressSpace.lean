import OISA.Lib.Bits
import OISA.Memory.Memory

/-!
# System calls on the address space

Model of `SyscallMmapAux`, `ExecuteSyscall_munmap` and `ExecuteSyscall_mremap`, with
`Memory::Copy`, of `ExecuteSyscall_brk` with the heap break, and of `ExitRobustList`.
-/

namespace OISA.X86.AddressSpace

open OISA.Memory

abbrev Word := BitVec 32

/-- How a call ends: with an error of the simulator, or with an address. -/
inductive Result where
  | error (message : String)
  | returns (addr : Word) (memory : Memory)

structure HostFile where
  bytes : List UInt8
  pos : ℕ

def RoundUp (n align : Word) : Word := (n + (align - 1)) &&& ~~~(align - 1)

def mmap_base_address : Word := 0xb7fb0000

def MAP_FIXED : Word := 0x10

def MAP_ANONYMOUS : Word := 0x20

structure MmapArgs where
  addr : Word
  len : Word
  prot : Word
  flags : Word
  guest_fd : Word
  offset : Word

def mmapPerm (prot : Word) : Word :=
  AccessType.Init.bits ||| (if prot &&& 1 ≠ 0 then AccessType.Read.bits else 0) |||
    (if prot &&& 2 ≠ 0 then AccessType.Write.bits else 0) |||
    (if prot &&& 4 ≠ 0 then AccessType.Exec.bits else 0)

/-- The loop of `mmap` that reads the pages of a file -/
def readPages (bytes : List UInt8) : ℕ → Word → ℕ → Word → Memory → Option Memory
  | 0, _, _, _, _ => none
  | fuel + 1, size, pos, curr_addr, m =>
    if 0 < size.toInt then
      let data := (bytes.drop pos).take PageSize.toNat
      let buf := data ++ List.replicate (PageSize.toNat - data.length) 0
      let next := readPages bytes fuel (size - PageSize) (pos + data.length)
        (curr_addr + PageSize)
      if data.length ≠ 0 then
        let o := m.Access curr_addr buf .Init
        match o.error with
        | some _ => none
        | none => next o.state
      else next m
    else some m

def findSpace (fuel : ℕ) (m : Memory) (addr len_aligned : Word) : Option Word := do
  let hint ← m.MapSpaceDown fuel addr len_aligned
  let addr := if addr = 0 ∨ hint ≠ addr then mmap_base_address else addr
  m.MapSpaceDown fuel addr len_aligned

/-- The file that is mapped, if any -/
def MmapArgs.file (args : MmapArgs) (files : Word → Option HostFile) : Option HostFile :=
  if args.flags &&& MAP_ANONYMOUS ≠ 0 then none else files args.guest_fd

def HostFile.lseek (file : HostFile) (offset : Word) : ℕ :=
  if offset.toInt < 0 then file.pos else offset.toNat

def mapRange (fuel : ℕ) (files : Word → Option HostFile) (args : MmapArgs)
    (len_aligned addr : Word) (m : Memory) : Option Result :=
  (m.Map fuel addr len_aligned (mmapPerm args.prot)).bind fun m =>
    match args.file files with
    | none => some (.returns addr m)
    | some file =>
      (readPages file.bytes fuel len_aligned (file.lseek args.offset) addr m).map (.returns addr)

def syscallMmapAux (fuel : ℕ) (m : Memory) (files : Word → Option HostFile) (args : MmapArgs) :
    Option Result :=
  if 0 < args.guest_fd.toInt ∧ (files args.guest_fd).isNone then
    some (.error "mmap: Invalid guest descriptor")
  else if args.offset &&& (PageSize - 1) ≠ 0 then some (.error "mmap: Unaligned offset")
  else if args.addr &&& (PageSize - 1) ≠ 0 then some (.error "mmap: Unaligned address")
  else
    let len_aligned := RoundUp args.len PageSize
    let map := mapRange fuel files args len_aligned
    if args.flags &&& MAP_FIXED ≠ 0 then
      if args.addr = 0 then some (.error "mmap: No start specified for fixed mapping")
      else (m.Unmap fuel args.addr len_aligned).bind (map args.addr)
    else
      (findSpace fuel m args.addr len_aligned).bind fun addr =>
        if addr = -1 then some (.error "mmap: Out of guest memory") else map addr m

def executeSyscall_munmap (fuel : ℕ) (m : Memory) (addr size : Word) : Option Result :=
  if addr &&& (PageSize - 1) ≠ 0 then some (.error "munmap: Address not aligned")
  else (m.Unmap fuel addr (RoundUp size PageSize)).map (.returns 0)

/-- The loop of `Memory::Copy` -/
def copyLoop : ℕ → Word → Word → Word → Memory → Option Memory
  | 0, _, _, _, _ => none
  | fuel + 1, dest, src, size, m =>
    if size = 0 then some m
    else
      match m.getPage dest, m.getPage src with
      | some page_dest, some page_src =>
        let page : Page :=
          match page_src.data with
          | some data => page_dest.setData data
          | none =>
            match page_dest.data with
            | some _ => page_dest.setData fun _ => 0
            | none => page_dest
        copyLoop fuel (dest + PageSize) (src + PageSize) (size - PageSize)
          (m.setPage dest (some page))
      | _, _ => none

def copy (fuel : ℕ) (m : Memory) (dest src size : Word) : Option Memory :=
  if dest &&& (PageSize - 1) ≠ 0 ∨ src &&& (PageSize - 1) ≠ 0 ∨ size &&& (PageSize - 1) ≠ 0 then
    none
  else if src < dest ∧ dest < src + size ∨ dest < src ∧ src < dest + size then none
  else copyLoop fuel dest src size m

def readWrite : Word := AccessType.Read.bits ||| AccessType.Write.bits

def executeSyscall_mremap (fuel : ℕ) (m : Memory) (addr old_len new_len flags : Word) :
    Option Result :=
  if addr &&& (PageSize - 1) ≠ 0 ∨ old_len &&& (PageSize - 1) ≠ 0 ∨
      new_len &&& (PageSize - 1) ≠ 0 then none
  else if flags &&& 1 = 0 then some (.error "mremap: flag MAP_MAYMOVE must be present")
  else if old_len = 0 ∨ new_len = 0 then some (.error "old_len or new_len cannot be zero")
  else if new_len = old_len then some (.returns addr m)
  else if new_len < old_len then
    (m.Unmap fuel (addr + new_len) (old_len - new_len)).map (.returns addr)
  else
    (m.MapSpace fuel (addr + old_len) (new_len - old_len)).bind fun space =>
      if space = addr + old_len then
        (m.Map fuel (addr + old_len) (new_len - old_len) readWrite).map (.returns addr)
      else
        (m.MapSpaceDown fuel mmap_base_address new_len).bind fun new_addr =>
          if new_addr = -1 then some (.error "mremap: Out of guest memory")
          else
            (m.Map fuel new_addr new_len readWrite).bind fun m =>
              (copy fuel m new_addr addr
                (if new_len < old_len then new_len else old_len)).bind fun m =>
                (m.Unmap fuel addr old_len).map (.returns new_addr)

/-! ### Heap break -/

structure Heap where
  memory : Memory
  heap_break : Word

/-- How `brk` ends: with an error of the simulator, or with the value that it returns. -/
inductive BrkResult where
  | error (message : String)
  | returns (value : Word) (heap : Heap)

def executeSyscall_brk (fuel : ℕ) (heap : Heap) (new_heap_break : Word) : Option BrkResult :=
  let old_heap_break := heap.heap_break
  let new_heap_break_aligned := RoundUp new_heap_break PageSize
  let old_heap_break_aligned := RoundUp old_heap_break PageSize
  if new_heap_break = 0 then some (.returns old_heap_break heap)
  else if old_heap_break < new_heap_break then
    let size := new_heap_break_aligned - old_heap_break_aligned
    if size ≠ 0 then
      (heap.memory.MapSpace fuel old_heap_break_aligned size).bind fun space =>
        if space ≠ old_heap_break_aligned then some (.error "Out of memory")
        else
          (heap.memory.Map fuel old_heap_break_aligned size readWrite).map fun memory =>
            .returns new_heap_break ⟨memory, new_heap_break⟩
    else some (.returns new_heap_break { heap with heap_break := new_heap_break })
  -- always allow to shrink the heap
  else if new_heap_break < old_heap_break then
    let size := old_heap_break_aligned - new_heap_break_aligned
    if size ≠ 0 then
      (heap.memory.Unmap fuel new_heap_break_aligned size).map fun memory =>
        .returns new_heap_break ⟨memory, new_heap_break⟩
    else some (.returns new_heap_break { heap with heap_break := new_heap_break })
  -- heap stays the same
  else some (.returns 0 heap)

/-! ### Robust futex lists -/

/-- Four bytes of guest memory; a read leaves the memory as it is. -/
def readWord (m : Memory) (address : Word) : Except Memory.Error Word :=
  let o := m.Read address (List.replicate 4 0)
  match o.error with
  | some error => .error error
  | none => .ok (BitVec.ofNat 32 (Lib.leNat o.buffer))

def readLockEntry (m : Memory) (lock_entry : Word) : Except Memory.Error Word := do
  let next ← readWord m lock_entry
  let offset ← readWord m (lock_entry + 4)
  let _lock_word ← readWord m (lock_entry + offset)
  return next

/-- The loop of `ExitRobustList`, if it ends within the iterations -/
def exitRobustListLoop (m : Memory) (robust_list_head : Word) :
    ℕ → Word → Option (Except Memory.Error Unit)
  | 0, _ => none
  | fuel + 1, lock_entry =>
    match readLockEntry m lock_entry with
    | .error error => some (.error error)
    | .ok next =>
      -- stop processing the list if `next` points to the robust list
      if next = 0 ∨ next = robust_list_head then some (.ok ())
      else exitRobustListLoop m robust_list_head fuel next

def exitRobustList (fuel : ℕ) (m : Memory) (robust_list_head : Word) :
    Option (Except Memory.Error Unit) :=
  if robust_list_head = 0 then some (.ok ())
  else exitRobustListLoop m robust_list_head fuel robust_list_head

end OISA.X86.AddressSpace
