import Mathlib.Tactic

/-!
# File descriptor tables

Model of `arch/common/FileTable.cc`: a vector of file descriptors with holes, indexed by the
guest.
-/

namespace OISA.X86

inductive FileDescriptorType
  | invalid | regular | standard | pipe | virtual | device | socket
  deriving DecidableEq

structure FileDescriptor where
  type : FileDescriptorType
  guest_index : ℤ
  host_index : ℤ
  flags : ℤ
  path : String
  deriving DecidableEq

structure FileTable where
  descriptors : List (Option FileDescriptor)
  deriving DecidableEq

def INT_MAX : ℤ := 2 ^ 31 - 1

def inRange (value min max : ℤ) : Bool := decide (min ≤ value ∧ value ≤ max)

namespace FileTable

/-- The constructor: stdin, stdout and stderr. -/
def init : FileTable where
  descriptors :=
    [some ⟨.standard, 0, 0, 0, ""⟩, some ⟨.standard, 1, 1, 0, ""⟩, some ⟨.standard, 2, 2, 0, ""⟩]

def size (t : FileTable) : ℤ := t.descriptors.length

def getFileDescriptor (t : FileTable) (index : ℤ) : Option FileDescriptor :=
  if inRange index 0 (t.size - 1) then t.descriptors[index.toNat]?.join else none

def getHostIndex (t : FileTable) (guest_index : ℤ) : Option ℤ :=
  -- invalid index
  if !inRange guest_index 0 t.size then some (-1)
  else t.descriptors[guest_index.toNat]?.map fun desc => desc.elim (-1) (·.host_index)

def getGuestIndex (t : FileTable) (host_index : ℤ) : ℤ :=
  (t.descriptors.findIdx? (·.any (·.host_index == host_index))).elim (-1) (↑·)

def newFileDescriptor (t : FileTable) (type : FileDescriptorType) (guest_index host_index : ℤ)
    (path : String) (flags : ℤ) : Option (FileDescriptor × FileTable) :=
  -- look for a free entry
  let guest_index :=
    if guest_index < 0 then (t.descriptors.findIdx? (·.isNone)).elim guest_index (↑·)
    else guest_index
  -- if no free entry was found, add new entry
  let (guest_index, descriptors) :=
    if guest_index < 0 then (t.size, t.descriptors ++ [none]) else (guest_index, t.descriptors)
  -- specified guest_index may still be too large
  if INT_MAX ≤ guest_index then none
  else
    let missing := guest_index.toNat + 1 - descriptors.length
    let descriptors := descriptors ++ List.replicate missing none
    let desc : FileDescriptor := ⟨type, guest_index, host_index, flags, path⟩
    some (desc, ⟨descriptors.set guest_index.toNat (some desc)⟩)

/-- The table, and the temporary host path that is deleted. -/
def freeFileDescriptor (t : FileTable) (index : ℤ) : FileTable × Option String :=
  -- out of range
  if !inRange index 0 (t.size - 1) then (t, none)
  else
    match t.descriptors[index.toNat]?.join with
    | none => (t, none)
    | some desc =>
      (⟨t.descriptors.set index.toNat none⟩,
        -- a virtual file has a temporary host path
        if desc.type = .virtual then some desc.path else none)

inductive Call
  | new (type : FileDescriptorType) (guest_index host_index : ℤ) (path : String) (flags : ℤ)
  | free (index : ℤ)

def call : Call → FileTable → Option FileTable
  | .new type guest_index host_index path flags, t =>
    (t.newFileDescriptor type guest_index host_index path flags).map Prod.snd
  | .free index, t => some (t.freeFileDescriptor index).1

end FileTable

end OISA.X86
