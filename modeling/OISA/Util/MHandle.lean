import OISA.Lib.Probing

/-!
# Allocation tracker

Model of `lib/mhandle/mhandle.c`: the hash table of the allocated pointers, with linear probing
and removal marks.
-/

namespace OISA.Util

open OISA.Lib

def MHANDLE_HASH_TABLE_SIZE : ℕ := 1000

structure mhandle_item_t where
  ptr : BitVec 64 := 0
  size : BitVec 64 := 0
  «at» : String := ""
  removed : Bool := false
  active : Bool := false
  corrupt_info : Bool := false
  deriving DecidableEq, Repr

def mhandle_item_t.used (item : mhandle_item_t) : Bool := item.active && !item.removed

structure MHandle where
  mem_used : BitVec 64 := 0
  hash_table : ℕ → mhandle_item_t := fun _ => {}
  hash_table_size : ℕ := MHANDLE_HASH_TABLE_SIZE
  hash_table_count : ℕ := 0

namespace MHandle

/-- What `mhandle_init` leaves -/
def init : MHandle := {}

def hash (s : MHandle) (ptr : BitVec 64) : ℕ := ptr.toNat % s.hash_table_size

/-- The part of `mhandle_hash_table_insert` after the check of the size -/
def insertItem (s : MHandle) (ptr size : BitVec 64) («at» : String) (corrupt_info : Bool) :
    Option MHandle := do
  let index ← probe (fun i => !(s.hash_table i).used) s.hash_table_size s.hash_table_size
    (s.hash ptr)
  some { s with
    hash_table := Function.update s.hash_table index
      ⟨ptr, size, «at», false, true, corrupt_info⟩
    mem_used := s.mem_used + size
    hash_table_count := s.hash_table_count + 1 }

def reinsert (insert : MHandle → BitVec 64 → BitVec 64 → String → Bool → Option MHandle)
    (old new : MHandle) (i : ℕ) : Option MHandle :=
  let item := old.hash_table i
  if item.used then
    insert { new with
      hash_table_count := new.hash_table_count - 1
      mem_used := new.mem_used - item.size } item.ptr item.size item.at item.corrupt_info
  else some new

def hash_table_grow
    (insert : MHandle → BitVec 64 → BitVec 64 → String → Bool → Option MHandle) (s : MHandle) :
    Option MHandle :=
  if 2 ^ 31 ≤ s.hash_table_size * 2 then none
  else
    (List.range s.hash_table_size).foldlM (reinsert insert s) { s with
      hash_table_size := s.hash_table_size * 2
      hash_table := fun _ => {} }

/-- `mhandle_hash_table_insert`; the depth bounds the nested calls. -/
def hash_table_insert (depth : ℕ) (s : MHandle) (ptr size : BitVec 64) («at» : String)
    (corrupt_info : Bool) : Option MHandle :=
  match depth with
  | 0 => none
  | depth + 1 => do
    let s ←
      if s.hash_table_size / 2 ≤ s.hash_table_count then hash_table_grow (hash_table_insert depth) s
      else some s
    s.insertItem ptr size «at» corrupt_info

/-- The loop of `mhandle_hash_table_get`, for some steps: the item found, or that there is none -/
def hash_table_get (steps : ℕ) (s : MHandle) (ptr : BitVec 64) : Option (Option ℕ) := do
  let found := fun i => (s.hash_table i).ptr = ptr ∧ (s.hash_table i).used
  let idx ← probe (fun i => found i ∨ !(s.hash_table i).active) s.hash_table_size steps (s.hash ptr)
  some (if found idx then some idx else none)

def removeItem (s : MHandle) (idx : ℕ) : MHandle :=
  { s with
    hash_table := Function.update s.hash_table idx { s.hash_table idx with removed := true }
    mem_used := s.mem_used - (s.hash_table idx).size
    hash_table_count := s.hash_table_count - 1 }

def hash_table_remove (s : MHandle) (ptr : BitVec 64) : Option (MHandle × BitVec 64) := do
  let item ← hash_table_get s.hash_table_size s ptr
  let idx ← item
  some (s.removeItem idx, (s.hash_table idx).size)

def check_corrupt (size : BitVec 64) (intact : Bool) : Bool := 0 < size.toNat && intact

/-- `mhandle_free`; `intact` says that the bytes around the block are as they were marked. -/
def free (s : MHandle) (ptr : BitVec 64) (intact : Bool) : Option MHandle :=
  if ptr = 0 then some s
  else do
    let item ← hash_table_get s.hash_table_size s ptr
    let idx ← item
    let item := s.hash_table idx
    if item.corrupt_info && !check_corrupt item.size intact then none
    else (s.hash_table_remove ptr).map (·.1)

inductive Op
  | insert (ptr size : BitVec 64) («at» : String) (corrupt_info : Bool)
  | remove (ptr : BitVec 64)
  | free (ptr : BitVec 64) (intact : Bool)
  deriving DecidableEq, Repr

/-- Growing inserts the items again, without growing once more. -/
def perform : Op → MHandle → Option MHandle
  | .insert ptr size «at» corrupt_info, s => s.hash_table_insert 2 ptr size «at» corrupt_info
  | .remove ptr, s => (s.hash_table_remove ptr).map (·.1)
  | .free ptr intact, s => s.free ptr intact

end MHandle

end OISA.Util
