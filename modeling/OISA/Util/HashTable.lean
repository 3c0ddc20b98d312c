import Mathlib.Tactic

/-!
# String hash table

Model of `lib/util/hash-table.c`. Keys are byte strings without the final zero, a collision list
is the list of its elements, and a null pointer to data is `none`.
-/

namespace OISA.Util

abbrev Key := List UInt8

def HASH_TABLE_MIN_INITIAL_SIZE : ℕ := 5

def tolower (c : UInt8) : UInt8 := if 65 ≤ c ∧ c ≤ 90 then c + 32 else c

structure hash_table_elem_t (α : Type) where
  key : Key
  data : α
  deriving DecidableEq, Repr

structure hash_table_t (α : Type) where
  count : ℕ := 0
  size : ℕ
  case_sensitive : Bool
  find_op : Bool := false
  find_index : ℕ := 0
  find_elem : Option ℕ := none
  elem_vector : ℕ → List (hash_table_elem_t α) := fun _ => []

variable {α : Type}

def str_equal (case_sensitive : Bool) (a b : Key) : Bool :=
  if case_sensitive then a = b else a.map tolower = b.map tolower

def hash_table_get_index (table : hash_table_t α) (key : Key) : ℕ :=
  let hash := key.foldl (fun (hash : UInt32) c =>
    let c := if table.case_sensitive then c else tolower c
    (hash ^^^ c.toUInt32) * 16777619) 5381
  hash.toNat % table.size

def hash_table_link (table : hash_table_t α) (elem : hash_table_elem_t α) : hash_table_t α :=
  let index := hash_table_get_index table elem.key
  { table with
    elem_vector := Function.update table.elem_vector index (elem :: table.elem_vector index) }

def hash_table_double (table : hash_table_t α) : hash_table_t α :=
  { table with
    size := table.size * 2
    elem_vector := fun _ => [] }

def hash_table_grow (table : hash_table_t α) : Option (hash_table_t α) :=
  if 2 ^ 31 ≤ table.size * 2 then none
  else
    some ((List.range table.size).foldl
      (fun new i => (table.elem_vector i).foldl hash_table_link new) (hash_table_double table))

def hash_table_find (table : hash_table_t α) (key : Key) : Option (hash_table_elem_t α) :=
  (table.elem_vector (hash_table_get_index table key)).find?
    fun elem => str_equal table.case_sensitive key elem.key

def hash_table_create (α : Type) (size : ℕ) (case_sensitive : Bool) : hash_table_t α :=
  { size := if size < HASH_TABLE_MIN_INITIAL_SIZE then HASH_TABLE_MIN_INITIAL_SIZE else size
    case_sensitive := case_sensitive }

def hash_table_clear (table : hash_table_t α) : hash_table_t α :=
  { table with
    find_op := false
    elem_vector := fun i => if i < table.size then [] else table.elem_vector i
    count := 0 }

def hash_table_add (table : hash_table_t α) (key : Key) (data : α) :
    Option (hash_table_t α × Bool) :=
  if (hash_table_find table key).isSome then some (table, false)
  else
    let table := hash_table_link table ⟨key, data⟩
    let table := { table with count := table.count + 1 }
    if table.count < table.size then some (table, true) else none

def hash_table_insert (table : hash_table_t α) (key : Key) (data : Option α) :
    Option (hash_table_t α × Bool) :=
  let table := { table with find_op := false }
  match data with
  | none => some (table, false)
  | some data =>
    if table.size / 2 ≤ table.count then
      (hash_table_grow table).bind fun table => hash_table_add table key data
    else hash_table_add table key data

def setData (p : hash_table_elem_t α → Bool) (data : α) :
    List (hash_table_elem_t α) → List (hash_table_elem_t α)
  | [] => []
  | elem :: elems =>
    if p elem then { elem with data := data } :: elems else elem :: setData p data elems

def hash_table_set (table : hash_table_t α) (key : Key) (data : Option α) :
    hash_table_t α × Bool :=
  match data with
  | none => (table, false)
  | some data =>
    if (hash_table_find table key).isNone then (table, false)
    else
      let index := hash_table_get_index table key
      ({ table with
        elem_vector := Function.update table.elem_vector index
          (setData (fun elem => str_equal table.case_sensitive key elem.key) data
            (table.elem_vector index)) }, true)

def hash_table_count (table : hash_table_t α) : ℕ := table.count

def hash_table_get (table : hash_table_t α) (key : Key) : Option α :=
  (hash_table_find table key).map (·.data)

def hash_table_remove (table : hash_table_t α) (key : Key) : Option (hash_table_t α × Option α) :=
  let table := { table with find_op := false }
  let index := hash_table_get_index table key
  let equal := fun elem : hash_table_elem_t α => str_equal table.case_sensitive elem.key key
  match (table.elem_vector index).find? equal with
  | none => some (table, none)
  | some elem =>
    if 0 < table.count then
      some ({ table with
        elem_vector := Function.update table.elem_vector index
          ((table.elem_vector index).eraseP equal)
        count := table.count - 1 }, some elem.data)
    else none

def nextList (table : hash_table_t α) (index : ℕ) : Option (ℕ × hash_table_elem_t α) :=
  (List.range' index (table.size - index)).findSome? fun i =>
    (table.elem_vector i).head?.map fun elem => (i, elem)

/-- `hash_table_find_first`, with the element whose key and data it gives -/
def hash_table_find_first (table : hash_table_t α) :
    Option (hash_table_t α × Option (hash_table_elem_t α)) :=
  let table := { table with
    find_op := true
    find_index := 0
    find_elem := none }
  if table.count = 0 then some (table, none)
  else
    match nextList table 0 with
    | some (index, elem) => some ({ table with
        find_index := index
        find_elem := some 0 }, some elem)
    | none => none

/-- `hash_table_find_next`, with the element whose key and data it gives -/
def hash_table_find_next (table : hash_table_t α) :
    Option (hash_table_t α × Option (hash_table_elem_t α)) :=
  if table.find_op then
    match table.find_elem with
    | none => some (table, none)
    | some pos =>
      match (table.elem_vector table.find_index)[pos + 1]? with
      | some elem => some ({ table with find_elem := some (pos + 1) }, some elem)
      | none =>
        match nextList table (table.find_index + 1) with
        | some (index, elem) => some ({ table with
            find_index := index
            find_elem := some 0 }, some elem)
        | none => some ({ table with
            find_index := 0
            find_elem := none }, none)
  else none

def forEachNext : ℕ → hash_table_t α → Option (List (hash_table_elem_t α))
  | 0, _ => none
  | steps + 1, table => do
    let (table, found) ← hash_table_find_next table
    match found with
    | none => some []
    | some elem => (forEachNext steps table).map (elem :: ·)

/-- The elements that `HASH_TABLE_FOR_EACH` visits within some steps -/
def forEach (steps : ℕ) (table : hash_table_t α) : Option (List (hash_table_elem_t α)) := do
  let (table, found) ← hash_table_find_first table
  match found with
  | none => some []
  | some elem => (forEachNext steps table).map (elem :: ·)

namespace hash_table_t

inductive Op (α : Type)
  | insert (key : Key) (data : Option α)
  | set (key : Key) (data : Option α)
  | get (key : Key)
  | remove (key : Key)
  | clear
  | findFirst
  | findNext

inductive Result (α : Type)
  | flag (success : Bool)
  | data (data : Option α)

/-- A table and what the calls on it returned, the last one first -/
structure Log (α : Type) where
  table : hash_table_t α
  results : List (Result α) := []

def perform : Op α → Log α → Option (Log α)
  | .insert key data, s => (hash_table_insert s.table key data).map fun (table, success) =>
    ⟨table, .flag success :: s.results⟩
  | .set key data, s =>
    let (table, success) := hash_table_set s.table key data
    some ⟨table, .flag success :: s.results⟩
  | .get key, s => some ⟨s.table, .data (hash_table_get s.table key) :: s.results⟩
  | .remove key, s => (hash_table_remove s.table key).map fun (table, data) =>
    ⟨table, .data data :: s.results⟩
  | .clear, s => some { s with table := hash_table_clear s.table }
  | .findFirst, s => (hash_table_find_first s.table).map fun (table, _) => { s with table := table }
  | .findNext, s => (hash_table_find_next s.table).map fun (table, _) => { s with table := table }

end hash_table_t

end OISA.Util
