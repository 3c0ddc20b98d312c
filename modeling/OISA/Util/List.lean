import OISA.Lib.QuickSort

/-!
# List in a circular vector

Model of `lib/util/list.c`. Elements are pointers, null as 0, and the vector is a function of the
index with `size` elements allocated. An overflow of the size is `none`.
-/

namespace OISA.Util

open OISA.Lib

inductive list_err_t
  | LIST_ERR_OK
  | LIST_ERR_BOUNDS
  | LIST_ERR_NOT_FOUND
  | LIST_ERR_EMPTY
  deriving DecidableEq, Repr

structure list_t where
  count : ℕ := 0
  error_code : list_err_t := .LIST_ERR_OK
  size : ℕ
  head : ℕ := 0
  tail : ℕ := 0
  elem : ℕ → ℕ := fun _ => 0

def inListBefore (list : list_t) (pos : ℕ) : ℕ := (pos + list.size - 1) % list.size

def ELEM (list : list_t) (x : ℕ) : ℕ := list.elem ((x + list.head) % list.size)

def growLoop (list : list_t) : ℕ → ℕ → ℕ → (ℕ → ℕ) → ℕ → ℕ
  | 0, _, _, nelem => nelem
  | steps + 1, i, index, nelem =>
    growLoop list steps ((i + 1) % list.size) (index + 1)
      (Function.update nelem index (list.elem i))

def list_grow (list : list_t) : Option list_t :=
  let nsize := list.size * 2
  if 2 ^ 31 ≤ nsize then none
  else
    some { list with
      elem := growLoop list list.count list.head 0 fun _ => 0
      size := nsize
      head := 0
      tail := list.count }

def list_create_with_size (size : ℕ) : list_t := { size := if size < 4 then 4 else size }

def list_count (list : list_t) : ℕ := list.count

def growIfFull (list : list_t) : Option list_t :=
  if list.count = list.size then list_grow list else some list

def list_add (list : list_t) (elem : ℕ) : Option list_t :=
  (growIfFull list).map fun list =>
    { list with
      elem := Function.update list.elem list.tail elem
      tail := (list.tail + 1) % list.size
      count := list.count + 1
      error_code := .LIST_ERR_OK }

/-- `list_get`, with the element it returns -/
def list_get (list : list_t) (index : ℤ) : list_t × ℕ :=
  if index < 0 ∨ list.count ≤ index then ({ list with error_code := .LIST_ERR_BOUNDS }, 0)
  else
    let index := (index.toNat + list.head) % list.size
    ({ list with error_code := .LIST_ERR_OK }, list.elem index)

def list_set (list : list_t) (index : ℤ) (elem : ℕ) : list_t :=
  if index < 0 ∨ list.count ≤ index then { list with error_code := .LIST_ERR_BOUNDS }
  else
    let index := (index.toNat + list.head) % list.size
    { list with
      elem := Function.update list.elem index elem
      error_code := .LIST_ERR_OK }

/-- A loop that moves elements to `pos` from the position after or before it, as `next` says, and
the position where it ends -/
def shiftLoop (next : ℕ → ℕ) : ℕ → ℕ → (ℕ → ℕ) → ℕ × (ℕ → ℕ)
  | 0, pos, elem => (pos, elem)
  | steps + 1, pos, elem =>
    shiftLoop next steps (next pos) (Function.update elem pos (elem (next pos)))

def shiftLeftLoop (list : list_t) : ℕ → ℕ → (ℕ → ℕ) → ℕ → ℕ
  | 0, _, elem => elem
  | steps + 1, pos, elem =>
    shiftLeftLoop list steps ((pos + 1) % list.size)
      (Function.update elem (inListBefore list pos) (elem pos))

/-- The part of `list_insert` that makes room at an index -/
def makeRoom (list : list_t) (index : ℕ) : list_t :=
  if list.count / 2 < index then
    let shiftcount := list.count - index
    { list with
      elem := (shiftLoop (inListBefore list) shiftcount list.tail list.elem).2
      tail := (list.tail + 1) % list.size }
  else
    { list with
      elem := shiftLeftLoop list index list.head list.elem
      head := inListBefore list list.head }

def list_insert (list : list_t) (index : ℤ) (elem : ℕ) : Option list_t :=
  if index < 0 ∨ list.count < index then some { list with error_code := .LIST_ERR_BOUNDS }
  else
    (growIfFull list).map fun list =>
      let list := makeRoom list index.toNat
      { list with
        elem := Function.update list.elem ((list.head + index.toNat) % list.size) elem
        count := list.count + 1
        error_code := .LIST_ERR_OK }

def indexLoop (list : list_t) (elem : ℕ) : ℕ → ℕ → ℕ → Option ℕ
  | 0, _, _ => none
  | steps + 1, i, pos =>
    if list.elem pos = elem then some i
    else indexLoop list elem steps (i + 1) ((pos + 1) % list.size)

/-- `list_index_of`, with the index it returns -/
def list_index_of (list : list_t) (elem : ℕ) : list_t × ℤ :=
  match indexLoop list elem list.count 0 list.head with
  | some i => ({ list with error_code := .LIST_ERR_OK }, i)
  | none => ({ list with error_code := .LIST_ERR_NOT_FOUND }, -1)

/-- The part of `list_remove_at` that takes an index out -/
def takeOut (list : list_t) (index : ℕ) : list_t :=
  let pos := (list.head + index) % list.size
  if list.count / 2 < index then
    let shiftcount := list.count - index - 1
    let (pos, elem) := shiftLoop (fun pos => (pos + 1) % list.size) shiftcount pos list.elem
    { list with
      elem := Function.update elem pos 0
      tail := inListBefore list list.tail }
  else
    let (_, elem) := shiftLoop (inListBefore list) index pos list.elem
    { list with
      elem := Function.update elem list.head 0
      head := (list.head + 1) % list.size }

def list_remove_at (list : list_t) (index : ℤ) : list_t × ℕ :=
  if index < 0 ∨ list.count ≤ index then ({ list with error_code := .LIST_ERR_BOUNDS }, 0)
  else
    let elem := list.elem ((list.head + index.toNat) % list.size)
    let list := takeOut list index.toNat
    ({ list with
      count := list.count - 1
      error_code := .LIST_ERR_OK }, elem)

def list_remove (list : list_t) (elem : ℕ) : list_t × ℕ :=
  let (list, index) := list_index_of list elem
  if list.error_code ≠ .LIST_ERR_OK then (list, 0) else list_remove_at list index

def list_clear (list : list_t) : list_t :=
  { list with
    count := 0
    head := 0
    tail := 0
    error_code := .LIST_ERR_OK }

def swapElem (list : list_t) (i j : ℕ) : list_t :=
  { list with
    elem := swapAt list.elem ((i + list.head) % list.size) ((j + list.head) % list.size) }

def list_sort (list : list_t) (comp : ℕ → ℕ → ℤ) : Option list_t :=
  if list.count = 0 then some list
  else
    quickSort ELEM swapElem comp (fun _ hi => hi) list.count list.count list 0 (list.count - 1)

def list_push (list : list_t) (elem : ℕ) : Option list_t := list_add list elem

def list_pop (list : list_t) : list_t × ℕ :=
  if list.count = 0 then ({ list with error_code := .LIST_ERR_EMPTY }, 0)
  else list_remove_at list (list.count - 1)

def list_top (list : list_t) : list_t × ℕ :=
  if list.count = 0 then ({ list with error_code := .LIST_ERR_EMPTY }, 0)
  else list_get list (list.count - 1)

def list_bottom (list : list_t) : list_t × ℕ :=
  if list.count = 0 then ({ list with error_code := .LIST_ERR_EMPTY }, 0)
  else list_get list 0

def list_enqueue (list : list_t) (elem : ℕ) : Option list_t := list_add list elem

def list_dequeue (list : list_t) : list_t × ℕ :=
  if list.count = 0 then ({ list with error_code := .LIST_ERR_EMPTY }, 0)
  else list_remove_at list 0

def list_head (list : list_t) : list_t × ℕ := list_bottom list

def list_tail (list : list_t) : list_t × ℕ := list_top list

namespace list_t

inductive Op
  | add (elem : ℕ)
  | get (index : ℤ)
  | set (index : ℤ) (elem : ℕ)
  | insert (index : ℤ) (elem : ℕ)
  | indexOf (elem : ℕ)
  | removeAt (index : ℤ)
  | remove (elem : ℕ)
  | clear
  | sort (comp : ℕ → ℕ → ℤ)
  | push (elem : ℕ)
  | pop
  | top
  | bottom
  | enqueue (elem : ℕ)
  | dequeue
  | head
  | tail

/-- A list and what the calls on it returned, the last one first. Calls that return nothing
count as 0. -/
structure Log where
  list : list_t
  results : List ℤ := []

def Log.next (s : Log) (call : list_t × ℤ) : Log := ⟨call.1, call.2 :: s.results⟩

def element (call : list_t × ℕ) : list_t × ℤ := (call.1, call.2)

def perform : Op → Log → Option Log
  | .add elem, s => (list_add s.list elem).map fun list => s.next (list, 0)
  | .get index, s => some (s.next (element (list_get s.list index)))
  | .set index elem, s => some (s.next (list_set s.list index elem, 0))
  | .insert index elem, s => (list_insert s.list index elem).map fun list => s.next (list, 0)
  | .indexOf elem, s => some (s.next (list_index_of s.list elem))
  | .removeAt index, s => some (s.next (element (list_remove_at s.list index)))
  | .remove elem, s => some (s.next (element (list_remove s.list elem)))
  | .clear, s => some (s.next (list_clear s.list, 0))
  | .sort comp, s => (list_sort s.list comp).map fun list => s.next (list, 0)
  | .push elem, s => (list_push s.list elem).map fun list => s.next (list, 0)
  | .pop, s => some (s.next (element (list_pop s.list)))
  | .top, s => some (s.next (element (list_top s.list)))
  | .bottom, s => some (s.next (element (list_bottom s.list)))
  | .enqueue elem, s => (list_enqueue s.list elem).map fun list => s.next (list, 0)
  | .dequeue, s => some (s.next (element (list_dequeue s.list)))
  | .head, s => some (s.next (element (list_head s.list)))
  | .tail, s => some (s.next (element (list_tail s.list)))

end list_t

end OISA.Util
