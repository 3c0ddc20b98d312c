import OISA.Lib.QuickSort

/-!
# Linked list with a current element

Model of `lib/util/linked-list.c`. Elements are kept under their addresses, and every new element
has an address that was not used before.
-/

namespace OISA.Util

open OISA.Lib

inductive linked_list_error_t
  | LINKED_LIST_ERR_OK
  | LINKED_LIST_ERR_BOUNDS
  | LINKED_LIST_ERR_EMPTY
  | LINKED_LIST_ERR_NOT_FOUND
  deriving DecidableEq, Repr

structure linked_list_elem_t where
  prev : Option ℕ := none
  next : Option ℕ := none
  data : ℕ := 0
  deriving DecidableEq, Repr

structure linked_list_t where
  count : ℕ := 0
  error_code : linked_list_error_t := .LINKED_LIST_ERR_OK
  head : Option ℕ := none
  tail : Option ℕ := none
  current : Option ℕ := none
  current_index : ℕ := 0
  version : ℕ := 0
  elems : ℕ → linked_list_elem_t := fun _ => {}
  allocated : ℕ := 0

namespace linked_list_t

def setPrev (list : linked_list_t) (elem : ℕ) (prev : Option ℕ) : linked_list_t :=
  { list with elems := Function.update list.elems elem { list.elems elem with prev := prev } }

def setNext (list : linked_list_t) (elem : ℕ) (next : Option ℕ) : linked_list_t :=
  { list with elems := Function.update list.elems elem { list.elems elem with next := next } }

def error (list : linked_list_t) (error_code : linked_list_error_t) : linked_list_t :=
  { list with error_code := error_code }

end linked_list_t

open linked_list_t

/-- `list->current_index++; list->current = list->current->next;` -/
def advance (list : linked_list_t) : Option linked_list_t := do
  let current ← list.current
  some { list with
    current_index := list.current_index + 1
    current := (list.elems current).next }

def retreat (list : linked_list_t) : linked_list_t :=
  { list with
    current_index := list.current_index - 1
    current := match list.current with
      | some current => (list.elems current).prev
      | none => list.tail }

def linked_list_current (list : linked_list_t) : linked_list_t × ℕ :=
  (list.error .LINKED_LIST_ERR_OK, list.current_index)

def linked_list_get (list : linked_list_t) : Option (linked_list_t × ℕ) :=
  if list.current_index = list.count then some (list.error .LINKED_LIST_ERR_BOUNDS, 0)
  else list.current.map fun current =>
    (list.error .LINKED_LIST_ERR_OK, (list.elems current).data)

def linked_list_next (list : linked_list_t) : Option linked_list_t :=
  if list.current_index = list.count then some (list.error .LINKED_LIST_ERR_BOUNDS)
  else advance (list.error .LINKED_LIST_ERR_OK)

def linked_list_prev (list : linked_list_t) : linked_list_t :=
  if list.current_index = 0 then list.error .LINKED_LIST_ERR_BOUNDS
  else retreat (list.error .LINKED_LIST_ERR_OK)

def linked_list_next_circular (list : linked_list_t) : Option linked_list_t :=
  if list.count = 0 then some (list.error .LINKED_LIST_ERR_EMPTY)
  else if list.count - 1 ≤ list.current_index then
    some { list with
      current_index := 0
      current := list.head
      error_code := .LINKED_LIST_ERR_OK }
  else (advance list).map (·.error .LINKED_LIST_ERR_OK)

def linked_list_prev_circular (list : linked_list_t) : linked_list_t :=
  if list.count = 0 then list.error .LINKED_LIST_ERR_EMPTY
  else if list.current_index = 0 then
    { list with
      current_index := list.count - 1
      current := list.tail
      error_code := .LINKED_LIST_ERR_OK }
  else (retreat list).error .LINKED_LIST_ERR_OK

def linked_list_head (list : linked_list_t) : linked_list_t :=
  if list.count = 0 then list.error .LINKED_LIST_ERR_EMPTY
  else
    { list with
      error_code := .LINKED_LIST_ERR_OK
      current_index := 0
      current := list.head }

def linked_list_tail (list : linked_list_t) : linked_list_t :=
  if list.count = 0 then list.error .LINKED_LIST_ERR_EMPTY
  else
    { list with
      current_index := list.count - 1
      current := list.tail
      error_code := .LINKED_LIST_ERR_OK }

def linked_list_out (list : linked_list_t) : linked_list_t :=
  { list with
    error_code := .LINKED_LIST_ERR_OK
    current_index := list.count
    current := none }

def gotoUp (index : ℕ) : ℕ → linked_list_t → Option linked_list_t
  | 0, _ => none
  | steps + 1, list =>
    if list.current_index < index then (advance list).bind (gotoUp index steps) else some list

def gotoDown (index : ℕ) : ℕ → linked_list_t → Option linked_list_t
  | 0, _ => none
  | steps + 1, list =>
    if index < list.current_index then gotoDown index steps (retreat list) else some list

def currentData (list : linked_list_t) : ℕ :=
  match list.current with
  | some current => (list.elems current).data
  | none => 0

def linked_list_goto (list : linked_list_t) (index : ℤ) : Option (linked_list_t × ℕ) :=
  if index < 0 ∨ list.count < index then some (list.error .LINKED_LIST_ERR_BOUNDS, 0)
  else do
    let list := list.error .LINKED_LIST_ERR_OK
    let list ← gotoUp index.toNat (list.count + 1) list
    let list ← gotoDown index.toNat (list.count + 1) list
    some (list, currentData list)

def findLoop (data : ℕ) : ℕ → linked_list_t → Option linked_list_t
  | 0, _ => none
  | steps + 1, list =>
    match list.current with
    | none => some list
    | some current =>
      if (list.elems current).data ≠ data then (advance list).bind (findLoop data steps)
      else some list

def linked_list_find (list : linked_list_t) (data : ℕ) : Option (linked_list_t × ℕ) := do
  let list ← findLoop data (list.count + 1) { list with
    error_code := .LINKED_LIST_ERR_OK
    current_index := 0
    current := list.head }
  match list.current with
  | none => some (list.error .LINKED_LIST_ERR_NOT_FOUND, 0)
  | some _ => some (list, data)

def linked_list_count (list : linked_list_t) : linked_list_t × ℕ :=
  (list.error .LINKED_LIST_ERR_OK, list.count)

def linked_list_is_end (list : linked_list_t) : linked_list_t × ℕ :=
  (list.error .LINKED_LIST_ERR_OK, if list.current_index = list.count then 1 else 0)

/-- The part of `linked_list_insert` that links the new element -/
def insertLinks (list : linked_list_t) (elem : ℕ) : Option linked_list_t :=
  if list.count = 0 then
    some { list with
      current := some elem
      head := some elem
      tail := some elem }
  else if list.current = list.head then do
    let list := list.setNext elem list.head
    let head ← list.head
    let list := list.setPrev head (some elem)
    some { list with head := some elem }
  else
    match list.current with
    | none => do
      let list := list.setPrev elem list.tail
      let tail ← list.tail
      let list := list.setNext tail (some elem)
      some { list with tail := some elem }
    | some current => do
      let list := list.setPrev elem (list.elems current).prev
      let list := list.setNext elem (some current)
      let list := list.setPrev current (some elem)
      let prev ← (list.elems elem).prev
      some (list.setNext prev (some elem))

def linked_list_insert (list : linked_list_t) (data : ℕ) : Option linked_list_t := do
  let elem := list.allocated
  let list ← insertLinks { list with
    elems := Function.update list.elems elem { data := data }
    allocated := elem + 1 } elem
  some { list with
    error_code := .LINKED_LIST_ERR_OK
    count := list.count + 1
    current := some elem
    version := list.version + 1 }

def linked_list_add (list : linked_list_t) (data : ℕ) : Option linked_list_t := do
  let list ← linked_list_insert (linked_list_out list) data
  some (linked_list_out list)

/-- The part of `linked_list_remove` that takes the element out of the links -/
def removeLinks (list : linked_list_t) (elem : ℕ) : Option linked_list_t :=
  if list.count = 1 then
    some { list with
      tail := none
      head := none }
  else if some elem = list.head then do
    let next ← (list.elems elem).next
    let list := list.setPrev next none
    some { list with head := (list.elems elem).next }
  else if some elem = list.tail then do
    let prev ← (list.elems elem).prev
    let list := list.setNext prev none
    some { list with tail := (list.elems elem).prev }
  else do
    let prev ← (list.elems elem).prev
    let list := list.setNext prev (list.elems elem).next
    let next ← (list.elems elem).next
    some (list.setPrev next (list.elems elem).prev)

/-- `linked_list_remove`, with the data it returns -/
def linked_list_remove (list : linked_list_t) : Option (linked_list_t × ℕ) :=
  if list.current_index = list.count then some (list.error .LINKED_LIST_ERR_BOUNDS, 0)
  else do
    let elem ← list.current
    let data := (list.elems elem).data
    let list ← removeLinks list elem
    if 0 < list.count then
      some ({ list with
        error_code := .LINKED_LIST_ERR_OK
        count := list.count - 1
        current := (list.elems elem).next
        version := list.version + 1 }, data)
    else none

def linked_list_clear (list : linked_list_t) : linked_list_t :=
  { list with
    error_code := .LINKED_LIST_ERR_OK
    current_index := 0
    count := 0
    tail := none
    head := none
    current := none
    version := list.version + 1 }

def toArray (elems : ℕ → linked_list_elem_t) : ℕ → ℕ → Option ℕ → (ℕ → ℕ) → Option (ℕ → ℕ)
  | 0, _, _, array => some array
  | steps + 1, i, current, array => do
    let current ← current
    toArray elems steps (i + 1) (elems current).next (Function.update array i current)

def relink (count : ℕ) (array : ℕ → ℕ) (elems : ℕ → linked_list_elem_t) (i : ℕ) :
    ℕ → linked_list_elem_t :=
  Function.update elems (array i)
    { elems (array i) with
      prev := if 0 < i then some (array (i - 1)) else none
      next := if i < count - 1 then some (array (i + 1)) else none }

/-- `linked_list_sort`: the pivot is the middle of a range. -/
def linked_list_sort (list : linked_list_t) (comp : ℕ → ℕ → ℤ) : Option linked_list_t :=
  let list := list.error .LINKED_LIST_ERR_OK
  if list.count = 0 then some list
  else do
    let array ← toArray list.elems list.count 0 list.head fun _ => 0
    let array ← quickSort (fun array i => array i) swapAt
      (fun x y => comp (list.elems x).data (list.elems y).data) (fun lo hi => (lo + hi) / 2)
      list.count list.count array 0 (list.count - 1)
    some { list with
      head := some (array 0)
      tail := some (array (list.count - 1))
      elems := (List.range list.count).foldl (relink list.count array) list.elems
      current_index := 0
      current := some (array 0)
      version := list.version + 1 }

namespace linked_list_t

inductive Op
  | current
  | get
  | next
  | prev
  | nextCircular
  | prevCircular
  | head
  | tail
  | out
  | goto (index : ℤ)
  | find (data : ℕ)
  | count
  | isEnd
  | insert (data : ℕ)
  | add (data : ℕ)
  | remove
  | clear
  | sort (comp : ℕ → ℕ → ℤ)

/-- The list after a call, with what the call returns: 0 if it returns nothing -/
def perform (op : Op) (list : linked_list_t) : Option (linked_list_t × ℕ) :=
  match op with
  | .current => some (linked_list_current list)
  | .get => linked_list_get list
  | .next => (linked_list_next list).map (·, 0)
  | .prev => some (linked_list_prev list, 0)
  | .nextCircular => (linked_list_next_circular list).map (·, 0)
  | .prevCircular => some (linked_list_prev_circular list, 0)
  | .head => some (linked_list_head list, 0)
  | .tail => some (linked_list_tail list, 0)
  | .out => some (linked_list_out list, 0)
  | .goto index => linked_list_goto list index
  | .find data => linked_list_find list data
  | .count => some (linked_list_count list)
  | .isEnd => some (linked_list_is_end list)
  | .insert data => (linked_list_insert list data).map (·, 0)
  | .add data => (linked_list_add list data).map (·, 0)
  | .remove => linked_list_remove list
  | .clear => some (linked_list_clear list, 0)
  | .sort comp => (linked_list_sort list comp).map (·, 0)

/-- A list and what the calls on it returned, the last one first -/
structure Log where
  list : linked_list_t := {}
  results : List ℕ := []

def step (op : Op) (s : Log) : Option Log :=
  (perform op s.list).map fun (list, result) => ⟨list, result :: s.results⟩

end linked_list_t

end OISA.Util
