import OISA.Lib.Heaps

/-!
# Priority heap

Model of `lib/util/heap.c`. The array of elements is a function of the index; `size` elements are
allocated.
-/

namespace OISA.Util

open OISA.Lib

inductive heap_time_policy_enum
  | heap_time_policy_fifo
  | heap_time_policy_lifo
  deriving DecidableEq, Repr

structure heap_elem_t where
  time : ℕ := 0
  value : ℤ := 0
  data : ℕ := 0
  deriving DecidableEq, Repr

def HEAP_EEMPTY : ℕ := 1
def HEAP_EELEM : ℕ := 2

structure heap_t where
  count : ℕ := 0
  size : ℕ
  current : ℕ := 0
  error : ℕ := 0
  time : ℕ := 0
  time_policy : heap_time_policy_enum := .heap_time_policy_fifo
  elem : ℕ → heap_elem_t := fun _ => {}

def PARENT (x : ℕ) : ℕ := (x - 1) / 2
def LEFT (x : ℕ) : ℕ := x * 2 + 1
def RIGHT (x : ℕ) : ℕ := x * 2 + 2

def heap_less_than (heap : heap_t) (x y : ℕ) : Bool :=
  if (heap.elem x).value ≠ (heap.elem y).value then (heap.elem x).value < (heap.elem y).value
  else if heap.time_policy = .heap_time_policy_fifo then (heap.elem x).time < (heap.elem y).time
  else (heap.elem y).time < (heap.elem x).time

def heap_grow (heap : heap_t) : Option heap_t :=
  let nsize := heap.size * 2
  if 2 ^ 31 ≤ nsize then none else some { heap with size := nsize }

/-- The loop of `heapify`, for some steps -/
def heapify : ℕ → heap_t → ℕ → heap_t
  | 0, heap, _ => heap
  | steps + 1, heap, i =>
    let l := LEFT i
    let r := RIGHT i
    let k := if l < heap.count && heap_less_than heap l i then l else i
    let k := if r < heap.count && heap_less_than heap r k then r else k
    if k = i then heap
    else heapify steps { heap with elem := swapAt heap.elem i k } k

def heap_create (size : ℕ) : heap_t := { size := if size < 10 then 10 else size }

def siftUp : ℕ → heap_t → ℕ → heap_t
  | 0, heap, _ => heap
  | steps + 1, heap, i =>
    if 0 < i && heap_less_than heap i (PARENT i) then
      siftUp steps { heap with elem := swapAt heap.elem i (PARENT i) } (PARENT i)
    else heap

/-- The part of `heap_insert` after the check of the size -/
def insertElem (heap : heap_t) (value : ℤ) (data : ℕ) : Option heap_t :=
  if 2 ^ 63 ≤ heap.time + 1 then none
  else
    let i := heap.count
    let heap := { heap with
      elem := Function.update heap.elem i ⟨heap.time, value, data⟩
      time := heap.time + 1 }
    let heap := siftUp i heap i
    some { heap with
      count := heap.count + 1
      error := 0 }

def heap_insert (heap : heap_t) (value : ℤ) (data : ℕ) : Option heap_t :=
  if heap.count = heap.size then (heap_grow heap).bind (insertElem · value data)
  else insertElem heap value data

def heap_peek (heap : heap_t) : heap_t × ℤ × ℕ :=
  if heap.count = 0 then ({ heap with error := HEAP_EEMPTY }, 0, 0)
  else ({ heap with error := 0 }, (heap.elem 0).value, (heap.elem 0).data)

def heap_extract (heap : heap_t) : heap_t × ℤ × ℕ :=
  let (heap, value, data) := heap_peek heap
  if heap.error ≠ 0 then (heap, 0, data)
  else
    let heap := { heap with count := heap.count - 1 }
    let heap := { heap with elem := Function.update heap.elem 0 (heap.elem heap.count) }
    (heapify heap.count heap 0, value, data)

def heap_time_policy (heap : heap_t) (policy : heap_time_policy_enum) : heap_t :=
  { heap with
    time_policy := policy
    error := 0 }

namespace heap_t

inductive Op
  | insert (value : ℤ) (data : ℕ)
  | extract
  deriving DecidableEq, Repr

/-- A heap and what its `heap_extract` calls gave, the last one first: nothing from an empty heap -/
structure Log where
  heap : heap_t
  extracted : List (Option (ℤ × ℕ)) := []

def perform : Op → Log → Option Log
  | .insert value data, s => (heap_insert s.heap value data).map fun heap => { s with heap := heap }
  | .extract, s =>
    let (heap, result) := heap_extract s.heap
    some ⟨heap, (if heap.error ≠ 0 then none else some result) :: s.extracted⟩

end heap_t

end OISA.Util
