import OISA.Lib.Circular

/-!
# Byte buffers

Model of `lib/util/buffer.c`: a circular array of bytes that grows when a write does not fit. An
`int` sum that overflows and a `memcpy` outside of an array are `none`.
-/

namespace OISA.Util

open OISA.Lib

/-- The value of an `int` expression that is not negative. -/
def int (n : ℕ) : Option ℕ := if n < 2 ^ 31 then some n else none

lemma int_eq_some {n m : ℕ} (h : int n = some m) : m = n := by
  unfold int at h
  split_ifs at h
  exact (Option.some.inj h).symm

def copyFrom (data : List UInt8) (offset size : ℕ) : Option (List UInt8) :=
  if offset + size ≤ data.length then some ((data.drop offset).take size) else none

def copyTo (data : List UInt8) (offset : ℕ) (bytes : List UInt8) : Option (List UInt8) :=
  if offset + bytes.length ≤ data.length then some (overwrite data offset bytes) else none

structure buffer_t where
  data : List UInt8
  count : ℕ := 0
  size : ℕ
  head : ℕ := 0
  tail : ℕ := 0
  deriving DecidableEq, Repr

def buffer_create (size : ℕ) : buffer_t where
  data := List.replicate size 0
  size := size

def grow (buffer : buffer_t) (size : ℕ) : Option (Bool × buffer_t) :=
  if size < buffer.size then some (false, buffer)
  else do
    let data := List.replicate size (0 : UInt8)
    let right ← copyFrom buffer.data buffer.head (buffer.size - buffer.head)
    let data ← copyTo data 0 right
    let left ← copyFrom buffer.data 0 buffer.head
    let data ← copyTo data (buffer.size - buffer.head) left
    return (true, { buffer with data, size, head := 0, tail := buffer.count })

/-- The bytes read, as many as are returned. -/
def buffer_read (buffer : buffer_t) (size : ℕ) : Option (List UInt8 × buffer_t) := do
  let size := min size buffer.count
  let right := min (buffer.size - buffer.head) size
  let left := size - right
  let dest ← copyFrom buffer.data buffer.head right
  let dest' ← copyFrom buffer.data 0 left
  let next ← int (buffer.head + size)
  return (dest ++ dest', { buffer with
    head := next % buffer.size
    count := buffer.count - size })

lemma grow_fields {buffer buffer' : buffer_t} {size : ℕ}
    (h : grow buffer size = some (true, buffer')) :
    buffer'.count = buffer.count ∧ buffer'.size = size := by
  unfold grow at h
  by_cases hsmall : size < buffer.size
  · rw [if_pos hsmall] at h
    cases h
  · rw [if_neg hsmall] at h
    simp only [Option.bind_eq_bind, Option.bind_eq_some_iff, Option.pure_def, Option.some.injEq,
      Prod.mk.injEq, true_and] at h
    obtain ⟨right, -, data, -, left, -, data', -, rfl⟩ := h
    exact ⟨rfl, rfl⟩

/-- The loop of `buffer_write`: false when the buffer cannot grow. -/
def growToFit (buffer : buffer_t) (size : ℕ) : Option (Bool × buffer_t) :=
  match _hneeded : int (buffer.count + size) with
  | none => none
  | some needed =>
    if needed ≤ buffer.size then some (true, buffer)
    else
      match int (buffer.size * 2) with
      | none => none
      | some double =>
        match _hgrow : grow buffer (max needed double) with
        | some (true, buffer') => growToFit buffer' size
        | stopped => stopped
termination_by buffer.count + size - buffer.size
decreasing_by
  obtain ⟨hcount, hsize⟩ := grow_fields _hgrow
  rw [int_eq_some _hneeded] at *
  omega

def buffer_write (buffer : buffer_t) (bytes : List UInt8) : Option (ℕ × buffer_t) := do
  let size := bytes.length
  let (grown, buffer) ← growToFit buffer size
  if !grown then return (0, buffer)
  let right := min (buffer.size - buffer.tail) size
  let data ← copyTo buffer.data buffer.tail (bytes.take right)
  let data ← copyTo data 0 (bytes.drop right)
  let next ← int (buffer.tail + size)
  let count ← int (buffer.count + size)
  return (size, { buffer with
    data := data
    tail := next % buffer.size
    count := count })

def buffer_count (buffer : buffer_t) : ℕ := buffer.count

end OISA.Util
