import Mathlib.Tactic

/-!
# Bit maps

Model of `lib/util/bit-map.c`: a bit map keeps its bits in words of 32, and a field of up to 32
bits is written and read through the word it starts in and the next one.
-/

namespace OISA.Util

/-- `struct bit_map_t`, with `word_count` the length of the data. -/
structure BitMap where
  size : ℕ
  data : List (BitVec 32)
  size_lt : size < 2 ^ 32
  /-- the number of words that `bit_map_create` computes -/
  word_count_eq : data.length = (size + 31) % 2 ^ 32 / 32

namespace BitMap

def bit_map_create (size : ℕ) (h : size < 2 ^ 32) : BitMap where
  size := size
  data := List.replicate ((size + 31) % 2 ^ 32 / 32) 0#32
  size_lt := h
  word_count_eq := List.length_replicate

def word_count (map : BitMap) : ℕ := map.data.length

def word (map : BitMap) (i : ℕ) : BitVec 32 := map.data.getD i 0#32

def store (map : BitMap) (i : ℕ) (x : BitVec 32) : BitMap :=
  { map with
    data := map.data.set i x
    word_count_eq := by rw [List.length_set, map.word_count_eq] }

def bit_map_set (map : BitMap) (where_ size : ℕ) (value : BitVec 32) : Option BitMap :=
  if 32 < size then none
  else
    -- bits to get from the first word
    let where_word1 := where_ / 32
    let where_offset1 := where_ % 32
    let size_align1 := min size (32 - where_offset1)
    if map.word_count ≤ where_word1 then some map
    else if size = 32 ∧ where_offset1 = 0 then some (map.store where_word1 value)
    else
      let word1_mask := ((1#32 <<< size_align1) - 1#32) <<< where_offset1
      let word1_value := (value <<< where_offset1) &&& word1_mask
      let map := map.store where_word1 (map.word where_word1 &&& ~~~word1_mask ||| word1_value)
      if size_align1 = size then some map
      else
        -- bits to get from the second word
        let where_word2 := where_word1 + 1
        let size_align2 := size - size_align1
        if map.word_count ≤ where_word2 then some map
        else
          let word2_mask := (1#32 <<< size_align2) - 1#32
          let word2_value := (value >>> size_align1) &&& word2_mask
          some (map.store where_word2 (map.word where_word2 &&& ~~~word2_mask ||| word2_value))

def bit_map_get (map : BitMap) (where_ size : ℕ) : Option (BitVec 32) :=
  if 32 < size then none
  else
    let where_word1 := where_ / 32
    let where_offset1 := where_ % 32
    let size_align1 := min size (32 - where_offset1)
    let word1 := if where_word1 < map.word_count then map.word where_word1 else 0#32
    if size = 32 ∧ where_offset1 = 0 then some word1
    else
      let word1_mask := ((1#32 <<< size_align1) - 1#32) <<< where_offset1
      let result := (word1 &&& word1_mask) >>> where_offset1
      if size_align1 = size then some result
      else
        let size_align2 := size - size_align1
        let word2_mask := (1#32 <<< size_align2) - 1#32
        -- the second part is read from the first word again
        some (result ||| (word1 &&& word2_mask) <<< size_align1)

def countOnes (map : BitMap) (where_ : ℕ) : ℕ → ℕ → ℕ → Option ℕ
  | 0, _, count => some count
  | n + 1, i, count => do
    let bit ← map.bit_map_get ((where_ + i) % 2 ^ 32) 1
    countOnes map where_ n (i + 1) (count + bit.toNat)

def bit_map_count_ones (map : BitMap) (where_ size : ℕ) : Option ℕ :=
  map.countOnes where_ size 0 0

def bit_map_copy (dst : BitMap) (dst_where : ℕ) (src : BitMap) (src_where size : ℕ) :
    Option BitMap :=
  if size = 0 then some dst
  else do
    let current_size := min size 32
    let word ← src.bit_map_get src_where current_size
    let dst ← dst.bit_map_set dst_where current_size word
    bit_map_copy dst ((dst_where + current_size) % 2 ^ 32) src
      ((src_where + current_size) % 2 ^ 32) (size - current_size)
termination_by size

end BitMap

end OISA.Util
