import OISA.Lib.Bits
import OISA.Util.BitMap

/-!
# Fields of bit maps

`bit_map_set` changes exactly the bits of its field.
-/

namespace OISA.Util.BitMap

open Lib.Bits

/-- The bit at a position; there are none beyond the words. -/
def bit (map : BitMap) (i : ℕ) : Bool := (map.word (i / 32)).getLsbD (i % 32)

variable {map : BitMap} {where_ size : ℕ} {value : BitVec 32}

lemma word_of_le {i : ℕ} (h : map.word_count ≤ i) : map.word i = 0#32 := by
  unfold word
  rw [List.getD_eq_getElem?_getD, List.getElem?_eq_none h, Option.getD_none]

lemma bit_of_le {i : ℕ} (h : map.word_count ≤ i / 32) : map.bit i = false := by
  rw [bit, word_of_le h, BitVec.getLsbD_zero]

@[simp] lemma word_count_store (i : ℕ) (x : BitVec 32) :
    (map.store i x).word_count = map.word_count := List.length_set

@[simp] lemma size_store (i : ℕ) (x : BitVec 32) : (map.store i x).size = map.size := rfl

lemma word_store {i : ℕ} (h : i < map.word_count) (x : BitVec 32) (k : ℕ) :
    (map.store i x).word k = if k = i then x else map.word k := by
  unfold word store
  dsimp only
  rw [List.getD_eq_getElem?_getD, List.getD_eq_getElem?_getD]
  by_cases hk : k = i
  · rw [if_pos hk, hk, List.getElem?_set_self h, Option.getD_some]
  · rw [if_neg hk, List.getElem?_set_ne (Ne.symm hk)]

lemma bit_store {i : ℕ} (h : i < map.word_count) (x : BitVec 32) (k : ℕ) :
    (map.store i x).bit k = if k / 32 = i then x.getLsbD (k % 32) else map.bit k := by
  rw [bit, word_store h]
  by_cases hk : k / 32 = i
  · rw [if_pos hk, if_pos hk]
  · rw [if_neg hk, if_neg hk, bit]

lemma bit_store_insert {i n o : ℕ} (h : i < map.word_count) (hn : n + o ≤ 32) (v : BitVec 32)
    (k : ℕ) :
    (map.store i (map.word i &&& ~~~(((1#32 <<< n) - 1#32) <<< o) |||
      ((v <<< o) &&& (((1#32 <<< n) - 1#32) <<< o)))).bit k =
      if 32 * i + o ≤ k ∧ k < 32 * i + o + n then v.getLsbD (k - (32 * i + o))
      else map.bit k := by
  rw [bit_store h]
  by_cases hk : k / 32 = i
  · rw [if_pos hk, getLsbD_insert _ _ hn (Nat.mod_lt _ (by norm_num))]
    by_cases hin : o ≤ k % 32 ∧ k % 32 < o + n
    · rw [if_pos hin, if_pos (by omega)]
      congr 1
      omega
    · rw [if_neg hin, if_neg (by omega), bit, hk]
  · rw [if_neg hk, if_neg (by omega)]

lemma bit_store_insert_low {i n : ℕ} (h : i < map.word_count) (hn : n ≤ 32) (v : BitVec 32)
    (k : ℕ) :
    (map.store i (map.word i &&& ~~~((1#32 <<< n) - 1#32) |||
      (v &&& ((1#32 <<< n) - 1#32)))).bit k =
      if 32 * i ≤ k ∧ k < 32 * i + n then v.getLsbD (k - 32 * i) else map.bit k := by
  have hinsert := bit_store_insert h (n := n) (o := 0) hn v k
  rwa [BitVec.shiftLeft_zero, BitVec.shiftLeft_zero, Nat.add_zero] at hinsert

/-- Exactly the bits of the field are written, where there are words. -/
theorem bit_map_set_spec (map : BitMap) (where_ : ℕ) {size : ℕ} (hsize : size ≤ 32)
    (value : BitVec 32) :
    ∃ map', map.bit_map_set where_ size value = some map' ∧ map'.size = map.size ∧
      map'.word_count = map.word_count ∧
      ∀ i, map'.bit i = if where_ ≤ i ∧ i < where_ + size ∧ i / 32 < map.word_count then
        value.getLsbD (i - where_) else map.bit i := by
  have hwhere := Nat.div_add_mod where_ 32
  have hmod := Nat.mod_lt where_ (by norm_num : 0 < 32)
  unfold bit_map_set
  rw [if_neg (not_lt.mpr hsize)]
  dsimp only
  by_cases hout : map.word_count ≤ where_ / 32
  · rw [if_pos hout]
    refine ⟨map, rfl, rfl, rfl, fun i => ?_⟩
    rw [if_neg (by omega)]
  rw [if_neg hout]
  rw [not_le] at hout
  by_cases haligned : size = 32 ∧ where_ % 32 = 0
  · rw [if_pos haligned]
    refine ⟨_, rfl, size_store _ _, word_count_store _ _, fun i => ?_⟩
    rw [bit_store hout]
    by_cases hi : i / 32 = where_ / 32
    · rw [if_pos hi, if_pos (by omega)]
      congr 1
      omega
    · rw [if_neg hi, if_neg (by omega)]
  rw [if_neg haligned]
  have hfirst := bit_store_insert hout (n := min size (32 - where_ % 32)) (o := where_ % 32)
    (by omega) value
  by_cases hone : min size (32 - where_ % 32) = size
  · -- the whole field lies in the first word
    rw [if_pos hone]
    refine ⟨_, rfl, size_store _ _, word_count_store _ _, fun i => ?_⟩
    rw [hfirst, hone, hwhere]
    by_cases hin : where_ ≤ i ∧ i < where_ + size
    · rw [if_pos hin, if_pos (by omega)]
    · rw [if_neg hin, if_neg (by omega)]
  rw [if_neg hone]
  have halign : min size (32 - where_ % 32) = 32 - where_ % 32 := by omega
  by_cases hlast : map.word_count ≤ where_ / 32 + 1
  · rw [if_pos (by rw [word_count_store]; exact hlast)]
    refine ⟨_, rfl, size_store _ _, word_count_store _ _, fun i => ?_⟩
    rw [hfirst, hwhere]
    by_cases hin : where_ ≤ i ∧ i < where_ + min size (32 - where_ % 32)
    · rw [if_pos hin, if_pos (by omega)]
    · rw [if_neg hin, if_neg (by omega)]
  · rw [if_neg (by rw [word_count_store]; exact hlast)]
    refine ⟨_, rfl, size_store _ _, (word_count_store _ _).trans (word_count_store _ _),
      fun i => ?_⟩
    rw [bit_store_insert_low ?word (by omega), hfirst, hwhere]
    case word =>
      rw [word_count_store]
      exact not_le.mp hlast
    by_cases hin : 32 * (where_ / 32 + 1) ≤ i ∧
        i < 32 * (where_ / 32 + 1) + (size - min size (32 - where_ % 32))
    · rw [if_pos hin, if_pos (by omega), BitVec.getLsbD_ushiftRight]
      congr 1
      omega
    · rw [if_neg hin]
      by_cases hin' : where_ ≤ i ∧ i < where_ + min size (32 - where_ % 32)
      · rw [if_pos hin', if_pos (by omega)]
      · rw [if_neg hin', if_neg (by omega)]

def readAt (where_ j : ℕ) : ℕ := if where_ % 32 + j < 32 then where_ + j else where_ + j - 32

lemma bit_of_div_eq (map : BitMap) {i w : ℕ} (h : i / 32 = w) :
    (map.word w).getLsbD (i - 32 * w) = map.bit i := by
  rw [bit, h]
  congr 1
  omega

/-- `bit_map_get` reads bit `j` of the field at `readAt where_ j`. -/
theorem bit_map_get_spec (map : BitMap) (where_ : ℕ) {size : ℕ} (hsize : size ≤ 32) :
    ∃ result, map.bit_map_get where_ size = some result ∧
      ∀ j < 32, result.getLsbD j = (decide (j < size) && map.bit (readAt where_ j)) := by
  have hwhere := Nat.div_add_mod where_ 32
  have hmod := Nat.mod_lt where_ (by norm_num : 0 < 32)
  have hword : (if where_ / 32 < map.word_count then map.word (where_ / 32) else 0#32) =
      map.word (where_ / 32) := by
    by_cases hin : where_ / 32 < map.word_count
    · rw [if_pos hin]
    · rw [if_neg hin, word_of_le (not_lt.mp hin)]
  -- the bits of the first word
  have hbit : ∀ o < 32, (map.word (where_ / 32)).getLsbD o = map.bit (32 * (where_ / 32) + o) := by
    intro o ho
    rw [← bit_of_div_eq map (i := 32 * (where_ / 32) + o) (w := where_ / 32) (by omega),
      Nat.add_sub_cancel_left]
  unfold bit_map_get
  rw [if_neg (not_lt.mpr hsize)]
  dsimp only
  rw [hword]
  by_cases haligned : size = 32 ∧ where_ % 32 = 0
  · rw [if_pos haligned]
    refine ⟨_, rfl, fun j hj => ?_⟩
    rw [decide_eq_true (by omega : j < size), Bool.true_and, hbit j hj, readAt, if_pos (by omega)]
    congr 1
    omega
  rw [if_neg haligned]
  have hfirst : ∀ j, ((map.word (where_ / 32) &&&
      ((1#32 <<< min size (32 - where_ % 32)) - 1#32) <<< (where_ % 32)) >>> (where_ % 32)).getLsbD j
      = (decide (j < min size (32 - where_ % 32)) && map.bit (where_ + j)) := by
    intro j
    rw [getLsbD_extract _ _ (by omega)]
    by_cases hj : j < min size (32 - where_ % 32)
    · rw [decide_eq_true hj, Bool.true_and, Bool.true_and, hbit _ (by omega)]
      congr 1
      omega
    · rw [decide_eq_false hj, Bool.false_and, Bool.false_and]
  by_cases hone : min size (32 - where_ % 32) = size
  · rw [if_pos hone]
    refine ⟨_, rfl, fun j hj => ?_⟩
    rw [hfirst, hone]
    by_cases hlt : j < size
    · rw [decide_eq_true hlt, readAt, if_pos (by omega)]
    · rw [decide_eq_false hlt, Bool.false_and, Bool.false_and]
  rw [if_neg hone]
  refine ⟨_, rfl, fun j hj => ?_⟩
  rw [BitVec.getLsbD_or, hfirst, BitVec.getLsbD_shiftLeft, BitVec.getLsbD_and, decide_eq_true hj,
    Bool.true_and]
  by_cases hlow : j < min size (32 - where_ % 32)
  · rw [decide_eq_true hlow, decide_eq_true (by omega : j < size), readAt, if_pos (by omega)]
    simp
  · rw [decide_eq_false hlow, Bool.false_and, Bool.false_or, Bool.not_false, Bool.true_and,
      getLsbD_mask (by omega) (by omega), hbit _ (by omega), Bool.and_comm, readAt,
      if_neg (by omega)]
    congr 1
    · exact decide_eq_decide.mpr (by omega)
    · congr 1
      omega

lemma bit_map_get_one (map : BitMap) (where_ : ℕ) :
    map.bit_map_get where_ 1 = some ((BitVec.ofBool (map.bit where_)).setWidth 32) := by
  obtain ⟨result, hget, hbits⟩ := bit_map_get_spec map where_ (by norm_num : 1 ≤ 32)
  rw [hget, Option.some.injEq]
  apply BitVec.eq_of_getLsbD_eq
  intro j hj
  rw [hbits j hj]
  rcases Nat.eq_zero_or_pos j with rfl | hpos
  · rw [readAt, if_pos (by omega), Nat.add_zero]
    simp
  · rw [decide_eq_false (by omega), Bool.false_and, BitVec.getLsbD_setWidth,
      BitVec.getLsbD_of_ge _ _ hpos, Bool.and_false]

lemma countOnes_eq (map : BitMap) (where_ : ℕ) (n : ℕ) {i : ℕ} (count : ℕ)
    (h : where_ + i + n ≤ 2 ^ 32) :
    map.countOnes where_ n i count =
      some (count + ((List.range' (where_ + i) n).countP fun k => map.bit k)) := by
  induction n generalizing i count with
  | zero => rfl
  | succ n ih =>
    rw [countOnes, Nat.mod_eq_of_lt (by omega), bit_map_get_one]
    change countOnes map where_ n (i + 1) _ = _
    rw [ih _ (by omega), List.range'_succ, List.countP_cons, ← add_assoc where_]
    cases map.bit (where_ + i) with
    | false => rfl
    | true => exact congrArg some (by simp; omega)

/-- The lowest bits of a value. -/
def lowBits (value : BitVec 32) (size : ℕ) : BitVec 32 := BitVec.ofNat 32 (value.toNat % 2 ^ size)

lemma getLsbD_lowBits (value : BitVec 32) (size : ℕ) {j : ℕ} (hj : j < 32) :
    (lowBits value size).getLsbD j = (decide (j < size) && value.getLsbD j) := by
  rw [lowBits, BitVec.getLsbD_ofNat, decide_eq_true hj, Bool.true_and, Nat.testBit_mod_two_pow]
  rfl

/-- The part of the value for the second word agrees with what the first word has 32 positions
before, and without a first word the value is zero. -/
def Survives (map : BitMap) (where_ size : ℕ) (value : BitVec 32) : Prop :=
  ∀ j < size, if where_ % 32 + j < 32 then where_ / 32 < map.word_count ∨ value.getLsbD j = false
    else value.getLsbD j = map.bit (where_ + j - 32)

theorem get_set_iff {map map' : BitMap} {where_ size : ℕ} {value : BitVec 32} (hsize : size ≤ 32)
    (hset : map.bit_map_set where_ size value = some map') :
    map'.bit_map_get where_ size = some (lowBits value size) ↔
      map.Survives where_ size value := by
  obtain ⟨written, hwritten, -, -, hbit⟩ := bit_map_set_spec map where_ hsize value
  obtain rfl : written = map' := Option.some.inj (hwritten.symm.trans hset)
  obtain ⟨result, hget, hread⟩ := bit_map_get_spec written where_ hsize
  -- bit `j` is read from the field or from 32 positions before, which is in front of the field
  have hfield : ∀ j < size, written.bit (readAt where_ j) =
      if where_ % 32 + j < 32 then
        (if where_ / 32 < map.word_count then value.getLsbD j else false)
      else map.bit (where_ + j - 32) := by
    intro j hj
    have hdiv := Nat.div_add_mod where_ 32
    rw [readAt, hbit]
    by_cases hfirst : where_ % 32 + j < 32
    · rw [if_pos hfirst, if_pos hfirst, Nat.add_sub_cancel_left]
      have hword : (where_ + j) / 32 = where_ / 32 := by omega
      rw [hword]
      by_cases hin : where_ / 32 < map.word_count
      · rw [if_pos (by omega), if_pos hin]
      · rw [if_neg (by omega), if_neg hin, bit_of_le (by omega)]
    · rw [if_neg hfirst, if_neg hfirst, if_neg (by omega)]
  rw [hget, Option.some.injEq]
  constructor
  · intro heq j hj
    have hj' : (lowBits value size).getLsbD j = written.bit (readAt where_ j) := by
      rw [← heq, hread j (by omega), decide_eq_true hj, Bool.true_and]
    rw [getLsbD_lowBits _ _ (by omega), decide_eq_true hj, Bool.true_and, hfield j hj] at hj'
    by_cases hfirst : where_ % 32 + j < 32
    · rw [if_pos hfirst] at hj' ⊢
      by_cases hin : where_ / 32 < map.word_count
      · exact .inl hin
      · rw [if_neg hin] at hj'
        exact .inr hj'
    · rw [if_neg hfirst] at hj' ⊢
      exact hj'
  · intro hsurvives
    apply BitVec.eq_of_getLsbD_eq
    intro j hj
    rw [hread j hj, getLsbD_lowBits _ _ hj]
    by_cases hlt : j < size
    · have hj' := hsurvives j hlt
      rw [decide_eq_true hlt, Bool.true_and, Bool.true_and, hfield j hlt]
      by_cases hfirst : where_ % 32 + j < 32
      · rw [if_pos hfirst] at hj' ⊢
        by_cases hin : where_ / 32 < map.word_count
        · rw [if_pos hin]
        · rw [if_neg hin, hj'.resolve_left hin]
      · rw [if_neg hfirst] at hj' ⊢
        exact hj'.symm
    · rw [decide_eq_false hlt, Bool.false_and, Bool.false_and]

def copyAt (src_where k : ℕ) : ℕ :=
  if src_where % 32 + k % 32 < 32 then src_where + k else src_where + k - 32

lemma readAt_eq_copyAt (src_where : ℕ) {j : ℕ} (hj : j < 32) :
    readAt src_where j = copyAt src_where j := by
  rw [readAt, copyAt, Nat.mod_eq_of_lt hj]

lemma copyAt_add (src_where k : ℕ) : copyAt (src_where + 32) k = copyAt src_where (k + 32) := by
  unfold copyAt
  rw [Nat.add_mod_right, Nat.add_mod_right]
  by_cases h : src_where % 32 + k % 32 < 32
  · rw [if_pos h, if_pos h, add_right_comm, add_assoc]
  · rw [if_neg h, if_neg h, add_right_comm, add_assoc]

/-- What a copy writes, and that it writes nothing else. -/
theorem bit_map_copy_spec (src : BitMap) (size : ℕ) :
    ∀ (dst : BitMap) (dst_where src_where : ℕ), dst_where + size < 2 ^ 32 →
      src_where + size < 2 ^ 32 →
      ∃ dst', dst.bit_map_copy dst_where src src_where size = some dst' ∧ dst'.size = dst.size ∧
        dst'.word_count = dst.word_count ∧
        ∀ i, dst'.bit i =
          if dst_where ≤ i ∧ i < dst_where + size ∧ i / 32 < dst.word_count then
            src.bit (copyAt src_where (i - dst_where)) else dst.bit i := by
  induction size using Nat.strong_induction_on with
  | _ size ih =>
    intro dst dst_where src_where hdst hsrc
    rw [bit_map_copy]
    by_cases hzero : size = 0
    · rw [if_pos hzero]
      exact ⟨dst, rfl, rfl, rfl, fun i => by rw [if_neg (by omega)]⟩
    rw [if_neg hzero]
    dsimp only
    obtain ⟨word, hget, hread⟩ := bit_map_get_spec src src_where (min_le_right size 32)
    obtain ⟨dst₁, hset, hsize₁, hcount₁, hbit₁⟩ :=
      bit_map_set_spec dst dst_where (min_le_right size 32) word
    obtain ⟨dst', hcopy, hsize', hcount', hbit'⟩ := ih (size - min size 32) (by omega) dst₁
      (dst_where + min size 32) (src_where + min size 32) (by omega) (by omega)
    rw [Nat.mod_eq_of_lt (by omega), Nat.mod_eq_of_lt (by omega), hget, Option.bind_eq_bind,
      Option.bind_some, hset, Option.bind_eq_bind, Option.bind_some, hcopy]
    refine ⟨dst', rfl, hsize'.trans hsize₁, hcount'.trans hcount₁, fun i => ?_⟩
    rw [hbit', hcount₁, hbit₁]
    by_cases hin : dst_where ≤ i ∧ i < dst_where + size ∧ i / 32 < dst.word_count
    · rw [if_pos hin]
      by_cases hfirst : i < dst_where + min size 32
      · rw [if_neg (by omega), if_pos (by omega), hread _ (by omega),
          decide_eq_true (by omega : i - dst_where < min size 32), Bool.true_and,
          readAt_eq_copyAt _ (by omega)]
      · have hchunk : min size 32 = 32 := by omega
        rw [if_pos (by omega), hchunk, copyAt_add]
        congr 2
        omega
    · rw [if_neg hin, if_neg (by omega), if_neg (by omega)]

/-- The source bits agree with what is read for them, and without words for them they are
zero. -/
def Copies (dst : BitMap) (dst_where : ℕ) (src : BitMap) (src_where size : ℕ) : Prop :=
  ∀ i < size, if (dst_where + i) / 32 < dst.word_count then
      src_where % 32 + i % 32 < 32 ∨ src.bit (src_where + i) = src.bit (src_where + i - 32)
    else src.bit (src_where + i) = false

theorem copy_iff {dst dst' src : BitMap} {dst_where src_where size : ℕ}
    (hdst : dst_where + size ≤ dst.size) (hsrc : src_where + size ≤ src.size)
    (hcopy : dst.bit_map_copy dst_where src src_where size = some dst') :
    (∀ i < size, dst'.bit (dst_where + i) = src.bit (src_where + i)) ↔
      Copies dst dst_where src src_where size := by
  have hlt := dst.size_lt
  have hlt' := src.size_lt
  obtain ⟨copied, hcopied, -, -, hbit⟩ :=
    bit_map_copy_spec src size dst dst_where src_where (by omega) (by omega)
  obtain rfl : copied = dst' := Option.some.inj (hcopied.symm.trans hcopy)
  refine forall₂_congr fun i hi => ?_
  rw [hbit, Nat.add_sub_cancel_left]
  by_cases hin : (dst_where + i) / 32 < dst.word_count
  · rw [if_pos (by omega), if_pos hin, copyAt]
    by_cases hfirst : src_where % 32 + i % 32 < 32
    · rw [if_pos hfirst]
      exact iff_of_true rfl (.inl hfirst)
    · rw [if_neg hfirst, or_iff_right hfirst]
      exact eq_comm
  · rw [if_neg (by omega), if_neg hin, bit_of_le (by omega)]
    exact eq_comm

/-- **Bit map fields**: a write changes the bits of its field only and a copy those of its range,
and both are right exactly when what is read for the second word agrees with the bits that survive.
-/
theorem bit_map_fields_iff (map src : BitMap) :
    (∀ (where_ size : ℕ) (value : BitVec 32), size ≤ 32 → where_ + size ≤ map.size →
      ∃ map', map.bit_map_set where_ size value = some map' ∧ map'.size = map.size ∧
        (∀ i, i < where_ ∨ where_ + size ≤ i → map'.bit i = map.bit i) ∧
        (map'.bit_map_get where_ size = some (lowBits value size) ↔
          map.Survives where_ size value)) ∧
    ∀ dst_where src_where size : ℕ, dst_where + size ≤ map.size → src_where + size ≤ src.size →
      ∃ map', map.bit_map_copy dst_where src src_where size = some map' ∧ map'.size = map.size ∧
        (∀ i, i < dst_where ∨ dst_where + size ≤ i → map'.bit i = map.bit i) ∧
        ((∀ i < size, map'.bit (dst_where + i) = src.bit (src_where + i)) ↔
          Copies map dst_where src src_where size) := by
  constructor
  · intro where_ size value hsize _
    obtain ⟨map', hset, hmap, -, hbit⟩ := bit_map_set_spec map where_ hsize value
    refine ⟨map', hset, hmap, fun i hi => ?_, get_set_iff hsize hset⟩
    rw [hbit, if_neg (by omega)]
  · intro dst_where src_where size hdst hsrc
    have hlt := map.size_lt
    have hlt' := src.size_lt
    obtain ⟨map', hcopy, hmap, -, hbit⟩ :=
      bit_map_copy_spec src size map dst_where src_where (by omega) (by omega)
    refine ⟨map', hcopy, hmap, fun i hi => ?_, copy_iff hdst hsrc hcopy⟩
    rw [hbit, if_neg (by omega)]

/-- Four bits that straddle the first two words are not read back. -/
theorem not_get_set : ¬∀ (map : BitMap) (where_ size : ℕ) (value : BitVec 32), 1 ≤ size →
    size ≤ 32 → where_ + size ≤ map.size → ∀ map', map.bit_map_set where_ size value = some map' →
      map'.bit_map_get where_ size = some (lowBits value size) := by
  intro h
  have hread := h (bit_map_create 64 (by norm_num)) 30 4 15#32 (by norm_num) (by norm_num)
    (by decide) _ rfl
  revert hread
  decide

end OISA.Util.BitMap
