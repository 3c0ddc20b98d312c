import Mathlib.Data.List.GetD
import OISA.Cpp.Bitmap
import OISA.Lib.Bits

/-!
# Bitmaps are bit vectors

A bitmap represents a bit vector when its blocks hold the vector's bits, those beyond the size
included.
-/

namespace OISA.Cpp

open OISA.Lib OISA.Lib.Bits

def dataBit (data : List (BitVec 64)) (i : ℕ) : Bool := (data.getD (i / 64) 0).getLsbD (i % 64)

lemma dataBit_replicate (n i : ℕ) : dataBit (List.replicate n 0) i = false := by
  unfold dataBit
  by_cases h : i / 64 < n
  · rw [List.getD_eq_getElem _ _ (by rw [List.length_replicate]; exact h),
      List.getElem_replicate]
    exact BitVec.getLsbD_zero
  · rw [List.getD_eq_default _ _ (by rw [List.length_replicate]; omega)]
    exact BitVec.getLsbD_zero

lemma dataBit_of_length_le {data : List (BitVec 64)} {i : ℕ} (h : 64 * data.length ≤ i) :
    dataBit data i = false := by
  unfold dataBit
  rw [List.getD_eq_default _ _ (by omega)]
  exact BitVec.getLsbD_zero

lemma dataBit_of_lt {data : List (BitVec 64)} {i : ℕ} (h : i / 64 < data.length) :
    dataBit data i = data[i / 64].getLsbD (i % 64) := by
  unfold dataBit
  rw [List.getD_eq_getElem _ _ h]

lemma dataBit_set {data : List (BitVec 64)} {k : ℕ} (hk : k < data.length) (word : BitVec 64)
    (i : ℕ) : dataBit (data.set k word) i =
      if i / 64 = k then word.getLsbD (i % 64) else dataBit data i := by
  unfold dataBit
  by_cases h : i / 64 = k
  · subst h
    rw [if_pos rfl, List.getD_eq_getElem _ _ (by rw [List.length_set]; exact hk),
      List.getElem_set_self]
  · rw [if_neg h, List.getD_eq_getElem?_getD, List.getElem?_set_ne (Ne.symm h),
      ← List.getD_eq_getElem?_getD]

lemma dataBit_map {data : List (BitVec 64)} {i : ℕ} (h : i / 64 < data.length)
    (f : BitVec 64 → BitVec 64) :
    dataBit (data.map f) i = (f data[i / 64]).getLsbD (i % 64) := by
  rw [dataBit_of_lt (by rw [List.length_map]; exact h), List.getElem_map]

lemma dataBit_zipWith {xs ys : List (BitVec 64)} {i : ℕ} (hx : i / 64 < xs.length)
    (hy : i / 64 < ys.length) (f : BitVec 64 → BitVec 64 → BitVec 64) :
    dataBit (xs.zipWith f ys) i = (f xs[i / 64] ys[i / 64]).getLsbD (i % 64) := by
  rw [dataBit_of_lt (by rw [List.length_zipWith]; omega), List.getElem_zipWith]

lemma eq_of_dataBit {xs ys : List (BitVec 64)} (hlen : xs.length = ys.length)
    (h : ∀ i, dataBit xs i = dataBit ys i) : xs = ys := by
  apply List.ext_getElem hlen
  intro k hx hy
  apply BitVec.eq_of_getLsbD_eq
  intro j hj
  have hdiv : (64 * k + j) / 64 = k := by omega
  have hmod : (64 * k + j) % 64 = j := by omega
  have hbit := h (64 * k + j)
  unfold dataBit at hbit
  rw [hdiv, hmod, List.getD_eq_getElem _ _ hx, List.getD_eq_getElem _ _ hy] at hbit
  exact hbit

lemma all_zip_beq {xs ys : List (BitVec 64)} (hlen : xs.length = ys.length) :
    ((xs.zip ys).all fun words => words.1 == words.2) = true ↔ xs = ys := by
  induction xs generalizing ys with
  | nil =>
    obtain rfl := List.length_eq_zero_iff.mp hlen.symm
    simp
  | cons x xs ih =>
    cases ys with
    | nil => simp at hlen
    | cons y ys => simp [ih (Nat.succ.inj hlen)]

lemma getLsbD_setBit (word : BitVec 64) (n : ℕ) (val : Bool) {j : ℕ} (hj : j < 64) :
    (if val then word ||| 1#64 <<< n else word &&& ~~~(1#64 <<< n)).getLsbD j =
      if j = n then val else word.getLsbD j := by
  cases val with
  | true =>
    rw [if_pos rfl, BitVec.getLsbD_or, getLsbD_one_shiftLeft (.inr hj)]
    by_cases h : j = n <;> simp [h]
  | false =>
    rw [if_neg (by decide), BitVec.getLsbD_and, BitVec.getLsbD_not, getLsbD_one_shiftLeft (.inr hj)]
    by_cases h : j = n <;> simp [h, hj]

lemma dataBit_setBit {data : List (BitVec 64)} {n : ℕ} (hn : n / 64 < data.length) (val : Bool)
    (i : ℕ) : dataBit (data.set (n / 64) (if val then data[n / 64] ||| 1#64 <<< (n % 64)
      else data[n / 64] &&& ~~~(1#64 <<< (n % 64)))) i =
      if i = n then val else dataBit data i := by
  rw [dataBit_set hn, getLsbD_setBit _ _ _ (Nat.mod_lt _ (by norm_num))]
  by_cases hdiv : i / 64 = n / 64
  · rw [if_pos hdiv]
    by_cases hmod : i % 64 = n % 64
    · rw [if_pos hmod, if_pos (by omega)]
    · have hne : i ≠ n := fun hin => hmod (by rw [hin])
      have hi : i / 64 < data.length := hdiv ▸ hn
      rw [if_neg hmod, if_neg hne, dataBit_of_lt hi]
      simp only [hdiv]
  · have hne : i ≠ n := fun hin => hdiv (by rw [hin])
    rw [if_neg hdiv, if_neg hne]

lemma getLsbD_lastMask {size j : ℕ} (hpos : 0 < size) (hsize : size < 2 ^ 64) (hj : j < 64) :
    (lastMask size).getLsbD j = decide (j ≤ (size - 1) % 64) := by
  have hdec : decrement size = size - 1 := by
    unfold decrement
    omega
  unfold lastMask
  simp only [hdec, bits_per_block]
  by_cases h : (size - 1) % 64 + 1 = 64
  · rw [if_pos h, BitVec.neg_one_eq_allOnes, BitVec.getLsbD_allOnes]
    exact decide_eq_decide.mpr ⟨fun _ => by omega, fun _ => hj⟩
  · rw [if_neg h, Lib.Bits.getLsbD_mask (by omega) hj]
    exact decide_eq_decide.mpr Nat.lt_succ_iff

namespace Bitmap

/-- The stored bit `i` of a bitmap, also beyond its size. -/
def bit (b : Bitmap) (i : ℕ) : Bool := dataBit b.data i

/-- The bitmap holds the vector: as many blocks as the size needs, and all their bits. -/
structure Represents (b : Bitmap) (v : BitVector) : Prop where
  size : b.size = v.size
  positive : 0 < b.size
  bounded : b.size ≤ 2 ^ 37 - 64
  blocks : b.size_in_blocks = (b.size + 63) / 64
  length : b.data.length = b.size_in_blocks
  bits : ∀ i, b.bit i = v.bit i

variable {b c : Bitmap} {v w : BitVector}

lemma Represents.congr (h : Represents b v) (hsize : c.size = b.size)
    (hblocks : c.size_in_blocks = b.size_in_blocks) (hdata : c.data = b.data) :
    Represents c v where
  size := by rw [hsize, h.size]
  positive := by rw [hsize]; exact h.positive
  bounded := by rw [hsize]; exact h.bounded
  blocks := by rw [hblocks, hsize, h.blocks]
  length := by rw [hdata, hblocks, h.length]
  bits i := by rw [bit, hdata]; exact h.bits i

lemma Represents.data (h : Represents b v) {data : List (BitVec 64)}
    (hlen : data.length = b.data.length) (hsize : w.size = v.size)
    (hbits : ∀ i, dataBit data i = w.bit i) : Represents { b with data := data } w where
  size := by rw [hsize]; exact h.size
  positive := h.positive
  bounded := h.bounded
  blocks := h.blocks
  length := hlen.trans h.length
  bits := hbits

lemma Represents.lt_length (h : Represents b v) {i : ℕ} (hi : i < b.size) :
    i / 64 < b.data.length := by
  rw [h.length, h.blocks]
  omega

lemma new_unique_array_eq {n : ℕ} (h : n < 2 ^ 31) :
    new_unique_array n = some (List.replicate n 0) := by
  unfold new_unique_array
  rw [Nat.mod_eq_of_lt (by omega : n < 2 ^ 32), if_pos h]

lemma ofSize_represents {n : ℕ} (hpos : 1 ≤ n) (hbound : n ≤ 2 ^ 37 - 64) :
    ∃ b, ofSize n = some b ∧ Represents b (BitVector.zeros n) := by
  have hblocks : (n + bits_per_block - 1) % 2 ^ 64 / bits_per_block = (n + 63) / 64 := by
    unfold bits_per_block
    omega
  have hnew : new_unique_array ((n + 63) / 64) = some (List.replicate ((n + 63) / 64) 0) :=
    new_unique_array_eq (by omega)
  refine ⟨{
    size := n
    size_in_blocks := (n + 63) / 64
    mask := lastMask n
    data := List.replicate ((n + 63) / 64) 0 }, ?_, ?_⟩
  · simp only [ofSize, hblocks, hnew, Option.bind_eq_bind, Option.bind_some]
    rfl
  · exact {
      size := rfl
      positive := hpos
      bounded := hbound
      blocks := rfl
      length := List.length_replicate
      bits := fun i => by
        rw [BitVector.zeros, BitVector.bit_ofFn, Bool.and_false]
        exact dataBit_replicate _ i }

lemma Represents.new_unique_array (h : Represents b v) :
    new_unique_array b.size_in_blocks = some (List.replicate b.size_in_blocks 0) := by
  have hbound := h.bounded
  have hblocks := h.blocks
  exact new_unique_array_eq (by omega)

lemma copyBlocks_eq {n : ℕ} {source target : List (BitVec 64)} (hs : source.length = n)
    (ht : target.length = n) : copyBlocks n source target = some source := by
  unfold copyBlocks
  rw [if_pos ⟨hs.ge, ht.ge⟩, List.take_of_length_le hs.le, List.drop_of_length_le ht.le,
    List.append_nil]

lemma Represents.ofBitmap (h : Represents b v) : b.ofBitmap = some b := by
  unfold Bitmap.ofBitmap
  rw [h.new_unique_array, Option.bind_eq_bind, Option.bind_some,
    copyBlocks_eq h.length List.length_replicate]
  rfl

lemma Represents.assign (hb : Represents b v) (hc : Represents c w) :
    b.assign c = some { c with mask := b.mask } := by
  unfold Bitmap.assign
  by_cases h : b.size = c.size
  · have hblocks : b.size_in_blocks = c.size_in_blocks := by rw [hb.blocks, hc.blocks, h]
    rw [if_neg (not_not.mpr h)]
    simp only [Option.pure_def, Option.bind_eq_bind, Option.bind_some,
      copyBlocks_eq (hc.length.trans hblocks.symm) hb.length]
    rw [h, hblocks]
  · rw [if_pos h]
    simp only [hc.new_unique_array, Option.pure_def, Option.bind_eq_bind, Option.bind_some,
      copyBlocks_eq hc.length List.length_replicate]

lemma getBlockBit_eq {at_ : ℕ} (h : at_ < b.size) :
    b.getBlockBit at_ = some (at_ / 64, at_ % 64) := by
  unfold getBlockBit
  rw [if_pos h]
  rfl

/-- `Test` reads the vector's bit. -/
theorem Represents.Test (h : Represents b v) {at_ : ℕ} (hat : at_ < b.size) :
    b.Test at_ = some (v.bit at_) := by
  have hlt := h.lt_length hat
  unfold Bitmap.Test
  simp only [getBlockBit_eq hat, Option.bind_eq_bind, Option.bind_some,
    List.getElem?_eq_getElem hlt, Option.pure_def, Option.some.injEq]
  rw [← h.bits, bit, dataBit_of_lt hlt, Bool.eq_iff_iff, decide_eq_true_iff]
  exact and_one_shiftLeft_ne_zero_iff _ _

lemma Represents.SetAt (h : Represents b v) {at_ : ℕ} (hat : at_ < b.size) (val : Bool) :
    ∃ b', b.SetAt at_ val = some b' ∧ b'.size = b.size ∧ Represents b' (v.put at_ val) := by
  have hlt := h.lt_length hat
  refine ⟨b.store (at_ / 64) (if val then b.data[at_ / 64] ||| 1#64 <<< (at_ % 64)
    else b.data[at_ / 64] &&& ~~~(1#64 <<< (at_ % 64))), ?_, rfl,
    h.data List.length_set rfl fun i => ?_⟩
  · unfold Bitmap.SetAt
    simp only [getBlockBit_eq hat, Option.bind_eq_bind, Option.bind_some,
      List.getElem?_eq_getElem hlt]
    rfl
  · rw [dataBit_setBit hlt, BitVector.bit_put (h.size ▸ hat)]
    exact congrArg _ (h.bits i)

lemma Represents.mapBlocks (h : Represents b v) (f : BitVec 64 → BitVec 64) :
    b.mapBlocks f = some { b with data := b.data.map f } := by
  unfold Bitmap.mapBlocks
  rw [if_pos h.length.ge]

lemma maskLast_represents (h : Represents b v) {data : List (BitVec 64)}
    (hlen : data.length = b.data.length) (hmask : b.mask = lastMask b.size)
    (hsize : w.size = v.size) (hbits : ∀ i < b.size, dataBit data i = w.bit i) :
    ∃ b', maskLast { b with data := data } = some b' ∧ Represents b' w := by
  have hpos := h.positive
  have hbound := h.bounded
  have hblocks := h.blocks
  have hlength := h.length
  have hdec : decrement b.size_in_blocks = b.size_in_blocks - 1 := by
    unfold decrement
    omega
  have hlast : b.size_in_blocks - 1 < data.length := by omega
  refine ⟨store { b with data := data } (b.size_in_blocks - 1)
    (data[b.size_in_blocks - 1] &&& b.mask), ?_, ?_⟩
  · unfold maskLast
    simp only [hdec, List.getElem?_eq_getElem hlast]
    rfl
  · refine h.data (List.length_set.trans hlen) hsize fun i => ?_
    rw [dataBit_set hlast]
    by_cases hi : i < b.size
    · by_cases hblock : i / 64 = b.size_in_blocks - 1
      · rw [if_pos hblock, BitVec.getLsbD_and, hmask,
          getLsbD_lastMask hpos (by omega) (Nat.mod_lt _ (by norm_num)),
          decide_eq_true (by omega), Bool.and_true, ← hbits i hi,
          dataBit_of_lt (hblock ▸ hlast)]
        simp only [hblock]
      · rw [if_neg hblock]
        exact hbits i hi
    · rw [w.zero i (by rw [hsize, ← h.size]; omega)]
      by_cases hblock : i / 64 = b.size_in_blocks - 1
      · rw [if_pos hblock, BitVec.getLsbD_and, hmask,
          getLsbD_lastMask hpos (by omega) (Nat.mod_lt _ (by norm_num)),
          decide_eq_false (by omega), Bool.and_false]
      · rw [if_neg hblock]
        exact dataBit_of_length_le (by omega)

lemma Represents.Set (h : Represents b v) (hmask : b.mask = lastMask b.size) :
    ∃ b', b.Set = some b' ∧ Represents b' (BitVector.ones v.size) := by
  unfold Bitmap.Set
  rw [h.mapBlocks, Option.bind_some]
  refine maskLast_represents h (List.length_map _) hmask rfl fun i hi => ?_
  rw [dataBit_map (h.lt_length hi), BitVector.ones, BitVector.bit_ofFn,
    decide_eq_true (h.size ▸ hi), BitVec.getLsbD_not, BitVec.getLsbD_zero,
    decide_eq_true (Nat.mod_lt _ (by norm_num))]
  rfl

lemma Represents.Reset (h : Represents b v) :
    ∃ b', b.Reset = some b' ∧ Represents b' (BitVector.zeros v.size) := by
  unfold Bitmap.Reset
  rw [h.mapBlocks]
  refine ⟨_, rfl, h.data (List.length_map _) rfl fun i => ?_⟩
  rw [BitVector.zeros, BitVector.bit_ofFn, Bool.and_false]
  by_cases hi : i / 64 < b.data.length
  · rw [dataBit_map hi, BitVec.getLsbD_zero]
  · exact dataBit_of_length_le (by rw [List.length_map]; omega)

lemma Represents.Flip (h : Represents b v) (hmask : b.mask = lastMask b.size) :
    ∃ b', b.Flip = some b' ∧ Represents b' v.complement := by
  unfold Bitmap.Flip
  rw [h.mapBlocks, Option.bind_some]
  refine maskLast_represents h (List.length_map _) hmask rfl fun i hi => ?_
  rw [dataBit_map (h.lt_length hi), BitVector.complement, BitVector.bit_ofFn,
    decide_eq_true (h.size ▸ hi), BitVec.getLsbD_not, decide_eq_true (Nat.mod_lt _ (by norm_num)),
    ← dataBit_of_lt (h.lt_length hi), Bool.true_and, Bool.true_and]
  exact congrArg _ (h.bits i)

lemma Represents.length_eq (hb : Represents b v) (hc : Represents c w) (hsize : b.size = c.size) :
    c.data.length = b.data.length := by
  rw [hb.length, hc.length, hb.blocks, hc.blocks, hsize]

lemma Represents.combine (hb : Represents b v) (hc : Represents c w) (hsize : b.size = c.size)
    {f : BitVec 64 → BitVec 64 → BitVec 64} {g : Bool → Bool → Bool}
    (hg : g false false = false)
    (hfg : ∀ x y : BitVec 64, ∀ j < 64, (f x y).getLsbD j = g (x.getLsbD j) (y.getLsbD j)) :
    ∃ b', b.combine f c = some b' ∧ Represents b' (v.zip w g) := by
  have hlen := hb.length_eq hc hsize
  unfold Bitmap.combine
  rw [if_pos ⟨hsize, hb.length.ge, by rw [hlen, hb.length]⟩]
  refine ⟨_, rfl, hb.data ?_ rfl fun i => ?_⟩
  · rw [List.length_zipWith, hlen, min_self]
  · have hzip : (v.zip w g).bit i = g (v.bit i) (w.bit i) := BitVector.bit_zip hg
      (hb.size.symm.trans (hsize.trans hc.size)) i
    rw [hzip, ← hb.bits, ← hc.bits, bit, bit]
    by_cases hi : i / 64 < b.data.length
    · have hi' : i / 64 < c.data.length := hlen ▸ hi
      rw [dataBit_zipWith hi hi', hfg _ _ _ (Nat.mod_lt _ (by norm_num)), dataBit_of_lt hi,
        dataBit_of_lt hi']
    · rw [dataBit_of_length_le (by rw [List.length_zipWith, hlen, min_self]; omega),
        dataBit_of_length_le (by omega), dataBit_of_length_le (by omega), hg]

lemma foldlM_range' {P : ℕ → Bitmap → Prop} {body : Bitmap → ℕ → Option Bitmap} {n : ℕ}
    (s : ℕ) (hstep : ∀ k < n, ∀ b, P k b → ∃ b', body b (s + k) = some b' ∧ P (k + 1) b')
    (h : P 0 b) : ∃ b', (List.range' s n).foldlM body b = some b' ∧ P n b' := by
  induction n with
  | zero => exact ⟨b, rfl, h⟩
  | succ n ih =>
    obtain ⟨b₁, hrun, h₁⟩ := ih fun k hk => hstep k (by omega)
    obtain ⟨b₂, hbody, h₂⟩ := hstep n (by omega) b₁ h₁
    refine ⟨b₂, ?_, h₂⟩
    rw [List.range'_1_concat, List.foldlM_append, hrun, Option.bind_eq_bind, Option.bind_some,
      List.foldlM_cons, hbody]
    rfl

def moved (v : BitVector) (n k : ℕ) : BitVector :=
  BitVector.ofFn v.size fun i => if i < k then v.bit (i + n) else v.bit i

def cleared (v : BitVector) (n m k : ℕ) : BitVector :=
  BitVector.ofFn v.size fun i => decide (¬(m ≤ i ∧ i < m + k)) && (moved v n m).bit i

lemma Represents.of_eq (h : Represents b v) (hvw : v = w) : Represents b w := hvw ▸ h

lemma moved_zero (v : BitVector) (n : ℕ) : moved v n 0 = v := by
  refine BitVector.ext_of_lt rfl fun i hi => ?_
  have hi' : i < v.size := hi
  simp [moved, hi']

lemma put_moved (v : BitVector) {n k : ℕ} (hk : k < v.size) :
    (moved v n k).put k (v.bit (k + n)) = moved v n (k + 1) := by
  refine BitVector.ext_of_lt rfl fun i hi => ?_
  have hi' : i < v.size := hi
  rw [BitVector.bit_put (show k < (moved v n k).size from hk)]
  by_cases hik : i = k
  · subst hik
    simp [moved, hi']
  · have hiff : i < k + 1 ↔ i < k := by omega
    rw [if_neg hik]
    simp only [moved, BitVector.bit_ofFn, hiff]

lemma cleared_zero (v : BitVector) (n m : ℕ) : cleared v n m 0 = moved v n m := by
  refine BitVector.ext_of_lt rfl fun i hi => ?_
  have hi' : i < v.size := hi
  simp [cleared, moved, hi']

lemma put_cleared (v : BitVector) {n m k : ℕ} (hk : m + k < v.size) :
    (cleared v n m k).put (m + k) false = cleared v n m (k + 1) := by
  refine BitVector.ext_of_lt rfl fun i hi => ?_
  have hi' : i < v.size := hi
  rw [BitVector.bit_put (show m + k < (cleared v n m k).size from hk)]
  by_cases hik : i = m + k
  · subst hik
    simp [cleared]
  · have hiff : (m ≤ i ∧ i < m + k) ↔ (m ≤ i ∧ i < m + (k + 1)) := by omega
    simp only [cleared, BitVector.bit_ofFn, if_neg hik, hiff]

lemma cleared_all (v : BitVector) {n : ℕ} (hn : n < v.size) :
    cleared v n (v.size - n) n = v.down n := by
  refine BitVector.ext_of_lt rfl fun i hi => ?_
  have hi' : i < v.size := hi
  rw [cleared, BitVector.bit_ofFn, decide_eq_true hi', Bool.true_and, BitVector.down,
    BitVector.bit_ofFn, decide_eq_true hi', Bool.true_and]
  by_cases hlt : i < v.size - n
  · rw [decide_eq_true (by omega), Bool.true_and, moved, BitVector.bit_ofFn, decide_eq_true hi',
      Bool.true_and, if_pos hlt]
  · rw [decide_eq_false (by omega), Bool.false_and, v.zero (i + n) (by omega)]

lemma Represents.shrAssign (h : Represents b v) (n : ℕ) :
    ∃ b', b.shrAssign n = some b' ∧ Represents b' (v.down n) := by
  unfold Bitmap.shrAssign
  by_cases hn : b.size ≤ n
  · rw [if_pos hn, v.down_of_le (h.size ▸ hn)]
    exact h.Reset
  · rw [if_neg hn]
    have hvn : n < v.size := h.size ▸ not_le.mp hn
    have hfirst : ∃ b₁, (List.range' 0 (b.size - n)).foldlM
        (fun b i => (b.Test (i + n)).bind (b.SetAt i)) b = some b₁ ∧
        b₁.size = b.size ∧ Represents b₁ (moved v n (b.size - n)) := by
      refine foldlM_range' (P := fun k b' => b'.size = b.size ∧ Represents b' (moved v n k)) 0
        (fun k hk b₁ ⟨hsize, h₁⟩ => ?_) ⟨rfl, h.of_eq (moved_zero v n).symm⟩
      have hbit : (moved v n k).bit (0 + k + n) = v.bit (k + n) := by
        rw [zero_add, moved, BitVector.bit_ofFn, decide_eq_true (by rw [← h.size]; omega),
          Bool.true_and, if_neg (by omega)]
      obtain ⟨b₂, hset, hsize₂, h₂⟩ := h₁.SetAt (show k < b₁.size by omega) (v.bit (k + n))
      refine ⟨b₂, ?_, hsize₂.trans hsize, h₂.of_eq (put_moved v (by rw [← h.size]; omega))⟩
      rw [h₁.Test (show 0 + k + n < b₁.size by omega), hbit, Option.bind_some, zero_add]
      exact hset
    obtain ⟨b₁, hrun₁, hsize₁, h₁⟩ := hfirst
    have hsecond : ∃ b₂, (List.range' (b.size - n) n).foldlM (fun b i => b.SetAt i false) b₁ =
        some b₂ ∧ b₂.size = b.size ∧ Represents b₂ (cleared v n (b.size - n) n) := by
      refine foldlM_range'
        (P := fun k b' => b'.size = b.size ∧ Represents b' (cleared v n (b.size - n) k))
        (b.size - n) (fun k hk b₂ ⟨hsize, h₂⟩ => ?_) ⟨hsize₁, h₁.of_eq (cleared_zero v n _).symm⟩
      obtain ⟨b₃, hset, hsize₃, h₃⟩ := h₂.SetAt (show b.size - n + k < b₂.size by omega) false
      exact ⟨b₃, hset, hsize₃.trans hsize, h₃.of_eq (put_cleared v (by rw [← h.size]; omega))⟩
    obtain ⟨b₂, hrun₂, _, h₂⟩ := hsecond
    refine ⟨b₂, ?_, ?_⟩
    · rw [List.range_eq_range', hrun₁, Option.bind_eq_bind, Option.bind_some, hsize₁]
      exact hrun₂
    · rw [h.size] at h₂
      rwa [cleared_all v hvn] at h₂

lemma Represents.shlAssign (h : Represents b v) (fuel : ℕ) {n : ℕ} (hn : b.size ≤ n) :
    ∃ b', b.shlAssign fuel n = some b' ∧ Represents b' (v.up n) := by
  unfold Bitmap.shlAssign
  rw [if_pos hn, v.up_of_le (h.size ▸ hn)]
  exact h.Reset

lemma countDown_zero (body : ℕ → Bitmap → Option Bitmap) (fuel i : ℕ) (b : Bitmap) :
    countDown 0 body fuel i b = none := by
  induction fuel generalizing i b with
  | zero => rfl
  | succ fuel ih =>
    rw [countDown, if_pos (Nat.zero_le i)]
    cases body i b with
    | none => rfl
    | some b' => exact ih _ _

/-- `operator<<=` by less than the size never gives a result. -/
theorem shlAssign_lt_size (fuel : ℕ) (b : Bitmap) {n : ℕ} (hn : n < b.size) :
    b.shlAssign fuel n = none := by
  unfold Bitmap.shlAssign
  rw [if_neg (not_le.mpr hn), Option.bind_eq_bind, Option.bind_eq_none_iff]
  intro b' _
  exact countDown_zero _ _ _ _

/-- `operator==` compares all bits. -/
theorem Represents.equals (hb : Represents b v) (hc : Represents c w) (hsize : b.size = c.size) :
    ∃ r, b.equals c = some r ∧ (r = true ↔ ∀ i < b.size, b.Test i = c.Test i) := by
  have hlen := hb.length_eq hc hsize
  refine ⟨_, if_pos ⟨hsize, hb.length.ge, by rw [hlen, hb.length]⟩, ?_⟩
  rw [all_zip_beq hlen.symm]
  constructor
  · intro h i hi
    rw [hb.Test hi, hc.Test (hsize ▸ hi), ← hb.bits, ← hc.bits, bit, bit, h]
  · intro h
    have hvw : v = w := by
      refine BitVector.ext_of_lt (hb.size.symm.trans (hsize.trans hc.size)) fun i hi => ?_
      have hi' : i < b.size := hb.size ▸ hi
      have htest := h i hi'
      rw [hb.Test hi', hc.Test (hsize ▸ hi')] at htest
      exact Option.some.inj htest
    refine eq_of_dataBit hlen.symm fun i => ?_
    exact (hb.bits i).trans (hvw ▸ (hc.bits i).symm)

end Bitmap

end OISA.Cpp
