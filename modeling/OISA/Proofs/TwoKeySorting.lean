import OISA.Proofs.SortViews
import OISA.Proofs.MergeSorting

/-!
# What the bitonic sorts compute
-/

/-!
## Correctness of the one-key bitonic sorts

The compare-and-swaps follow their key in the direction asked for, and the recursion uses
the two opposite directions, so the sorting network theorem applies to the words, to the
blocks and to the pairs of blocks.
-/

namespace OISA.Primitives

open OISA.Lib OISA.Lib.Traced OISA.Lib.Bitonic

variable {ι α : Type} [DecidableEq ι]

/-- The order of a direction. -/
def Dir.Le : Dir → ℤ → ℤ → Prop
  | .ascending, x, y => x ≤ y
  | .descending, x, y => y ≤ x

/-- The key whose ascending order is the order of the direction. -/
def Dir.key : Dir → ℤ → ℤ
  | .ascending, x => x
  | .descending, x => -x

lemma Dir.key_le_key {dir : Dir} {x y : ℤ} : dir.key x ≤ dir.key y ↔ dir.Le x y := by
  cases dir with
  | ascending => exact Iff.rfl
  | descending => exact neg_le_neg_iff

lemma Dir.key_lt_key {dir : Dir} {x y : ℤ} : dir.key x < dir.key y ↔ ¬dir.Le y x := by
  rw [← Dir.key_le_key, not_le]

/-- The sequence `w` holds the first `n` elements of `v` in the order `le`; the elements
move as a whole and the others stay. -/
structure SortsTo (n : ℕ) (le : α → α → Prop) (v w : ℕ → α) : Prop where
  sorted : ∀ i j, i ≤ j → j < n → le (w i) (w j)
  moved : PermOn 0 n v w
  perm : List.Perm ((List.range n).map w) ((List.range n).map v)

lemma swapWord_swapBy (dir : Dir) : SwapBy (swapWord dir) dir.key where
  keep a b h := by
    rw [Dir.key_lt_key] at h
    cases dir with
    | ascending =>
      have hab : ¬ a > b := fun hlt => h (le_of_lt hlt)
      simp [swapWord, Dir.ofBool, hab]
    | descending =>
      have hab : a > b := not_le.mp h
      simp [swapWord, Dir.ofBool, hab]
  exchange a b h := by
    rw [Dir.key_lt_key] at h
    cases dir with
    | ascending =>
      have hab : a > b := not_le.mp h
      simp [swapWord, Dir.ofBool, hab]
    | descending =>
      have hab : ¬ a > b := fun hlt => h (le_of_lt hlt)
      simp [swapWord, Dir.ofBool, hab]

lemma swapWord_family : SwapFamily swapWord Dir.key .ascending .descending where
  follows := swapWord_swapBy
  reverse _ _ := neg_le_neg_iff

lemma Dir.eq_ascending_or_descending (dir : Dir) : dir = .ascending ∨ dir = .descending := by
  cases dir <;> simp

lemma oddPart_two_pow (k : ℕ) : oddPart (2 ^ k) = 1 := by
  induction k with
  | zero => rw [oddPart]; rfl
  | succ k ih =>
    have heven : 2 ^ (k + 1) % 2 = 0 := by rw [pow_succ, Nat.mul_mod_left]
    have hhalf : 2 ^ (k + 1) / 2 = 2 ^ k := by rw [pow_succ, Nat.mul_div_cancel _ two_pos]
    have hne : 2 ^ (k + 1) ≠ 0 := (Nat.two_pow_pos _).ne'
    rw [oddPart, if_pos ⟨heven, hne⟩, hhalf, ih]

lemma checkPowerOfTwo_two_pow (k : ℕ) : checkPowerOfTwo (2 ^ k) = true := by
  rw [checkPowerOfTwo, oddPart_two_pow]
  rfl

omit [DecidableEq ι] in
lemma bitonicSubSort_sortsTo {view : Mem ι → ℕ → α} {swap : Dir → α → α → Bool}
    {cas : Dir → ℕ → ℕ → Traced ι Unit} (word : α → ℤ)
    (himpl : ∀ d, Implements view (swap d) (cas d))
    (hfam : SwapFamily swap (fun d x => d.key (word x)) .ascending .descending) (k : ℕ)
    (dir : Dir) (m : Mem ι) :
    SortsTo (2 ^ k) (fun x y => dir.Le (word x) (word y)) (view m)
      (view ((bitonicSubSort cas .ascending .descending 0 (2 ^ k) dir).exec m)) := by
  rw [bitonicSubSort_view himpl]
  have hperm := sortNet_permOn swap .ascending .descending k 0 dir (view m)
  have hsorted := sortNet_sorted hfam k 0 dir dir.eq_ascending_or_descending (view m)
  refine ⟨fun i j hij hj => ?_, hperm, ?_⟩
  · rw [← Dir.key_le_key]
    exact hsorted ⟨by omega, by omega⟩ ⟨by omega, by omega⟩ hij
  · rw [List.range_eq_range']
    exact hperm.list_perm

/-- The one-key bitonic sorts of `2 ^ k` words, blocks and pairs of blocks get past the
length check, sort by the key, and move every block and every pair of blocks as a whole. -/
theorem bitonicSort_sortsTo (k : ℕ) (dir : Dir) (m : Mem ι) (arr main aux : ι)
    (hne : main ≠ aux) (keyIdx blockSz blockSzAux : ℕ) (hkey : keyIdx < blockSz) :
    (∃ sort, bitonicSortInt arr (2 ^ k) dir = some sort ∧
      SortsTo (2 ^ k) dir.Le (readWord arr m) (readWord arr (sort.exec m))) ∧
    (∃ sort, bitonicSortBlock arr (2 ^ k) keyIdx dir blockSz = some sort ∧
      SortsTo (2 ^ k) (fun x y => dir.Le (x.getD keyIdx 0) (y.getD keyIdx 0))
        (readBlock arr blockSz m) (readBlock arr blockSz (sort.exec m))) ∧
    (∃ sort, bitonicSortTwoArray main aux (2 ^ k) keyIdx dir blockSz blockSzAux = some sort ∧
      SortsTo (2 ^ k) (fun x y => dir.Le (x.1.getD keyIdx 0) (y.1.getD keyIdx 0))
        (readPair main aux blockSz blockSzAux m)
        (readPair main aux blockSz blockSzAux (sort.exec m))) := by
  have hpow := checkPowerOfTwo_two_pow k
  refine ⟨⟨_, by rw [bitonicSortInt, if_pos hpow], ?_⟩,
    ⟨_, by rw [bitonicSortBlock, if_pos hpow], ?_⟩,
    ⟨_, by rw [bitonicSortTwoArray, if_pos hpow], ?_⟩⟩
  · exact bitonicSubSort_sortsTo id (compAndSwapInt_implements arr) swapWord_family
      k dir m
  · exact bitonicSubSort_sortsTo (fun x => x.getD keyIdx 0)
      (compAndSwapBlock_implements arr hkey) (swapWord_family.comap _) k dir m
  · exact bitonicSubSort_sortsTo (fun x => x.1.getD keyIdx 0)
      (compAndSwapTwoArray_implements hne hkey) (swapWord_family.comap _) k dir m

theorem bitonicSort_sortsTo_two_blocks :
    0 ≠ 1 ∧ 0 < 2 ∧
      ∃ sort, bitonicSortTwoArray (0 : Fin 2) 1 (2 ^ 1) 0 .descending 2 3 = some sort ∧
        SortsTo (2 ^ 1) (fun x y => Dir.Le .descending (x.1.getD 0 0) (y.1.getD 0 0))
          (readPair 0 1 2 3 ⟨fun _ i => i⟩) (readPair 0 1 2 3 (sort.exec ⟨fun _ i => i⟩)) :=
  ⟨by decide, by decide,
    (bitonicSort_sortsTo 1 .descending ⟨fun _ i => i⟩ 0 0 1 (by decide) 0 2 3 (by decide)).2.2⟩

end OISA.Primitives

/-!
## The two-key sorts

The merge sort orders by the first key in one direction and breaks ties by the second key in
another.
-/

namespace OISA.Primitives

open OISA.Lib OISA.Lib.Traced OISA.Lib.Bitonic

variable {ι α : Type}

/-- The order of the first keys in direction `dir.1`, then of the second in `dir.2`. -/
def LexLe (dir : Dir × Dir) (p q : ℤ × ℤ) : Prop :=
  (p.1 ≠ q.1 ∧ dir.1.Le p.1 q.1) ∨ (p.1 = q.1 ∧ dir.2.Le p.2 q.2)

def lexKey (dir : Dir × Dir) (p : ℤ × ℤ) : ℤ ×ₗ ℤ := toLex (dir.1.key p.1, dir.2.key p.2)

lemma Dir.key_injective (dir : Dir) : Function.Injective dir.key := by
  intro x y h
  cases dir with
  | ascending => exact h
  | descending => exact neg_injective h

lemma Dir.key_lt_iff {dir : Dir} {x y : ℤ} : dir.key x < dir.key y ↔ x ≠ y ∧ dir.Le x y := by
  rw [lt_iff_le_and_ne, Dir.key_le_key, Ne, dir.key_injective.eq_iff, and_comm]

lemma lexKey_le_iff {dir : Dir × Dir} {p q : ℤ × ℤ} :
    lexKey dir p ≤ lexKey dir q ↔ LexLe dir p q := by
  unfold lexKey LexLe
  rw [Prod.Lex.toLex_le_toLex, Dir.key_lt_iff, Dir.key_le_key, dir.1.key_injective.eq_iff]

lemma lexKey_injective (dir : Dir × Dir) : Function.Injective (lexKey dir) := by
  intro p q h
  have hpair := toLex_inj.mp h
  exact Prod.ext (dir.1.key_injective (congrArg Prod.fst hpair))
    (dir.2.key_injective (congrArg Prod.snd hpair))

lemma lexKey_surjective (dir : Dir × Dir) : Function.Surjective (lexKey dir) := by
  have hinv : ∀ (d : Dir) (x : ℤ), d.key (d.key x) = x := by
    intro d x
    cases d with
    | ascending => rfl
    | descending => exact neg_neg x
  intro q
  refine ⟨(dir.1.key (ofLex q).1, dir.2.key (ofLex q).2), ?_⟩
  rw [lexKey, hinv, hinv]
  rfl

instance (dir : Dir × Dir) (p q : ℤ × ℤ) : Decidable (LexLe dir p q) :=
  decidable_of_iff (lexKey dir p ≤ lexKey dir q) lexKey_le_iff

lemma takeLeftTwoKey_iff (dir : Dir × Dir) (x1 x2 y1 y2 : ℤ) :
    takeLeftTwoKey dir.1 dir.2 x1 x2 y1 y2 = true ↔ LexLe dir (x1, x2) (y1, y2) := by
  obtain ⟨d1, d2⟩ := dir
  cases d1 <;> cases d2 <;> simp [takeLeftTwoKey, LexLe, Dir.Le] <;> omega

/-- The two keys of a block. -/
def keyPair (key1Idx key2Idx : ℕ) (b : List ℤ) : ℤ × ℤ := (b.getD key1Idx 0, b.getD key2Idx 0)

lemma swapTwoKey_of_ne {key1Idx : ℕ} {x y : List ℤ}
    (h : x.getD key1Idx 0 ≠ y.getD key1Idx 0) (key2Idx : ℕ) (dir : Dir × Dir) :
    swapTwoKey key1Idx key2Idx dir x y = swapWord dir.1 (x.getD key1Idx 0) (y.getD key1Idx 0) := by
  simp only [swapTwoKey, swapKey, h, decide_false, Bool.not_false, Bool.true_and, Bool.false_and,
    Bool.or_false]

lemma swapTwoKey_of_eq {key1Idx : ℕ} {x y : List ℤ}
    (h : x.getD key1Idx 0 = y.getD key1Idx 0) (key2Idx : ℕ) (dir : Dir × Dir) :
    swapTwoKey key1Idx key2Idx dir x y = swapWord dir.2 (x.getD key2Idx 0) (y.getD key2Idx 0) := by
  simp only [swapTwoKey, swapKey, h, decide_true, Bool.not_true, Bool.true_and, Bool.false_and,
    Bool.false_or]

lemma swapTwoKey_swapBy (key1Idx key2Idx : ℕ) (dir : Dir × Dir) :
    SwapBy (swapTwoKey key1Idx key2Idx dir)
      (fun b => lexKey dir (keyPair key1Idx key2Idx b)) where
  keep a b h := by
    rcases Prod.Lex.toLex_lt_toLex.mp h with h1 | ⟨h1, h2⟩
    · rw [swapTwoKey_of_ne (Dir.key_lt_iff.mp h1).1]
      exact (swapWord_swapBy dir.1).keep _ _ h1
    · rw [swapTwoKey_of_eq (dir.1.key_injective h1)]
      exact (swapWord_swapBy dir.2).keep _ _ h2
  exchange a b h := by
    rcases Prod.Lex.toLex_lt_toLex.mp h with h1 | ⟨h1, h2⟩
    · rw [swapTwoKey_of_ne (Dir.key_lt_iff.mp h1).1.symm]
      exact (swapWord_swapBy dir.1).exchange _ _ h1
    · rw [swapTwoKey_of_eq (dir.1.key_injective h1).symm]
      exact (swapWord_swapBy dir.2).exchange _ _ h2

lemma swapTwoKey_family (key1Idx key2Idx : ℕ) :
    SwapFamily (swapTwoKey key1Idx key2Idx)
      (fun dir b => lexKey dir (keyPair key1Idx key2Idx b))
      (.ascending, .ascending) (.descending, .descending) where
  follows := swapTwoKey_swapBy key1Idx key2Idx
  reverse a b := by
    rw [lexKey_le_iff, lexKey_le_iff]
    simp only [LexLe, Dir.Le]
    constructor <;> (rintro (h | h) <;> [left; right] <;> exact ⟨h.1.symm, h.2⟩)

/-- The key pairs of the first `n` elements of a view. -/
def keyPairs (key : α → ℤ × ℤ) (n : ℕ) (v : ℕ → α) : List (ℤ × ℤ) :=
  (List.range n).map fun i => key (v i)

lemma keyPairs_eq_map (key : α → ℤ × ℤ) (n : ℕ) (v : ℕ → α) :
    keyPairs key n v = ((List.range' 0 n).map v).map key := by
  rw [keyPairs, List.map_map, List.range_eq_range']
  rfl

lemma LexLe.trans {dir : Dir × Dir} {p q r : ℤ × ℤ} (h : LexLe dir p q) (h' : LexLe dir q r) :
    LexLe dir p r := by
  rw [← lexKey_le_iff] at h h' ⊢
  exact h.trans h'

lemma LexLe.total (dir : Dir × Dir) (p q : ℤ × ℤ) : LexLe dir p q ∨ LexLe dir q p := by
  rw [← lexKey_le_iff, ← lexKey_le_iff]
  exact le_total _ _

lemma LexLe.antisymm {dir : Dir × Dir} {p q : ℤ × ℤ} (h : LexLe dir p q)
    (h' : LexLe dir q p) : p = q := by
  rw [← lexKey_le_iff] at h h'
  exact lexKey_injective dir (le_antisymm h h')

lemma eq_of_perm_of_lexSorted (dir : Dir × Dir) {xs ys : List (ℤ × ℤ)}
    (hx : xs.Pairwise (LexLe dir)) (hy : ys.Pairwise (LexLe dir)) (h : xs.Perm ys) : xs = ys :=
  h.eq_of_pairwise (fun _ _ _ _ hab hba => hab.antisymm hba) hx hy

section MergeSort

variable {el : ElementAccess ι α} {view : Mem ι → ℕ → α} {wf : α → Prop} {key : α → ℤ × ℤ}
  {dir : Dir × Dir} {takeLeft : α → α → Bool}

lemma mergeSubSort_lexSorts (h : el.Lawful view wf)
    (htake : ∀ x y, takeLeft x y = true ↔ LexLe dir (key x) (key y)) (n : ℕ) (hn : 0 < n)
    (m : Mem ι) : SortsSegment 0 n takeLeft (view m)
      (view ((mergeSubSort el takeLeft 0 (n - 1)).exec m)) := by
  have hs := mergeSubSort_sortsSegment h takeLeft
    (fun a b c hab hbc => by rw [htake] at hab hbc ⊢; exact hab.trans hbc)
    (fun a b => by rw [Bool.or_eq_true, htake, htake]; exact LexLe.total dir _ _) 0 (n - 1) m
  rwa [Nat.zero_add, Nat.sub_add_cancel hn] at hs

lemma mergeSubSort_perm (h : el.Lawful view wf) (key : α → ℤ × ℤ) (dir : Dir × Dir)
    (htake : ∀ x y, takeLeft x y = true ↔ LexLe dir (key x) (key y)) (n : ℕ) (hn : 0 < n)
    (m : Mem ι) :
    ((List.range' 0 n).map (view ((mergeSubSort el takeLeft 0 (n - 1)).exec m))).Perm
      ((List.range' 0 n).map (view m)) :=
  (mergeSubSort_lexSorts h htake n hn m).perm

lemma mergeSubSort_keyPairs (h : el.Lawful view wf) (key : α → ℤ × ℤ) (dir : Dir × Dir)
    (htake : ∀ x y, takeLeft x y = true ↔ LexLe dir (key x) (key y)) (n : ℕ) (hn : 0 < n)
    (m : Mem ι) :
    (keyPairs key n (view ((mergeSubSort el takeLeft 0 (n - 1)).exec m))).Pairwise (LexLe dir) ∧
      (keyPairs key n (view ((mergeSubSort el takeLeft 0 (n - 1)).exec m))).Perm
        (keyPairs key n (view m)) := by
  have hs := mergeSubSort_lexSorts h htake n hn m
  rw [keyPairs_eq_map, keyPairs_eq_map]
  refine ⟨?_, hs.perm.map key⟩
  rw [List.pairwise_map]
  exact hs.sorted.imp fun {x y} hxy => (htake x y).mp hxy

end MergeSort

/-- The pairs, with the first half in the order of `(1, 1)` and the second in the order of
`(0, 0)`. -/
def sortedHalfPairs (ps : List (ℤ × ℤ)) : List (ℤ × ℤ) :=
  (ps.take (ps.length / 2)).mergeSort (fun p q => LexLe (.ascending, .ascending) p q) ++
    (ps.drop (ps.length / 2)).mergeSort (fun p q => LexLe (.descending, .descending) p q)

/-- For every pair `x`, the pairs of the sorted halves that are not before `x` are spread
evenly over the residue classes of their positions modulo each power of two. -/
def HalvesBalanced (k : ℕ) (dir : Dir × Dir) (ps : List (ℤ × ℤ)) : Prop :=
  ∀ x, Balanced k 0 fun t => decide (LexLe dir x ((sortedHalfPairs ps).getD t 0))

lemma pairwise_range'_map {r : ℤ × ℤ → ℤ × ℤ → Prop} {low n : ℕ} {f : ℕ → ℤ × ℤ}
    (h : ∀ i j, low ≤ i → i ≤ j → j < low + n → r (f i) (f j)) :
    ((List.range' low n).map f).Pairwise r := by
  rw [List.pairwise_map]
  refine List.Pairwise.imp_of_mem (fun {i j} hi hj hij => ?_) List.pairwise_lt_range'
  rw [List.mem_range'_1] at hi hj
  exact h i j hi.1 (le_of_lt hij) hj.2

lemma getD_keyPairs (key : α → ℤ × ℤ) {n t : ℕ} (ht : t < n) (v : ℕ → α) :
    (keyPairs key n v).getD t 0 = key (v t) := by
  simp [keyPairs, List.getD, ht]

lemma keyPairs_lexSorted_iff (key : α → ℤ × ℤ) (dir : Dir × Dir) (n : ℕ) (v : ℕ → α) :
    (keyPairs key n v).Pairwise (LexLe dir) ↔
      MonotoneOn ((fun x => lexKey dir (key x)) ∘ v) (Set.Ico 0 (0 + n)) := by
  constructor
  · rintro h i ⟨-, hi⟩ j ⟨-, hj⟩ hij
    rw [List.pairwise_iff_getElem] at h
    rcases Nat.lt_or_eq_of_le hij with hlt | rfl
    · have hle := h i j (by simp [keyPairs]; omega) (by simp [keyPairs]; omega) hlt
      simp only [keyPairs, List.getElem_map, List.getElem_range] at hle
      exact lexKey_le_iff.mpr hle
    · exact le_rfl
  · intro h
    rw [keyPairs_eq_map, List.map_map]
    refine pairwise_range'_map fun i j hi hij hj => ?_
    exact lexKey_le_iff.mp (h ⟨hi, by omega⟩ ⟨by omega, hj⟩ hij)

lemma mergeSort_lexLe_eq {dir : Dir × Dir} {xs ys : List (ℤ × ℤ)}
    (hx : xs.Pairwise (LexLe dir)) (h : xs.Perm ys) :
    ys.mergeSort (fun p q => LexLe dir p q) = xs := by
  refine eq_of_perm_of_lexSorted dir ?_ hx ((List.mergeSort_perm _ _).trans h.symm)
  have hs := @List.pairwise_mergeSort _ (fun p q => decide (LexLe dir p q))
    (fun a b c hab hbc => decide_eq_true ((of_decide_eq_true hab).trans (of_decide_eq_true hbc)))
    (fun a b => by simpa using LexLe.total dir a b) ys
  exact hs.imp fun {p q} hpq => of_decide_eq_true hpq

section SubSort

variable {view : Mem ι → ℕ → α} {swap : Dir × Dir → α → α → Bool} {key : α → ℤ × ℤ}

/-- The network sorts its halves as `sortedHalfPairs` does. -/
lemma keyPairs_sortedHalves
    (hf : SwapFamily swap (fun dir x => lexKey dir (key x)) (.ascending, .ascending)
      (.descending, .descending)) (e : ℕ) (v : ℕ → α) :
    keyPairs key (2 ^ (e + 1))
        (sortedHalves swap (.ascending, .ascending) (.descending, .descending) e 0 v) =
      sortedHalfPairs (keyPairs key (2 ^ (e + 1)) v) := by
  have hp : 2 ^ (e + 1) = 2 ^ e + 2 ^ e := by ring
  set u := sortNet swap (.ascending, .ascending) (.descending, .descending) e 0
    (.ascending, .ascending) v with hu
  set w := sortedHalves swap (.ascending, .ascending) (.descending, .descending) e 0 v with hw
  have hwu : w = sortNet swap (.ascending, .ascending) (.descending, .descending) e (0 + 2 ^ e)
    (.descending, .descending) u := rfl
  have hup := sortNet_sorted hf e 0 (.ascending, .ascending) (.inl rfl) v
  have hdown := sortNet_sorted hf e (0 + 2 ^ e) (.descending, .descending) (.inr rfl) u
  rw [← hu] at hup
  rw [← hwu] at hdown
  have hpu := sortNet_permOn swap (.ascending, .ascending) (.descending, .descending) e 0
    (.ascending, .ascending) v
  have hpw := sortNet_permOn swap (.ascending, .ascending) (.descending, .descending) e
    (0 + 2 ^ e) (.descending, .descending) u
  rw [← hu] at hpu
  rw [← hwu] at hpw
  -- each half of `w` is sorted and holds the pairs of that half of `v`
  have hlower : ((List.range' 0 (2 ^ e)).map v |>.map key).mergeSort
      (fun p q => LexLe (.ascending, .ascending) p q) =
        ((List.range' 0 (2 ^ e)).map w).map key := by
    have hsame : (List.range' 0 (2 ^ e)).map w = (List.range' 0 (2 ^ e)).map u :=
      map_range'_congr fun i _ hi => sortedHalves_lower e 0 v hi
    rw [hsame]
    refine mergeSort_lexLe_eq ?_ (hpu.list_perm.map key)
    rw [List.map_map]
    refine pairwise_range'_map fun i j hi hij hj => ?_
    exact lexKey_le_iff.mp (hup ⟨hi, by omega⟩ ⟨by omega, hj⟩ hij)
  have hupper : ((List.range' (0 + 2 ^ e) (2 ^ e)).map v |>.map key).mergeSort
      (fun p q => LexLe (.descending, .descending) p q) =
        ((List.range' (0 + 2 ^ e) (2 ^ e)).map w).map key := by
    have hsame : (List.range' (0 + 2 ^ e) (2 ^ e)).map v =
        (List.range' (0 + 2 ^ e) (2 ^ e)).map u :=
      map_range'_congr fun i hi _ => (hpu.frame (by omega)).symm
    rw [hsame]
    refine mergeSort_lexLe_eq ?_ (hpw.list_perm.map key)
    rw [List.map_map]
    refine pairwise_range'_map fun i j hi hij hj => ?_
    exact lexKey_le_iff.mp (hdown ⟨hi, by omega⟩ ⟨by omega, hj⟩ hij)
  have hcut : ∀ f : ℕ → α, keyPairs key (2 ^ (e + 1)) f =
      ((List.range' 0 (2 ^ e)).map f).map key ++
        ((List.range' (0 + 2 ^ e) (2 ^ e)).map f).map key := by
    intro f
    rw [keyPairs_eq_map, hp, ← List.range'_append_1, List.map_append, List.map_append]
  have hhalf : (keyPairs key (2 ^ (e + 1)) v).length / 2 =
      (((List.range' 0 (2 ^ e)).map v).map key).length := by
    simp only [keyPairs, List.length_map, List.length_range, List.length_range']
    omega
  rw [sortedHalfPairs, hhalf, hcut v, List.take_left, List.drop_left, hlower, hupper, hcut w]

variable (key) in
lemma bitonicSubSort_lexSorted_iff {cas : Dir × Dir → ℕ → ℕ → Traced ι Unit}
    (himpl : ∀ d, Implements view (swap d) (cas d))
    (hf : SwapFamily swap (fun dir x => lexKey dir (key x)) (.ascending, .ascending)
      (.descending, .descending)) (k : ℕ) (dir : Dir × Dir) (m : Mem ι) :
    (keyPairs key (2 ^ k) (view ((bitonicSubSort cas (.ascending, .ascending)
        (.descending, .descending) 0 (2 ^ k) dir).exec m))).Pairwise (LexLe dir) ↔
      HalvesBalanced k dir (keyPairs key (2 ^ k) (view m)) := by
  rw [bitonicSubSort_view himpl]
  cases k with
  | zero =>
    refine ⟨fun _ x j hj => by omega, fun _ => ?_⟩
    simp [keyPairs]
  | succ e =>
    rw [keyPairs_lexSorted_iff, sortNet_sorted_iff hf e 0 dir (view m), HalvesBalanced,
      (lexKey_surjective dir).forall]
    refine forall_congr' fun x => balanced_congr fun t ht => ?_
    rw [← keyPairs_sortedHalves hf e (view m), Nat.zero_add, getD_keyPairs key ht]
    exact decide_eq_decide.mpr lexKey_le_iff

variable (key) in
lemma bitonicSubSort_lexSorted_of_eq {cas : Dir × Dir → ℕ → ℕ → Traced ι Unit}
    (himpl : ∀ d, Implements view (swap d) (cas d))
    (hf : SwapFamily swap (fun dir x => lexKey dir (key x)) (.ascending, .ascending)
      (.descending, .descending)) (k : ℕ) (dir : Dir) (m : Mem ι) :
    (keyPairs key (2 ^ k) (view ((bitonicSubSort cas (.ascending, .ascending)
        (.descending, .descending) 0 (2 ^ k) (dir, dir)).exec m))).Pairwise
          (LexLe (dir, dir)) := by
  rw [bitonicSubSort_view himpl, keyPairs_lexSorted_iff]
  refine sortNet_sorted hf k 0 (dir, dir) ?_ (view m)
  cases dir with
  | ascending => exact .inl rfl
  | descending => exact .inr rfl

lemma bitonicSubSort_perm {cas : Dir × Dir → ℕ → ℕ → Traced ι Unit}
    (himpl : ∀ d, Implements view (swap d) (cas d)) (up down : Dir × Dir) (k : ℕ)
    (dir : Dir × Dir) (m : Mem ι) :
    ((List.range' 0 (2 ^ k)).map
        (view ((bitonicSubSort cas up down 0 (2 ^ k) dir).exec m))).Perm
      ((List.range' 0 (2 ^ k)).map (view m)) := by
  rw [bitonicSubSort_view himpl]
  exact (sortNet_permOn swap up down k 0 dir (view m)).list_perm

end SubSort

/-- The key pairs are in the order of the two directions, and are those of the other
arrangement. -/
def LexSortedAs (key : α → ℤ × ℤ) (n : ℕ) (dir : Dir × Dir) (v w : ℕ → α) : Prop :=
  (keyPairs key n v).Pairwise (LexLe dir) ∧ keyPairs key n v = keyPairs key n w

lemma lexSortedAs_iff {key : α → ℤ × ℤ} {n : ℕ} {dir : Dir × Dir} {v w u : ℕ → α}
    (hv : (keyPairs key n v).Perm (keyPairs key n u))
    (hw : (keyPairs key n w).Pairwise (LexLe dir) ∧
      (keyPairs key n w).Perm (keyPairs key n u)) :
    LexSortedAs key n dir v w ↔ (keyPairs key n v).Pairwise (LexLe dir) :=
  ⟨fun h => h.1, fun h => ⟨h, eq_of_perm_of_lexSorted _ h hw.1 (hv.trans hw.2.symm)⟩⟩

section Agreement

variable [DecidableEq ι]

/-- The two-key bitonic sort of blocks agrees with the merge sort exactly on the inputs
whose sorted halves are balanced. -/
theorem bitonicSortGeneral_agrees_iff (k : ℕ) (dir : Dir × Dir) (m : Mem ι) (arr : ι)
    (blockSz key1Idx key2Idx : ℕ) (h1 : key1Idx < blockSz) (h2 : key2Idx < blockSz) :
    (∃ sort, bitonicSortGeneral arr (2 ^ k) blockSz key1Idx dir.1 key2Idx dir.2 = some sort ∧
      LexSortedAs (keyPair key1Idx key2Idx) (2 ^ k) dir (readBlock arr blockSz (sort.exec m))
        (readBlock arr blockSz
          ((mergeSortGeneral arr (2 ^ k) blockSz key1Idx dir.1 key2Idx dir.2).exec m))) ↔
      HalvesBalanced k dir (keyPairs (keyPair key1Idx key2Idx) (2 ^ k)
        (readBlock arr blockSz m)) := by
  have himpl := compAndSwapGeneral_implements arr h1 h2
  have hmerge := mergeSubSort_keyPairs (blockElement_lawful arr blockSz)
    (keyPair key1Idx key2Idx) dir (fun x y => takeLeftTwoKey_iff dir _ _ _ _) (2 ^ k)
    (Nat.two_pow_pos k) m
  have hperm := (bitonicSubSort_perm himpl (.ascending, .ascending) (.descending, .descending)
    k dir m).map (keyPair key1Idx key2Idx)
  rw [← keyPairs_eq_map, ← keyPairs_eq_map] at hperm
  rw [← bitonicSubSort_lexSorted_iff _ himpl (swapTwoKey_family key1Idx key2Idx) k dir m,
    ← lexSortedAs_iff hperm hmerge, bitonicSortGeneral, if_pos (checkPowerOfTwo_two_pow k)]
  simp only [Option.some.injEq, exists_eq_left']
  rfl

/-- The two-key bitonic sort of two arrays agrees with the merge sort exactly on the inputs
whose sorted halves are balanced. -/
theorem bitonicSortTwoArrayTwoKey_agrees_iff (k : ℕ) (dir : Dir × Dir) (m : Mem ι)
    (main aux : ι) (hne : main ≠ aux) (key1Idx key2Idx blockSzMain blockSzAux : ℕ)
    (h1 : key1Idx < blockSzMain) (h2 : key2Idx < blockSzMain) :
    (∃ sort, bitonicSortTwoArrayTwoKey main aux (2 ^ k) key1Idx dir.1 key2Idx dir.2
        blockSzMain blockSzAux = some sort ∧
      LexSortedAs (keyPair key1Idx key2Idx) (2 ^ k) dir
        (readBlock main blockSzMain (sort.exec m))
        (readBlock main blockSzMain
          ((mergeSortTwoArrayTwoKey main aux (2 ^ k) key1Idx dir.1 key2Idx dir.2 blockSzMain
            blockSzAux).exec m))) ↔
      HalvesBalanced k dir (keyPairs (keyPair key1Idx key2Idx) (2 ^ k)
        (readBlock main blockSzMain m)) := by
  have himpl := compAndSwapTwoArrayTwoKey_implements hne blockSzAux h1 h2
  have hfam := (swapTwoKey_family key1Idx key2Idx).comap (Prod.fst : List ℤ × List ℤ → List ℤ)
  have hmerge := mergeSubSort_keyPairs (twoArrayElement_lawful hne blockSzMain blockSzAux)
    (fun b => keyPair key1Idx key2Idx b.1) dir (fun x y => takeLeftTwoKey_iff dir _ _ _ _)
    (2 ^ k) (Nat.two_pow_pos k) m
  have hperm := (bitonicSubSort_perm himpl (.ascending, .ascending) (.descending, .descending)
    k dir m).map (fun b => keyPair key1Idx key2Idx b.1)
  rw [← keyPairs_eq_map, ← keyPairs_eq_map] at hperm
  have hiff := bitonicSubSort_lexSorted_iff (fun b => keyPair key1Idx key2Idx b.1) himpl
    hfam k dir m
  rw [← lexSortedAs_iff hperm hmerge] at hiff
  rw [bitonicSortTwoArrayTwoKey, if_pos (checkPowerOfTwo_two_pow k)]
  simp only [Option.some.injEq, exists_eq_left']
  exact hiff

end Agreement

/-- The key pairs (0, 0), (0, 1), (1, 0), (0, 1) in the main array. -/
def tiedKeys : Mem (Fin 2) where
  get a i := if a = 0 then [0, 0, 0, 1, 1, 0, 0, 1].getD i 0 else 0

theorem bitonicSortTwoArrayTwoKey_agrees_tiedKeys :
    (∃ sort, bitonicSortTwoArrayTwoKey (0 : Fin 2) 1 (2 ^ 2) 0 .ascending 1 .descending 2 1 =
        some sort ∧
      LexSortedAs (keyPair 0 1) (2 ^ 2) (.ascending, .descending)
        (readBlock 0 2 (sort.exec tiedKeys))
        (readBlock 0 2 ((mergeSortTwoArrayTwoKey (0 : Fin 2) 1 (2 ^ 2) 0 .ascending 1 .descending
          2 1).exec tiedKeys))) ↔
      HalvesBalanced 2 (.ascending, .descending)
        (keyPairs (keyPair 0 1) (2 ^ 2) (readBlock 0 2 tiedKeys)) :=
  bitonicSortTwoArrayTwoKey_agrees_iff 2 (.ascending, .descending) tiedKeys 0 1 (by decide) 0 1 2 1
    (by decide) (by decide)

theorem bitonicSortGeneral_agrees_tiedKeys :
    (∃ sort, bitonicSortGeneral (0 : Fin 2) (2 ^ 2) 2 0 .ascending 1 .descending = some sort ∧
      LexSortedAs (keyPair 0 1) (2 ^ 2) (.ascending, .descending)
        (readBlock 0 2 (sort.exec tiedKeys)) (readBlock 0 2
          ((mergeSortGeneral (0 : Fin 2) (2 ^ 2) 2 0 .ascending 1 .descending).exec tiedKeys))) ↔
      HalvesBalanced 2 (.ascending, .descending)
        (keyPairs (keyPair 0 1) (2 ^ 2) (readBlock 0 2 tiedKeys)) :=
  bitonicSortGeneral_agrees_iff 2 (.ascending, .descending) tiedKeys 0 2 0 1 (by decide) (by decide)

/-- On these four pairs the first key up and the second down are not sorted. -/
theorem bitonicSortTwoArrayTwoKey_tiedKeys_unsorted :
    ¬∃ sort, bitonicSortTwoArrayTwoKey (0 : Fin 2) 1 4 0 .ascending 1 .descending 2 1 =
        some sort ∧
      LexSortedAs (keyPair 0 1) 4 (.ascending, .descending)
        (readBlock 0 2 (sort.exec tiedKeys))
        (readBlock 0 2 ((mergeSortTwoArrayTwoKey (0 : Fin 2) 1 4 0 .ascending 1 .descending
          2 1).exec tiedKeys)) := by
  rintro ⟨sort, hsort, hsorted, -⟩
  have hlen : checkPowerOfTwo 4 = true := checkPowerOfTwo_two_pow 2
  rw [bitonicSortTwoArrayTwoKey, if_pos hlen] at hsort
  obtain rfl := Option.some.inj hsort
  revert hsorted
  decide +kernel

end OISA.Primitives
