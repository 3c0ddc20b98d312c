import OISA.Proofs.OramEvict
import OISA.Proofs.TwoKeySorting

/-!
# Writing a path back

The sort brings the slots into the order of their keys, dummies before valid slots without a
place.
-/

namespace OISA.Primitives

open OISA.Lib OISA.Lib.Traced

def Slot.ofPair (b : List ℤ × List ℤ) : Slot :=
  ⟨b.1.getD 0 0, b.1.getD 1 0, b.1.getD 2 0, b.1.getD 3 0, b.2⟩

/-- The sort order of the stash: by key, then by validity. -/
def Slot.Le (s s' : Slot) : Prop :=
  LexLe (.ascending, .ascending) (s.key, s.valid) (s'.key, s'.valid)

def Slot.stays (s : Slot) : Bool := maxInt < s.key ∨ (s.key = maxInt ∧ 0 < s.valid)

variable (p : OramParams)

def Oram.slots (o : Oram) : List Slot := (List.range p.stashSize).map o.slot

def Oram.stay (o : Oram) : ℕ := (o.slots p).countP Slot.stays

lemma slots_ofMem (m : Mem OramArr) : (Oram.ofMem p m).slots p =
    ((List.range' 0 p.stashSize).map
      (readPair .stashInfo .stashData 4 p.blockSize m)).map Slot.ofPair := by
  rw [Oram.slots, List.range_eq_range', List.map_map]
  rfl

structure StashSorted (o o' : Oram) : Prop where
  perm : (o'.slots p).Perm (o.slots p)
  sorted : ∀ i j, i ≤ j → j < p.stashSize → (o'.slot i).Le (o'.slot j)
  tree : o'.tree = o.tree
  entry : o'.entry = o.entry
  buffer : o'.buffer = o.buffer

lemma ofMem_of_keeps {x : Traced OramArr Unit}
    (h : ∀ a, a ≠ .stashInfo → a ≠ .stashData → Keeps x a) (m : Mem OramArr) :
    (Oram.ofMem p (x.exec m)).tree = (Oram.ofMem p m).tree ∧
      (Oram.ofMem p (x.exec m)).entry = (Oram.ofMem p m).entry ∧
      (Oram.ofMem p (x.exec m)).buffer = (Oram.ofMem p m).buffer := by
  have htree := h .tree (by decide) (by decide) m
  have hpos := h .posMap (by decide) (by decide) m
  have hdata := h .data (by decide) (by decide) m
  refine ⟨?_, ?_, ?_⟩
  · simp only [Oram.ofMem, htree]
  · simp only [Oram.ofMem, hpos]
  · simp only [Oram.ofMem, hdata]

lemma stashSorted_of_view {x : Traced OramArr Unit} (m : Mem OramArr)
    (hkeeps : ∀ a, a ≠ .stashInfo → a ≠ .stashData → Keeps x a)
    (hperm : ((List.range' 0 p.stashSize).map
        (readPair .stashInfo .stashData 4 p.blockSize (x.exec m))).Perm
      ((List.range' 0 p.stashSize).map (readPair .stashInfo .stashData 4 p.blockSize m)))
    (hsorted : (keyPairs (fun b => keyPair 0 1 b.1) p.stashSize
      (readPair .stashInfo .stashData 4 p.blockSize (x.exec m))).Pairwise
        (LexLe (.ascending, .ascending))) :
    StashSorted p (Oram.ofMem p m) (Oram.ofMem p (x.exec m)) := by
  obtain ⟨htree, hentry, hbuffer⟩ := ofMem_of_keeps p hkeeps m
  refine ⟨?_, fun i j hij hj => ?_, htree, hentry, hbuffer⟩
  · rw [slots_ofMem, slots_ofMem]
    exact hperm.map Slot.ofPair
  · rw [keyPairs_lexSorted_iff] at hsorted
    exact lexKey_le_iff.mp (hsorted ⟨by omega, by omega⟩ ⟨by omega, by omega⟩ hij)

lemma sortStash_sorted : ∃ sort, sortStash p = some sort ∧
    ∀ m, StashSorted p (Oram.ofMem p m) (Oram.ofMem p (sort.exec m)) := by
  have hne : OramArr.stashInfo ≠ .stashData := by decide
  cases hscheme : p.sortScheme with
  | mergeSort =>
    refine ⟨_, by rw [sortStash, hscheme], fun m => ?_⟩
    have hpos : 0 < p.stashSize := Nat.two_pow_pos _
    have hlaw := twoArrayElement_lawful hne 4 p.blockSize
    have hkeys := mergeSubSort_keyPairs hlaw (fun b => keyPair 0 1 b.1)
      (.ascending, .ascending) (fun x y => takeLeftTwoKey_iff _ _ _ _ _) p.stashSize hpos m
    have hperm := mergeSubSort_perm hlaw (fun b => keyPair 0 1 b.1)
      (.ascending, .ascending) (fun x y => takeLeftTwoKey_iff _ _ _ _ _) p.stashSize hpos m
    exact stashSorted_of_view p m
      (fun a h1 h2 => keeps_mergeSortTwoArrayTwoKey h1 h2 _ _ _ _ _ _ _) hperm hkeys.1
  | bitonicSort =>
    have hpow : p.stashSize = 2 ^ roundExpt (p.bucketSize * p.depth + p.C) := rfl
    have hcheck : checkPowerOfTwo p.stashSize = true := by
      rw [hpow]
      exact checkPowerOfTwo_two_pow _
    refine ⟨_, by rw [sortStash, hscheme, bitonicSortTwoArrayTwoKey, if_pos hcheck],
      fun m => ?_⟩
    have himpl := compAndSwapTwoArrayTwoKey_implements hne p.blockSize
      (by decide : 0 < 4) (by decide : 1 < 4)
    have hfam := (swapTwoKey_family 0 1).comap (Prod.fst : List ℤ × List ℤ → List ℤ)
    have hkeys := bitonicSubSort_lexSorted_of_eq (fun b => keyPair 0 1 b.1) himpl hfam
      (roundExpt (p.bucketSize * p.depth + p.C)) .ascending m
    have hperm := bitonicSubSort_perm himpl (.ascending, .ascending) (.descending, .descending)
      (roundExpt (p.bucketSize * p.depth + p.C)) (.ascending, .ascending) m
    exact stashSorted_of_view p m (fun a h1 h2 => keeps_bitonicSubSort
      (fun d i j => keeps_compAndSwapTwoArrayTwoKey h1 h2 _ _ _ _ d i j) _ _ _ _ _) hperm hkeys

lemma mem_slots (o : Oram) (x : Slot) : x ∈ o.slots p ↔ ∃ j < p.stashSize, o.slot j = x := by
  simp [Oram.slots]

lemma stashBlocks_eq_sum (o : Oram) : o.stashBlocks p = ((o.slots p).map Slot.block).sum := by
  rw [Oram.slots, List.map_map]
  rfl

variable {p}

lemma StashSorted.blocks {o o' : Oram} (h : StashSorted p o o') : o'.blocks p = o.blocks p := by
  rw [Oram.blocks, Oram.blocks, stashBlocks_eq_sum, stashBlocks_eq_sum,
    (h.perm.map Slot.block).sum_eq, Oram.treeBlocks, Oram.treeBlocks, h.tree]

lemma StashSorted.stay {o o' : Oram} (h : StashSorted p o o') : o'.stay p = o.stay p :=
  h.perm.countP_eq _

lemma StashSorted.forall_slot {o o' : Oram} (h : StashSorted p o o') {P : Slot → Prop}
    (hP : ∀ j < p.stashSize, P (o.slot j)) : ∀ j < p.stashSize, P (o'.slot j) := by
  intro j hj
  obtain ⟨i, hi, heq⟩ := (mem_slots p o _).mp
    (h.perm.mem_iff.mp ((mem_slots p o' _).mpr ⟨j, hj, rfl⟩))
  rw [← heq]
  exact hP i hi

lemma distinct_iff (o : Oram) :
    (∀ j < p.stashSize, ∀ j' < p.stashSize, j ≠ j' → (o.slot j).key = (o.slot j').key →
      (o.slot j).key = maxInt) ↔
    (o.slots p).Pairwise fun s s' => s.key = s'.key → s.key = maxInt := by
  rw [Oram.slots, List.pairwise_map]
  constructor
  · intro h
    refine List.Pairwise.imp_of_mem (fun {i j} hi hj hij => ?_) List.pairwise_lt_range
    rw [List.mem_range] at hi hj
    exact h i hi j hj (Nat.ne_of_lt hij)
  · intro h i hi j hj hne heq
    rw [List.pairwise_iff_getElem] at h
    rcases Nat.lt_or_gt_of_ne hne with hlt | hgt
    · have hij := h i j (by simpa using hi) (by simpa using hj) hlt
      simp only [List.getElem_range] at hij
      exact hij heq
    · have hji := h j i (by simpa using hj) (by simpa using hi) hgt
      simp only [List.getElem_range] at hji
      rw [heq]
      exact hji heq.symm

lemma StashSorted.distinct {o o' : Oram} (h : StashSorted p o o')
    (hd : ∀ j < p.stashSize, ∀ j' < p.stashSize, j ≠ j' → (o.slot j).key = (o.slot j').key →
      (o.slot j).key = maxInt) :
    ∀ j < p.stashSize, ∀ j' < p.stashSize, j ≠ j' → (o'.slot j).key = (o'.slot j').key →
      (o'.slot j).key = maxInt := by
  rw [distinct_iff] at hd ⊢
  refine (h.perm.pairwise_iff fun {s s'} hs heq => ?_).mpr hd
  rw [heq]
  exact hs heq.symm

lemma Slot.Le.stays {s s' : Slot} (h : s.Le s') (hs : s.stays = true) : s'.stays = true := by
  unfold Slot.stays at hs ⊢
  unfold Slot.Le LexLe Dir.Le at h
  simp only [decide_eq_true_eq] at hs ⊢
  omega

lemma Slot.key_lt_of_not_stays {s : Slot} (hs : s.stays = false) (hv : s.valid = 1) :
    s.key < maxInt := by
  unfold Slot.stays at hs
  rw [decide_eq_false_iff_not] at hs
  omega

lemma StashSorted.not_stays {o o' : Oram} (h : StashSorted p o o') {n : ℕ}
    (hstay : n + o.stay p ≤ p.stashSize) {q : ℕ} (hq : q < n) : (o'.slot q).stays = false := by
  by_contra hs
  rw [Bool.not_eq_false] at hs
  rw [← h.stay, Oram.stay] at hstay
  have hsplit : List.range p.stashSize =
      List.range' 0 q ++ List.range' (0 + q) (p.stashSize - q) := by
    rw [List.range'_append_1, List.range_eq_range']
    congr 1
    omega
  have hcount : p.stashSize - q ≤ (o'.slots p).countP Slot.stays := by
    rw [Oram.slots, List.countP_map, hsplit, List.countP_append]
    have htail : (List.range' (0 + q) (p.stashSize - q)).countP (Slot.stays ∘ o'.slot) =
        (List.range' (0 + q) (p.stashSize - q)).length := by
      rw [List.countP_eq_length]
      intro j hj
      rw [List.mem_range'_1] at hj
      exact (h.sorted q j (by omega) (by omega)).stays hs
    rw [htail, List.length_range']
    omega
  omega

lemma StashSorted.le_key {o o' : Oram} (h : StashSorted p o o') {accessLeaf : ℕ} {o₀ : Oram}
    (hk : Keyed p accessLeaf o₀ o) {i : ℕ} (hi : i < p.stashSize)
    (hlt : (o'.slot i).key < maxInt) : (i : ℤ) ≤ (o'.slot i).key := by
  have hnonneg : ∀ j < p.stashSize, (o'.slot j).key = maxInt ∨ 0 ≤ (o'.slot j).key :=
    h.forall_slot (P := fun s => s.key = maxInt ∨ 0 ≤ s.key) fun j hj =>
      (hk.keys j hj).imp id fun ⟨q, _, hkey, _⟩ => by rw [hkey]; exact Int.natCast_nonneg q
  induction i with
  | zero =>
    rcases hnonneg 0 hi with hmax | h0
    · rw [hmax] at hlt
      exact absurd hlt (lt_irrefl _)
    · exact h0
  | succ i ih =>
    have hle := h.sorted i (i + 1) (by omega) hi
    have hkeys : (o'.slot i).key ≤ (o'.slot (i + 1)).key := by
      unfold Slot.Le LexLe Dir.Le at hle
      simp only at hle
      omega
    have hprev := ih (by omega) (by omega)
    have hne : (o'.slot i).key ≠ (o'.slot (i + 1)).key := by
      intro heq
      have hmax := h.distinct hk.distinct i (by omega) (i + 1) hi (by omega) heq
      omega
    push_cast
    omega

/-- What the first `q` block moves of a write back have done to `o`. -/
structure WrittenUpTo (p : OramParams) (leaf : ℕ) (o : Oram) (q : ℕ) (o' : Oram) : Prop where
  blocks : o'.blocks p = o.blocks p
  slots : ∀ i, q ≤ i → o'.slot i = o.slot i
  cleared : ∀ i < q, (o'.slot i).valid = 0
  tree : ∀ t, (∀ q' < q, t ≠ pathPos p leaf q') → o'.tree t = o.tree t
  placed : ∀ q' < q, o'.tree (pathPos p leaf q') =
    ⟨(o.slot q').valid, (o.slot q').id, (o.slot q').leaf, (o.slot q').data⟩
  entry : o'.entry = o.entry
  buffer : o'.buffer = o.buffer

lemma writeBackPath_written {leaf : ℕ} (hleaf : leaf < p.numLeaves) (m : Mem OramArr)
    (hempty : ∀ q < p.depth * p.bucketSize,
      ((Oram.ofMem p m).tree (pathPos p leaf q)).valid = 0) :
    WrittenUpTo p leaf (Oram.ofMem p m) (p.depth * p.bucketSize)
      (Oram.ofMem p ((writeBackPath p leaf).exec m)) := by
  refine walkLoop_invariant p (writeBackBlock p) leaf
    (fun q m' => WrittenUpTo p leaf (Oram.ofMem p m) q (Oram.ofMem p m')) m
    ⟨rfl, fun _ _ => rfl, fun _ h => by omega, fun _ _ => rfl, fun _ h => by omega, rfl, rfl⟩
    (fun q hq m' h => ?_)
  rw [ofMem_writeBackBlock]
  set o := Oram.ofMem p m
  set o' := Oram.ofMem p m'
  have hpos := pathPos_lt hleaf hq
  have hstash := p.pathLen_lt_stashSize
  have hfresh : o'.tree (pathPos p leaf q) = o.tree (pathPos p leaf q) :=
    h.tree _ fun q' hq' heq => by
      have := pathPos_inj hleaf hq (by omega) heq
      omega
  have hslot : o'.slot q = o.slot q := h.slots q le_rfl
  have hnone : (o'.tree (pathPos p leaf q)).valid = 0 := by rw [hfresh]; exact hempty q hq
  refine ⟨?_, fun i hi => ?_, fun i hi => ?_, fun t ht => ?_, fun q' hq' => ?_, h.entry, h.buffer⟩
  · rw [Oram.blocks_putBack p o' hpos (by omega) hnone, h.blocks]
  · rw [Oram.putBack, Oram.setSlot_slot_of_ne _ _ _ (by omega), Oram.setTree_slot]
    exact h.slots i (by omega)
  · rw [Oram.putBack]
    by_cases hiq : i = q
    · subst hiq
      rw [Oram.setSlot_slot_self]
    · rw [Oram.setSlot_slot_of_ne _ _ _ hiq, Oram.setTree_slot]
      exact h.cleared i (by omega)
  · have hne := ht q (by omega)
    rw [Oram.putBack, Oram.setSlot_tree, Oram.setTree_tree_of_ne _ _ _ hne]
    exact h.tree t fun q' hq' => ht q' (by omega)
  · rw [Oram.putBack, Oram.setSlot_tree]
    by_cases hqq : q' = q
    · subst hqq
      rw [Oram.setTree_tree_self, hslot]
    · have hne : pathPos p leaf q' ≠ pathPos p leaf q := fun heq =>
        hqq (pathPos_inj hleaf (by omega) hq heq)
      rw [Oram.setTree_tree_of_ne _ _ _ hne]
      exact h.placed q' (by omega)

/-- What `Store_Blocks` does to `o` when no more slots sort behind the dummies than there is
room for behind the path. -/
structure Stored (p : OramParams) (leaf : ℕ) (o o' : Oram) : Prop where
  blocks : o'.blocks p = o.blocks p
  cleared : ∀ i < p.depth * p.bucketSize, (o'.slot i).valid = 0
  flags : ∀ i < p.stashSize, (o'.slot i).valid = 0 ∨ (o'.slot i).valid = 1
  tree : ∀ t, (∀ q < p.depth * p.bucketSize, t ≠ pathPos p leaf q) → o'.tree t = o.tree t
  onPath : ∀ q < p.depth * p.bucketSize, (o'.tree (pathPos p leaf q)).valid ≠ 0 →
    (o'.tree (pathPos p leaf q)).valid = 1 ∧
    walkBucket p (o'.tree (pathPos p leaf q)).leaf.toNat (q / p.bucketSize) =
      walkBucket p leaf (q / p.bucketSize)
  flagsTree : ∀ q < p.depth * p.bucketSize, (o'.tree (pathPos p leaf q)).valid = 0 ∨
    (o'.tree (pathPos p leaf q)).valid = 1
  entry : o'.entry = o.entry
  buffer : o'.buffer = o.buffer

lemma Keyed.stashBlocks {accessLeaf : ℕ} {o o' : Oram} (h : Keyed p accessLeaf o o') :
    o'.blocks p = o.blocks p := by
  rw [Oram.blocks, Oram.blocks, Oram.stashBlocks, Oram.stashBlocks, Oram.treeBlocks,
    Oram.treeBlocks, h.same.tree]
  congr 1
  exact Finset.sum_congr rfl fun j _ => h.same.block j

lemma bucket_of_sorted {leaf : ℕ} (hleaf : leaf < p.numLeaves) {o o₁ o₂ : Oram}
    (hk : Keyed p leaf o o₁) (hs : StashSorted p o₁ o₂)
    (hflags : ∀ i < p.stashSize, (o.slot i).valid = 0 ∨ (o.slot i).valid = 1)
    (hlabels : ∀ i < p.stashSize, (o.slot i).valid ≠ 0 →
      ∃ a < p.numLeaves, (o.slot i).leaf = (a : ℤ))
    (hstay : p.depth * p.bucketSize + o₁.stay p ≤ p.stashSize) {q : ℕ}
    (hq : q < p.depth * p.bucketSize) (hv : (o₂.slot q).valid ≠ 0) :
    walkBucket p (o₂.slot q).leaf.toNat (q / p.bucketSize) =
      walkBucket p leaf (q / p.bucketSize) := by
  have hstash := p.pathLen_lt_stashSize
  have hZ := p.bucketSize_pos
  have hfront := hs.not_stays hstay hq
  -- what holds of every slot before the sort
  have hall := hs.forall_slot (P := fun s => (s.valid = 0 ∨ s.valid = 1) ∧
      (s.key = maxInt ∨ ∃ x < p.depth * p.bucketSize, s.key = (x : ℤ) ∧
        (s.valid ≠ 0 → SharesLevel p leaf s.leaf (x / p.bucketSize))) ∧
      (s.valid ≠ 0 → ∃ a < p.numLeaves, s.leaf = (a : ℤ)))
    (fun j hj => ⟨by rw [hk.same.valid]; exact hflags j hj, hk.keys j hj,
      by rw [hk.same.valid, hk.same.leaf]; exact hlabels j hj⟩) q (by omega)
  obtain ⟨hflag, hkey, hlabel⟩ := hall
  obtain ⟨a, ha, hlf⟩ := hlabel hv
  have hlt := Slot.key_lt_of_not_stays hfront (hflag.resolve_left hv)
  rcases hkey with hmax | ⟨x, hx, hxkey, hshare⟩
  · rw [hmax] at hlt
    exact absurd hlt (lt_irrefl _)
  have hle := hs.le_key hk (by omega) hlt
  rw [hxkey] at hle
  have hqx : q / p.bucketSize ≤ x / p.bucketSize := Nat.div_le_div_right (by omega)
  have hcommon := hshare hv
  rw [hlf] at hcommon ⊢
  rw [Int.toNat_natCast]
  exact walkBucket_eq_above ha hleaf (p.level_lt hx) hqx
    (walkBucket_eq_of_diff hleaf ha (p.level_lt hx) hcommon).symm

variable (p)

lemma storeBlocks_stored {leaf : ℕ} (hleaf : leaf < p.numLeaves) :
    ∃ store, storeBlocks p leaf = some store ∧ ∀ m,
      (∀ q < p.depth * p.bucketSize, ((Oram.ofMem p m).tree (pathPos p leaf q)).valid = 0) →
      (∀ i < p.stashSize, ((Oram.ofMem p m).slot i).valid = 0 ∨
        ((Oram.ofMem p m).slot i).valid = 1) →
      (∀ i < p.stashSize, ((Oram.ofMem p m).slot i).valid ≠ 0 →
        ∃ a < p.numLeaves, ((Oram.ofMem p m).slot i).leaf = (a : ℤ)) →
      p.depth * p.bucketSize + (Oram.ofMem p ((assignKeys p leaf).exec m)).stay p ≤
        p.stashSize →
      Stored p leaf (Oram.ofMem p m) (Oram.ofMem p (store.exec m)) := by
  obtain ⟨sort, hsort, hsorted⟩ := sortStash_sorted p
  refine ⟨_, by rw [storeBlocks, hsort, Option.map_some], fun m hpath hflags hlabels hstay => ?_⟩
  have hstash := p.pathLen_lt_stashSize
  simp only [exec_bind, exec_pure]
  have hk := assignKeys_keyed p leaf m
  set m₁ := (assignKeys p leaf).exec m
  have hs := hsorted m₁
  set m₂ := sort.exec m₁
  have hpath₂ : ∀ q < p.depth * p.bucketSize,
      ((Oram.ofMem p m₂).tree (pathPos p leaf q)).valid = 0 := by
    intro q hq
    rw [hs.tree, hk.same.tree]
    exact hpath q hq
  have hw := writeBackPath_written hleaf m₂ hpath₂
  have hflags₂ : ∀ i < p.stashSize, ((Oram.ofMem p m₂).slot i).valid = 0 ∨
      ((Oram.ofMem p m₂).slot i).valid = 1 :=
    hs.forall_slot (P := fun s => s.valid = 0 ∨ s.valid = 1) fun j hj => by
      rw [hk.same.valid]
      exact hflags j hj
  refine ⟨?_, hw.cleared, fun i hi => ?_, fun t ht => ?_, fun q hq hv => ?_, fun q hq => ?_, ?_, ?_⟩
  · rw [hw.blocks, hs.blocks, hk.stashBlocks]
  · by_cases hip : i < p.depth * p.bucketSize
    · exact .inl (hw.cleared i hip)
    · rw [hw.slots i (by omega)]
      exact hflags₂ i hi
  · rw [hw.tree t ht, hs.tree, hk.same.tree]
  · rw [hw.placed q hq] at hv ⊢
    refine ⟨(hflags₂ q (by omega)).resolve_left hv, ?_⟩
    exact bucket_of_sorted hleaf hk hs hflags hlabels hstay hq hv
  · rw [hw.placed q hq]
    exact hflags₂ q (by omega)
  · rw [hw.entry, hs.entry, hk.same.entry]
  · rw [hw.buffer, hs.buffer, hk.same.buffer]

end OISA.Primitives
