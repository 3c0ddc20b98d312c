import OISA.Proofs.OramView
import Mathlib.Data.Nat.Bitwise

/-!
# Fetching a path

The blocks of an ORAM are the contents of its valid slots and valid tree blocks, as a multiset.
-/

namespace OISA.Primitives

open OISA.Lib OISA.Lib.Traced

/-- A stored block. -/
@[ext]
structure Block where
  id : ℤ
  leaf : ℤ
  data : List ℤ

def Slot.block (s : Slot) : Multiset Block :=
  if s.valid = 0 then 0 else {⟨s.id, s.leaf, s.data⟩}

def TreeBlock.block (b : TreeBlock) : Multiset Block :=
  if b.valid = 0 then 0 else {⟨b.id, b.leaf, b.data⟩}

variable (p : OramParams)

/-- The number of blocks the tree has room for, the unused bucket 0 included. -/
def OramParams.treeSize : ℕ := 2 ^ p.depth * p.bucketSize

namespace Oram

def stashBlocks (o : Oram) : Multiset Block := ∑ i ∈ Finset.range p.stashSize, (o.slot i).block

def treeBlocks (o : Oram) : Multiset Block := ∑ t ∈ Finset.range p.treeSize, (o.tree t).block

def blocks (o : Oram) : Multiset Block := o.stashBlocks p + o.treeBlocks p

lemma sum_update_add {M : Type} [AddCommMonoid M] (f : ℕ → M) {n i : ℕ} (hi : i < n) (x : M) :
    ∑ j ∈ Finset.range n, Function.update f i x j + f i = ∑ j ∈ Finset.range n, f j + x := by
  have hmem := Finset.mem_range.mpr hi
  rw [Finset.sum_update_of_mem hmem, ← Finset.add_sum_erase _ _ hmem,
    Finset.sdiff_singleton_eq_erase]
  abel

lemma stashBlocks_setSlot (o : Oram) {i : ℕ} (hi : i < p.stashSize) (s : Slot) :
    (o.setSlot i s).stashBlocks p + (o.slot i).block = o.stashBlocks p + s.block := by
  unfold stashBlocks
  rw [← sum_update_add (fun j => (o.slot j).block) hi s.block]
  congr 1
  refine Finset.sum_congr rfl fun j _ => ?_
  by_cases hj : j = i
  · subst hj; simp
  · rw [setSlot_slot_of_ne o i s hj, Function.update_of_ne hj]

lemma treeBlocks_setTree (o : Oram) {t : ℕ} (ht : t < p.treeSize) (b : TreeBlock) :
    (o.setTree t b).treeBlocks p + (o.tree t).block = o.treeBlocks p + b.block := by
  unfold treeBlocks
  rw [← sum_update_add (fun j => (o.tree j).block) ht b.block]
  congr 1
  refine Finset.sum_congr rfl fun u _ => ?_
  by_cases hu : u = t
  · subst hu; simp
  · rw [setTree_tree_of_ne o t b hu, Function.update_of_ne hu]

lemma blocks_fetch (o : Oram) {t s : ℕ} (ht : t < p.treeSize) (hs : s < p.stashSize)
    (hinv : (o.slot s).valid = 0) : (o.fetch t s).blocks p = o.blocks p := by
  have h1 := stashBlocks_setSlot p o hs
    ⟨(o.slot s).key, (o.tree t).valid, (o.tree t).id, (o.tree t).leaf, (o.tree t).data⟩
  have h2 := treeBlocks_setTree p o ht { o.tree t with valid := 0 }
  have hzero : (o.slot s).block = 0 := by simp [Slot.block, hinv]
  have hzero' : TreeBlock.block { o.tree t with valid := 0 } = 0 := by simp [TreeBlock.block]
  rw [hzero, add_zero] at h1
  rw [hzero', add_zero] at h2
  have hstash : (o.fetch t s).stashBlocks p = o.stashBlocks p + (o.tree t).block := h1
  have htree : (o.fetch t s).treeBlocks p + (o.tree t).block = o.treeBlocks p := h2
  rw [blocks, blocks, hstash, ← htree]
  abel

lemma blocks_putBack (o : Oram) {t s : ℕ} (ht : t < p.treeSize) (hs : s < p.stashSize)
    (hinv : (o.tree t).valid = 0) : (o.putBack t s).blocks p = o.blocks p := by
  have h1 := stashBlocks_setSlot p o hs { o.slot s with valid := 0 }
  have h2 := treeBlocks_setTree p o ht
    ⟨(o.slot s).valid, (o.slot s).id, (o.slot s).leaf, (o.slot s).data⟩
  have hzero : (o.tree t).block = 0 := by simp [TreeBlock.block, hinv]
  have hzero' : Slot.block { o.slot s with valid := 0 } = 0 := by simp [Slot.block]
  rw [hzero', add_zero] at h1
  rw [hzero, add_zero] at h2
  have hstash : (o.putBack t s).stashBlocks p + (o.slot s).block = o.stashBlocks p := h1
  have htree : (o.putBack t s).treeBlocks p = o.treeBlocks p + (o.slot s).block := h2
  rw [blocks, blocks, htree, ← hstash]
  abel

end Oram

def pathPos (leaf q : ℕ) : ℕ := walkBucket p leaf (q / p.bucketSize) * p.bucketSize + q % p.bucketSize

lemma OramParams.level_lt {q : ℕ} (hq : q < p.depth * p.bucketSize) :
    q / p.bucketSize < p.depth := by
  rw [Nat.div_lt_iff_lt_mul p.bucketSize_pos]
  exact hq

variable {p}

lemma pathPos_div (leaf q : ℕ) :
    pathPos p leaf q / p.bucketSize = walkBucket p leaf (q / p.bucketSize) := by
  have hZ := p.bucketSize_pos
  rw [pathPos, Nat.mul_comm, Nat.mul_add_div hZ, Nat.div_eq_of_lt (Nat.mod_lt q hZ),
    Nat.add_zero]

lemma pathPos_lt {leaf q : ℕ} (hleaf : leaf < p.numLeaves) (hq : q < p.depth * p.bucketSize) :
    pathPos p leaf q < p.treeSize := by
  have hlevel := p.level_lt hq
  have hbound := (walkBucket_bounds hleaf hlevel).2
  have hpow : 2 ^ (q / p.bucketSize + 1) ≤ 2 ^ p.depth :=
    Nat.pow_le_pow_right (by omega) hlevel
  rw [OramParams.treeSize, ← Nat.div_lt_iff_lt_mul p.bucketSize_pos, pathPos_div]
  omega

lemma pathPos_inj {leaf q q' : ℕ} (hleaf : leaf < p.numLeaves)
    (hq : q < p.depth * p.bucketSize) (hq' : q' < p.depth * p.bucketSize)
    (h : pathPos p leaf q = pathPos p leaf q') : q = q' := by
  have hbucket : walkBucket p leaf (q / p.bucketSize) = walkBucket p leaf (q' / p.bucketSize) := by
    rw [← pathPos_div, ← pathPos_div, h]
  have hlevel := walkBucket_level hleaf hleaf (p.level_lt hq) (p.level_lt hq') hbucket
  have hmod : q % p.bucketSize = q' % p.bucketSize := by
    rw [pathPos, pathPos, hlevel] at h
    omega
  rw [← Nat.div_add_mod q p.bucketSize, ← Nat.div_add_mod q' p.bucketSize, hlevel, hmod]

lemma exists_pathPos {leaf l t : ℕ} (hl : l < p.depth) (ht : t / p.bucketSize = walkBucket p leaf l) :
    ∃ q < p.depth * p.bucketSize, pathPos p leaf q = t := by
  have hZ := p.bucketSize_pos
  have hmod := Nat.mod_lt t hZ
  have hdiv : (l * p.bucketSize + t % p.bucketSize) / p.bucketSize = l := by
    rw [Nat.mul_comm, Nat.mul_add_div hZ, Nat.div_eq_of_lt hmod, Nat.add_zero]
  refine ⟨l * p.bucketSize + t % p.bucketSize, ?_, ?_⟩
  · have hle : (l + 1) * p.bucketSize ≤ p.depth * p.bucketSize := Nat.mul_le_mul_right _ hl
    rw [Nat.add_mul, Nat.one_mul] at hle
    omega
  · rw [pathPos, hdiv, ← ht, Nat.mul_comm l, Nat.mul_add_mod, Nat.mod_mod, Nat.mul_comm]
    exact Nat.div_add_mod t p.bucketSize

variable (p)

lemma walkLoop_invariant (move : ℕ → ℕ → Traced OramArr Unit) (leaf : ℕ)
    (P : ℕ → Mem OramArr → Prop) (m : Mem OramArr) (h0 : P 0 m)
    (hstep : ∀ q < p.depth * p.bucketSize, ∀ m', P q m' →
      P (q + 1) ((move (pathPos p leaf q) q).exec m')) :
    P (p.depth * p.bucketSize) ((loop (fun i (s : ℕ × ℕ) => do
      forUpTo p.bucketSize fun j => move (s.1 * p.bucketSize + j) (i * p.bucketSize + j)
      pure (walkStep s)) p.depth (walkStart p leaf)).exec m) := by
  have hZ := p.bucketSize_pos
  have hinv := loop_invariant
    (fun i (s : ℕ × ℕ) m' => s = walkStep^[i] (walkStart p leaf) ∧ P (i * p.bucketSize) m')
    (fun i (s : ℕ × ℕ) => do
      forUpTo p.bucketSize fun j => move (s.1 * p.bucketSize + j) (i * p.bucketSize + j)
      pure (walkStep s)) p.depth (walkStart p leaf) m ⟨rfl, by simpa using h0⟩
    (fun i hi s m' ⟨hs, hP⟩ => by
      simp only [val_bind, exec_bind, val_pure, exec_pure]
      refine ⟨by rw [hs, Function.iterate_succ_apply'], ?_⟩
      rw [Nat.add_mul, Nat.one_mul]
      refine forUpTo_invariant (fun j m' => P (i * p.bucketSize + j) m') _ _ m' hP
        (fun j hj m'' hP' => ?_)
      have hle : (i + 1) * p.bucketSize ≤ p.depth * p.bucketSize := Nat.mul_le_mul_right _ hi
      rw [Nat.add_mul, Nat.one_mul] at hle
      have hdiv : (i * p.bucketSize + j) / p.bucketSize = i := by
        rw [Nat.mul_comm, Nat.mul_add_div hZ, Nat.div_eq_of_lt hj, Nat.add_zero]
      have hmod : (i * p.bucketSize + j) % p.bucketSize = j := by
        rw [Nat.mul_comm, Nat.mul_add_mod, Nat.mod_eq_of_lt hj]
      have hnext := hstep (i * p.bucketSize + j) (by omega) m'' hP'
      rw [pathPos, hdiv, hmod, walkBucket, ← hs] at hnext
      exact hnext)
  exact hinv.2

lemma OramParams.pathLen_lt_stashSize : p.depth * p.bucketSize < p.stashSize := by
  have hlt : ∀ v, v < roundToPowerOf2 v := by
    intro v
    unfold roundToPowerOf2
    induction v using Nat.strong_induction_on with
    | h v ih =>
      rw [roundExpt]
      split
      · have hhalf := ih (v / 2) (by omega)
        rw [pow_succ]
        omega
      · omega
  have hle := hlt (p.bucketSize * p.depth + p.C)
  rw [OramParams.stashSize, Nat.mul_comm]
  omega

/-- What the first `q` block moves of a fetch have done to `o`. -/
structure FetchedUpTo (leaf : ℕ) (o : Oram) (q : ℕ) (o' : Oram) : Prop where
  blocks : o'.blocks p = o.blocks p
  slots : ∀ i, q ≤ i → o'.slot i = o.slot i
  flags : ∀ i < q, (o'.slot i).valid = (o.tree (pathPos p leaf i)).valid
  tree : ∀ t, (∀ q' < q, t ≠ pathPos p leaf q') → o'.tree t = o.tree t
  cleared : ∀ q' < q, (o'.tree (pathPos p leaf q')).valid = 0
  entry : o'.entry = o.entry
  buffer : o'.buffer = o.buffer

lemma fetchPath_fetched {leaf : ℕ} (hleaf : leaf < p.numLeaves) (m : Mem OramArr)
    (hempty : ∀ i < p.depth * p.bucketSize, ((Oram.ofMem p m).slot i).valid = 0) :
    FetchedUpTo p leaf (Oram.ofMem p m) (p.depth * p.bucketSize)
      (Oram.ofMem p ((fetchPath p leaf).exec m)) := by
  refine walkLoop_invariant p (fetchBlock p) leaf
    (fun q m' => FetchedUpTo p leaf (Oram.ofMem p m) q (Oram.ofMem p m')) m
    ⟨rfl, fun _ _ => rfl, fun _ h => by omega, fun _ _ => rfl, fun _ h => by omega, rfl, rfl⟩
    (fun q hq m' h => ?_)
  rw [ofMem_fetchBlock]
  set o := Oram.ofMem p m
  set o' := Oram.ofMem p m'
  have hpos := pathPos_lt hleaf hq
  have hstash := p.pathLen_lt_stashSize
  have hslot : (o'.slot q).valid = 0 := by rw [h.slots q le_rfl]; exact hempty q hq
  -- the place `q` has not been touched yet
  have hfresh : o'.tree (pathPos p leaf q) = o.tree (pathPos p leaf q) :=
    h.tree _ fun q' hq' heq => by
      have := pathPos_inj hleaf hq (by omega) heq
      omega
  refine ⟨?_, fun i hi => ?_, fun i hi => ?_, fun t ht => ?_, fun q' hq' => ?_, h.entry, h.buffer⟩
  · rw [Oram.blocks_fetch p o' hpos (by omega) hslot, h.blocks]
  · rw [Oram.fetch, Oram.setTree_slot, Oram.setSlot_slot_of_ne _ _ _ (by omega)]
    exact h.slots i (by omega)
  · rw [Oram.fetch, Oram.setTree_slot]
    by_cases hiq : i = q
    · subst hiq
      rw [Oram.setSlot_slot_self]
      exact congrArg TreeBlock.valid hfresh
    · rw [Oram.setSlot_slot_of_ne _ _ _ hiq]
      exact h.flags i (by omega)
  · have hne := ht q (by omega)
    rw [Oram.fetch, Oram.setTree_tree_of_ne _ _ _ hne, Oram.setSlot_tree]
    exact h.tree t fun q' hq' => ht q' (by omega)
  · rw [Oram.fetch]
    by_cases hqq : q' = q
    · subst hqq
      rw [Oram.setTree_tree_self]
    · have hne : pathPos p leaf q' ≠ pathPos p leaf q := fun heq =>
        hqq (pathPos_inj hleaf (by omega) hq heq)
      rw [Oram.setTree_tree_of_ne _ _ _ hne, Oram.setSlot_tree]
      exact h.cleared q' (by omega)

end OISA.Primitives

/-!
## The scans over the position map and the stash

`Retrieve_LeafLabel` replaces the label of one entry and reports its old label.
-/

namespace OISA.Primitives

open OISA.Lib OISA.Lib.Traced

variable (p : OramParams)

def posLabel (e : ℤ) : ℕ := e.toNat &&& posmapLeafMask

def posValid (e : ℤ) : Bool := e.toNat &&& posmapValidMask ≠ 0

lemma and_validMask (x : ℕ) :
    x &&& posmapValidMask = if posValid (x : ℤ) then posmapValidMask else 0 := by
  have hpow : posmapValidMask = 2 ^ 15 := rfl
  unfold posValid
  rw [Int.toNat_natCast, hpow, Nat.and_two_pow]
  cases x.testBit 15 <;> simp

lemma posEntry_fields (leaf valid : ℕ) (hleaf : leaf < 2 ^ 15)
    (hvalid : valid = 0 ∨ valid = posmapValidMask) :
    posLabel (((leaf ||| valid) % 2 ^ 16 : ℕ) : ℤ) = leaf ∧
      posValid (((leaf ||| valid) % 2 ^ 16 : ℕ) : ℤ) = decide (valid ≠ 0) := by
  have hmask : posmapLeafMask = 2 ^ 15 - 1 := rfl
  have hpow : posmapValidMask = 2 ^ 15 := rfl
  rw [hpow] at hvalid
  unfold posLabel posValid
  rw [Int.toNat_natCast, hmask, hpow, Nat.and_two_pow_sub_one_eq_mod, Nat.and_two_pow]
  rcases hvalid with rfl | rfl
  · have hlt : leaf % 2 ^ 16 = leaf := Nat.mod_eq_of_lt (by omega)
    rw [Nat.or_zero, hlt, Nat.mod_eq_of_lt hleaf, Nat.testBit_lt_two_pow hleaf]
    exact ⟨rfl, rfl⟩
  · have hor : leaf ||| 2 ^ 15 = 2 ^ 15 + leaf := by
      rw [Nat.or_comm]
      exact (Nat.two_pow_add_eq_or_of_lt hleaf 1).symm
    have hlt : (2 ^ 15 + leaf) % 2 ^ 16 = 2 ^ 15 + leaf := Nat.mod_eq_of_lt (by omega)
    rw [hor, hlt]
    refine ⟨by omega, ?_⟩
    rw [Nat.testBit_two_pow_add_eq, Nat.testBit_lt_two_pow hleaf]
    rfl

/-- What the first `n` rounds of the scan of the position map have done to `o`. -/
structure RetrievedUpTo (id accessLeaf newLeaf : ℕ) (o : Oram) (n : ℕ) (s : ℕ × Bool)
    (o' : Oram) : Prop where
  label : ∀ i, posLabel (o'.entry i) = if i < n ∧ i = id then newLeaf else posLabel (o.entry i)
  valid : ∀ i, posValid (o'.entry i) = (decide (i < n ∧ i = id) || posValid (o.entry i))
  leaf : s.1 = if id < n ∧ posValid (o.entry id) then posLabel (o.entry id) else accessLeaf
  isNew : s.2 = decide (id < n ∧ posValid (o.entry id) = false)
  frame : { o' with entry := o.entry } = o

lemma retrieveStep_retrieved {id accessLeaf newLeaf : ℕ} (hnew : newLeaf < 2 ^ 15) {o : Oram}
    (n : ℕ) (s : ℕ × Bool) (m : Mem OramArr)
    (h : RetrievedUpTo id accessLeaf newLeaf o n s (Oram.ofMem p m)) :
    RetrievedUpTo id accessLeaf newLeaf o (n + 1) ((retrieveStep id newLeaf n s).val m)
      (Oram.ofMem p ((retrieveStep id newLeaf n s).exec m)) := by
  set e := m.get .posMap n with he
  have hentry : (Oram.ofMem p m).entry n = e := rfl
  have hlab : e.toNat &&& posmapLeafMask = posLabel e := rfl
  have hval : e.toNat &&& posmapValidMask = if posValid e then posmapValidMask else 0 := by
    rw [and_validMask]
    unfold posValid
    rw [Int.toNat_natCast]
  have hlablt : posLabel e < 2 ^ 15 := by
    have hmask : posmapLeafMask = 2 ^ 15 - 1 := rfl
    rw [posLabel, hmask, Nat.and_two_pow_sub_one_eq_mod]
    exact Nat.mod_lt _ (by omega)
  have hmask0 : posmapValidMask ≠ 0 := by decide
  -- the entry before this round is the original one
  have hl := h.label n
  have hv := h.valid n
  rw [hentry, if_neg (by omega)] at hl
  rw [hentry, decide_eq_false (by omega), Bool.false_or] at hv
  set valid' := if posValid e || decide (id = n) then posmapValidMask else 0 with hvalid'
  set leaf' := if id = n then newLeaf else posLabel e with hleaf'
  have hexec : (retrieveStep id newLeaf n s).exec m =
      m.set .posMap n (((leaf' ||| valid') % 2 ^ 16 : ℕ) : ℤ) := by
    simp only [retrieveStep, exec_bind, val_load, exec_load, exec_store, exec_pure, ← he, hval,
      hlab]
    congr 4
    · rw [hleaf']
      by_cases hid : id = n <;> simp [hid]
    · rw [hvalid']
      by_cases hid : id = n <;> cases posValid e <;> simp [hid]
  have hvals : (retrieveStep id newLeaf n s).val m =
      (if decide (id = n) && posValid e then posLabel e else s.1,
        s.2 || (decide (id = n) && !posValid e)) := by
    simp only [retrieveStep, val_bind, val_load, exec_load, exec_store, val_pure, ← he, hval,
      hlab]
    by_cases hid : id = n <;> cases posValid e <;> simp [hid, hmask0]
  have hfields := posEntry_fields leaf' valid'
    (by rw [hleaf']; split <;> assumption) (by rw [hvalid']; split <;> simp)
  rw [hexec, hvals, ofMem_set_posMap]
  have hset := Oram.setEntry_entry (Oram.ofMem p m) n (((leaf' ||| valid') % 2 ^ 16 : ℕ) : ℤ)
  refine ⟨fun i => ?_, fun i => ?_, ?_, ?_, ?_⟩
  · by_cases hi : i = n
    · subst hi
      rw [hset, if_pos rfl, hfields.1, hleaf', ← hl]
      by_cases hid : id = i
      · rw [if_pos hid, if_pos ⟨by omega, hid.symm⟩]
      · rw [if_neg hid, if_neg (fun hh => hid hh.2.symm)]
    · rw [hset, if_neg hi, h.label i]
      have hiff : (i < n + 1 ∧ i = id) ↔ i < n ∧ i = id := by omega
      simp only [hiff]
  · by_cases hi : i = n
    · subst hi
      rw [hset, if_pos rfl, hfields.2, hvalid', ← hv]
      by_cases hid : id = i
      · subst hid
        cases posValid e <;> simp [hmask0]
      · have hid' : ¬ i = id := fun hh => hid hh.symm
        cases posValid e <;> simp [hmask0, hid, hid']
    · rw [hset, if_neg hi, h.valid i]
      have hiff : (i < n + 1 ∧ i = id) ↔ i < n ∧ i = id := by omega
      simp only [hiff]
  · by_cases hid : id = n
    · subst hid
      have hs := h.leaf
      rw [if_neg (by omega)] at hs
      rw [hl, hv]
      cases posValid (o.entry id) <;> simp [hs]
    · have hiff : id < n + 1 ↔ id < n := by omega
      simp only [hid, decide_false, Bool.false_and, Bool.false_eq_true, if_false, hiff]
      exact h.leaf
  · by_cases hid : id = n
    · subst hid
      have hs := h.isNew
      rw [decide_eq_false (by omega)] at hs
      rw [hv, hs]
      cases posValid (o.entry id) <;> simp
    · have hiff : id < n + 1 ↔ id < n := by omega
      simp only [hid, decide_false, Bool.false_and, Bool.or_false, hiff]
      exact h.isNew
  · exact h.frame

lemma retrieveLeafLabel_retrieved (id accessLeaf : ℕ) {newLeaf : ℕ}
    (hnew : newLeaf < p.numLeaves) (m : Mem OramArr) :
    RetrievedUpTo id accessLeaf newLeaf (Oram.ofMem p m) p.numRealBlocks
      ((retrieveLeafLabel p id accessLeaf newLeaf).val m)
      (Oram.ofMem p ((retrieveLeafLabel p id accessLeaf newLeaf).exec m)) := by
  have hleaves := p.numLeaves_le
  exact loop_invariant
    (fun n s m' => RetrievedUpTo id accessLeaf newLeaf (Oram.ofMem p m) n s (Oram.ofMem p m'))
    (retrieveStep id newLeaf) p.numRealBlocks (accessLeaf, false) m
    ⟨fun i => by simp, fun i => by simp, by simp, by simp, rfl⟩
    (fun n _ s m' h => retrieveStep_retrieved p (by omega) n s m' h)

def Slot.holds (s : Slot) (id : ℕ) : Bool := s.id = id && s.valid ≠ 0

/-- The slot after the scan has passed it. -/
def Slot.access (s : Slot) (op : Op) (id newLeaf : ℕ) (buffer : List ℤ) : Slot :=
  if s.holds id then
    { s with leaf := newLeaf, data := if op = .write then buffer else s.data }
  else s

/-- The slot with a new block put into it. -/
def Slot.insert (s : Slot) (id newLeaf : ℕ) (buffer : List ℤ) : Slot :=
  { s with valid := 1, id := id, leaf := newLeaf, data := buffer }

lemma Slot.access_of_invalid {s : Slot} (h : s.valid = 0) (op : Op) (id newLeaf : ℕ)
    (buffer : List ℤ) : s.access op id newLeaf buffer = s := by
  simp [Slot.access, Slot.holds, h]

lemma ofMem_cmovTo_leaf (cond : Bool) (v : ℤ) (i : ℕ) (m : Mem OramArr) :
    Oram.ofMem p ((cmovTo cond v .stashInfo (infoLeaf i)).exec m) =
      (Oram.ofMem p m).setSlot i { (Oram.ofMem p m).slot i with
        leaf := if cond then v else ((Oram.ofMem p m).slot i).leaf } :=
  ofMem_set_leaf p m i _

lemma ofMem_cmovTo_id (cond : Bool) (v : ℤ) (i : ℕ) (m : Mem OramArr) :
    Oram.ofMem p ((cmovTo cond v .stashInfo (infoId i)).exec m) =
      (Oram.ofMem p m).setSlot i { (Oram.ofMem p m).slot i with
        id := if cond then v else ((Oram.ofMem p m).slot i).id } :=
  ofMem_set_id p m i _

lemma ofMem_cmovTo_valid (cond : Bool) (v : ℤ) (i : ℕ) (m : Mem OramArr) :
    Oram.ofMem p ((cmovTo cond v .stashInfo (infoValid i)).exec m) =
      (Oram.ofMem p m).setSlot i { (Oram.ofMem p m).slot i with
        valid := if cond then v else ((Oram.ofMem p m).slot i).valid } :=
  ofMem_set_valid p m i _

lemma ofMem_cmovTo_key (cond : Bool) (v : ℤ) (i : ℕ) (m : Mem OramArr) :
    Oram.ofMem p ((cmovTo cond v .stashInfo (infoKey i)).exec m) =
      (Oram.ofMem p m).setSlot i { (Oram.ofMem p m).slot i with
        key := if cond then v else ((Oram.ofMem p m).slot i).key } :=
  ofMem_set_key p m i _

lemma val_andValid (test : Bool) (i : ℕ) (f : ℤ → Bool) (m : Mem OramArr) :
    (andValid test i f).val m = (test && f ((Oram.ofMem p m).slot i).valid) := by
  cases test <;> rfl

lemma exec_andValid (test : Bool) (i : ℕ) (f : ℤ → Bool) (m : Mem OramArr) :
    (andValid test i f).exec m = m := by
  cases test <;> rfl

def Slot.scan (s : Slot) (op : Op) (id newLeaf : ℕ) (new : Bool) (buffer : List ℤ) : Slot :=
  if new then s.insert id newLeaf buffer else s.access op id newLeaf buffer

lemma accessStep_spec (op : Op) (id newLeaf : ℕ) (ifNewData : Bool) (i : ℕ) (didWrite : Bool)
    {m : Mem OramArr} {o : Oram} (ho : Oram.ofMem p m = o) {new : Bool}
    (hnew : new = (ifNewData && (decide ((o.slot i).valid = 0) && !didWrite))) :
    (accessStep p op id newLeaf ifNewData i didWrite).val m = (didWrite || new) ∧
      Oram.ofMem p ((accessStep p op id newLeaf ifNewData i didWrite).exec m) =
        (o.setBuffer (if (o.slot i).holds id ∧ op = .read then (o.slot i).data
          else o.buffer)).setSlot i ((o.slot i).scan op id newLeaf new o.buffer) := by
  have hsid : m.get .stashInfo (infoId i) = (o.slot i).id := by rw [← ho]; rfl
  set s := o.slot i with hs
  have hholds : (decide (s.id = id) && decide (s.valid ≠ 0)) = s.holds id := rfl
  unfold accessStep
  simp only [val_bind, exec_bind, val_load, exec_load, val_andValid p, exec_andValid, val_pure,
    exec_pure, ofMem_cmovTo_leaf, ofMem_cmovTo_id, ofMem_cmovTo_valid, ofMem_cmovn_toSlot,
    ofMem_cmovn_toBuffer, ho, hsid, ← hs, hholds, Oram.setSlot_slot_self, Oram.setSlot_setSlot,
    Oram.setSlot_buffer, Oram.setBuffer_buffer, Oram.setSlot_setBuffer, ← hnew, true_and]
  unfold Slot.scan Slot.insert Slot.access
  by_cases hh : s.holds id = true
  · have hvalid : s.valid ≠ 0 := by
      simp only [Slot.holds, Bool.and_eq_true, decide_eq_true_eq] at hh
      exact hh.2
    have hnot : new = false := by simp [hnew, hvalid]
    cases op <;> simp [hh, hnot]
  · cases new <;> simp [hh]

def FirstInvalid (o : Oram) (f : ℕ) : Prop :=
  (∀ j < f, j < p.stashSize → (o.slot j).valid ≠ 0) ∧ (f < p.stashSize → (o.slot f).valid = 0)

lemma exists_firstInvalid (o : Oram) : ∃ f ≤ p.stashSize, FirstInvalid p o f := by
  by_cases hex : ∃ j, j < p.stashSize ∧ (o.slot j).valid = 0
  · have hspec := Nat.find_spec hex
    exact ⟨Nat.find hex, hspec.1.le, fun j hj hjS hv => Nat.find_min hex hj ⟨hjS, hv⟩,
      fun _ => hspec.2⟩
  · push Not at hex
    exact ⟨p.stashSize, le_rfl, fun j _ hj => hex j hj, fun h => absurd h (lt_irrefl _)⟩

/-- What the first `n` rounds of the scan of the stash have done to `o`. -/
structure ScannedUpTo (op : Op) (id newLeaf : ℕ) (ifNewData : Bool) (f : ℕ) (o : Oram) (n : ℕ)
    (didWrite : Bool) (o' : Oram) : Prop where
  didWrite : didWrite = (ifNewData && decide (f < n))
  slots : ∀ j, o'.slot j = if j < n then
    (o.slot j).scan op id newLeaf (ifNewData && decide (j = f)) o.buffer else o.slot j
  written : op = .write → o'.buffer = o.buffer
  read : op = .read → ∀ k, (∀ j < p.stashSize, (o.slot j).holds id = true ↔ j = k) →
    o'.buffer = if k < n then (o.slot k).data else o.buffer
  tree : o'.tree = o.tree
  entry : o'.entry = o.entry

lemma Slot.scan_congr (s : Slot) {op : Op} {new : Bool} (id newLeaf : ℕ) {d d' : List ℤ}
    (hw : op = .write → d = d') (hr : op = .read → new = false) :
    s.scan op id newLeaf new d = s.scan op id newLeaf new d' := by
  cases op with
  | write => rw [hw rfl]
  | read =>
    rw [hr rfl]
    rfl

lemma accessStash_scanned (op : Op) (id newLeaf : ℕ) (ifNewData : Bool)
    (hread : op = .read → ifNewData = false) (m : Mem OramArr) {f : ℕ}
    (hf : FirstInvalid p (Oram.ofMem p m) f) :
    ScannedUpTo p op id newLeaf ifNewData f (Oram.ofMem p m) p.stashSize
      ((accessStash p op id newLeaf ifNewData).val m)
      (Oram.ofMem p ((accessStash p op id newLeaf ifNewData).exec m)) := by
  refine loop_invariant
    (fun n b m' => ScannedUpTo p op id newLeaf ifNewData f (Oram.ofMem p m) n b (Oram.ofMem p m'))
    (accessStep p op id newLeaf ifNewData) p.stashSize false m
    ⟨by simp, fun j => by simp, fun _ => rfl, fun _ k _ => by simp, rfl, rfl⟩
    (fun n hn b m' h => ?_)
  set o := Oram.ofMem p m
  set o' := Oram.ofMem p m' with ho'
  have hslot : o'.slot n = o.slot n := by rw [h.slots, if_neg (lt_irrefl n)]
  -- a new block goes into the slot `f` and nowhere else
  have hnew : (ifNewData && decide (n = f)) =
      (ifNewData && (decide ((o'.slot n).valid = 0) && !b)) := by
    rw [hslot, h.didWrite]
    cases ifNewData with
    | false => rfl
    | true =>
      simp only [Bool.true_and]
      rcases Nat.lt_trichotomy n f with hlt | heq | hgt
      · have hvalid := hf.1 n hlt hn
        simp [hvalid, hlt.ne]
      · subst heq
        simp [hf.2 hn]
      · simp [hgt, hgt.ne']
  obtain ⟨hval, hmem⟩ := accessStep_spec p op id newLeaf ifNewData n b ho'.symm hnew
  have hscan : (o'.slot n).scan op id newLeaf (ifNewData && decide (n = f)) o'.buffer =
      (o.slot n).scan op id newLeaf (ifNewData && decide (n = f)) o.buffer := by
    rw [hslot]
    exact Slot.scan_congr _ id newLeaf h.written fun hr => by rw [hread hr]; rfl
  rw [hval, hmem, hscan]
  refine ⟨?_, fun j => ?_, fun hw => ?_, fun hr k hk => ?_, h.tree, h.entry⟩
  · rw [h.didWrite]
    cases ifNewData with
    | false => rfl
    | true =>
      simp only [Bool.true_and, ← Bool.decide_or]
      exact decide_eq_decide.mpr (by omega)
  · by_cases hj : j = n
    · subst hj
      rw [Oram.setSlot_slot_self, if_pos (by omega)]
    · rw [Oram.setSlot_slot_of_ne _ _ _ hj, Oram.setBuffer_slot, h.slots]
      have hiff : j < n + 1 ↔ j < n := by omega
      simp only [hiff]
  · rw [Oram.setSlot_buffer, Oram.setBuffer_buffer, if_neg (by rw [hw]; simp)]
    exact h.written hw
  · rw [Oram.setSlot_buffer, Oram.setBuffer_buffer, hslot, h.read hr k hk]
    by_cases hnk : n = k
    · subst hnk
      rw [if_pos ⟨(hk n hn).mpr rfl, hr⟩, if_pos (by omega)]
    · have hnot : ¬((o.slot n).holds id = true ∧ op = .read) := fun hh => hnk ((hk n hn).mp hh.1)
      have hiff : k < n + 1 ↔ k < n := by omega
      simp only [hnot, if_false, hiff]

end OISA.Primitives
