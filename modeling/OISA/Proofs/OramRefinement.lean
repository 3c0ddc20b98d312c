import OISA.Proofs.OramStore

/-!
# The tree ORAM refines an array

The abstract state maps an id to the data last written under it.
-/

namespace OISA.Primitives

open OISA.Lib OISA.Lib.Traced

abbrev ArrayState := ℕ → Option (List ℤ)

variable (p : OramParams)

def writtenBlocks (label : ℕ → ℕ) (σ : ArrayState) : Multiset Block :=
  ∑ id ∈ Finset.range p.numRealBlocks, (σ id).elim 0 fun d => {⟨(id : ℤ), (label id : ℤ), d⟩}

structure Oram.Refines (o : Oram) (σ : ArrayState) : Prop where
  blocks : o.blocks p = writtenBlocks p (fun id => posLabel (o.entry id)) σ
  written : ∀ id < p.numRealBlocks, posValid (o.entry id) = (σ id).isSome
  labels : ∀ id < p.numRealBlocks, posValid (o.entry id) = true →
    posLabel (o.entry id) < p.numLeaves
  onWalk : ∀ t < p.treeSize, (o.tree t).valid ≠ 0 →
    ∃ l < p.depth, t / p.bucketSize = walkBucket p (o.tree t).leaf.toNat l
  landing : ∀ i < p.depth * p.bucketSize, (o.slot i).valid = 0
  flags : ∀ i < p.stashSize, (o.slot i).valid = 0 ∨ (o.slot i).valid = 1
  flagsTree : ∀ t < p.treeSize, (o.tree t).valid = 0 ∨ (o.tree t).valid = 1

/-- The state between the scan of the stash and the write-back: the walk to `leaf` is cleared. -/
structure Oram.Cleared (o : Oram) (leaf : ℕ) (σ : ArrayState) : Prop where
  blocks : o.blocks p = writtenBlocks p (fun id => posLabel (o.entry id)) σ
  written : ∀ i < p.numRealBlocks, posValid (o.entry i) = (σ i).isSome
  labels : ∀ i < p.numRealBlocks, posValid (o.entry i) = true →
    posLabel (o.entry i) < p.numLeaves
  cleared : ∀ q < p.depth * p.bucketSize, (o.tree (pathPos p leaf q)).valid = 0
  onWalk : ∀ t < p.treeSize, (o.tree t).valid ≠ 0 →
    ∃ l < p.depth, t / p.bucketSize = walkBucket p (o.tree t).leaf.toNat l
  flags : ∀ i < p.stashSize, (o.slot i).valid = 0 ∨ (o.slot i).valid = 1
  flagsTree : ∀ t < p.treeSize, (o.tree t).valid = 0 ∨ (o.tree t).valid = 1

def places : Finset (ℕ ⊕ ℕ) :=
  (Finset.range p.stashSize).disjSum (Finset.range p.treeSize)

/-- The block in a place, if there is one. -/
def Oram.content (o : Oram) : ℕ ⊕ ℕ → Multiset Block
  | .inl i => (o.slot i).block
  | .inr t => (o.tree t).block

lemma blocks_eq_sum_content (o : Oram) : o.blocks p = ∑ x ∈ places p, o.content x := by
  rw [places, Finset.sum_disjSum]
  rfl

lemma mem_slot_block {s : Slot} {b : Block} :
    b ∈ s.block ↔ s.valid ≠ 0 ∧ b = ⟨s.id, s.leaf, s.data⟩ := by
  unfold Slot.block
  split
  · rename_i h
    simp [h]
  · rename_i h
    simp [h]

lemma mem_tree_block {s : TreeBlock} {b : Block} :
    b ∈ s.block ↔ s.valid ≠ 0 ∧ b = ⟨s.id, s.leaf, s.data⟩ := by
  unfold TreeBlock.block
  split
  · rename_i h
    simp [h]
  · rename_i h
    simp [h]

lemma mem_blocks {o : Oram} {b : Block} :
    b ∈ o.blocks p ↔ ∃ x ∈ places p, b ∈ o.content x := by
  rw [blocks_eq_sum_content, Multiset.mem_sum]

lemma inl_mem_places {i : ℕ} : Sum.inl i ∈ places p ↔ i < p.stashSize := by
  simp [places]

lemma inr_mem_places {t : ℕ} : Sum.inr t ∈ places p ↔ t < p.treeSize := by
  simp [places]

lemma mem_writtenBlocks {label : ℕ → ℕ} {σ : ArrayState} {b : Block} :
    b ∈ writtenBlocks p label σ ↔
      ∃ id < p.numRealBlocks, ∃ d, σ id = some d ∧ b = ⟨(id : ℤ), (label id : ℤ), d⟩ := by
  rw [writtenBlocks, Multiset.mem_sum]
  constructor
  · rintro ⟨id, hid, hb⟩
    cases hσ : σ id with
    | none => simp [hσ] at hb
    | some d =>
      rw [hσ] at hb
      exact ⟨id, Finset.mem_range.mp hid, d, hσ, Multiset.mem_singleton.mp hb⟩
  · rintro ⟨id, hid, d, hσ, rfl⟩
    refine ⟨id, Finset.mem_range.mpr hid, ?_⟩
    rw [hσ]
    exact Multiset.mem_singleton_self _

lemma countP_writtenBlocks (label : ℕ → ℕ) (σ : ArrayState) {id : ℕ}
    (hid : id < p.numRealBlocks) :
    (writtenBlocks p label σ).countP (fun b => b.id = (id : ℤ)) = if (σ id).isSome then 1 else 0 := by
  have hmem := Finset.mem_range.mpr hid
  rw [writtenBlocks, ← Multiset.coe_countPAddMonoidHom, map_sum,
    Finset.sum_eq_single_of_mem id hmem]
  · cases σ id with
    | none => rfl
    | some d => simp [← Multiset.cons_zero]
  · intro id' _ hne
    have hne' : ¬((id' : ℤ) = (id : ℤ)) := fun h => hne (Int.ofNat_inj.mp h)
    cases σ id' with
    | none => rfl
    | some d => simp [← Multiset.cons_zero, hne']

lemma sum_eq_one {ι : Type} [DecidableEq ι] {s : Finset ι} {f : ι → ℕ} (h : ∑ x ∈ s, f x = 1) :
    ∃ x ∈ s, f x ≠ 0 ∧ ∀ y ∈ s, f y ≠ 0 → y = x := by
  obtain ⟨x, hx, hfx⟩ := Finset.exists_ne_zero_of_sum_ne_zero (by rw [h]; decide)
  refine ⟨x, hx, hfx, fun y hy hfy => ?_⟩
  by_contra hne
  have hpair := Finset.sum_pair (f := f) (Ne.symm hne)
  have hsub : {x, y} ⊆ s := by
    intro z hz
    rcases Finset.mem_insert.mp hz with rfl | hz
    · exact hx
    · rw [Finset.mem_singleton.mp hz]
      exact hy
  have hle := Finset.sum_le_sum_of_subset (f := f) hsub
  omega

lemma exists_unique_place {o : Oram} {label : ℕ → ℕ} {σ : ArrayState} {id : ℕ} {d : List ℤ}
    (hblocks : o.blocks p = writtenBlocks p label σ) (hid : id < p.numRealBlocks)
    (hσ : σ id = some d) :
    ∃ x ∈ places p, ⟨(id : ℤ), (label id : ℤ), d⟩ ∈ o.content x ∧
      ∀ y ∈ places p, (∃ b ∈ o.content y, b.id = (id : ℤ)) → y = x := by
  have hcount := countP_writtenBlocks p label σ hid
  rw [hσ, Option.isSome_some, if_pos rfl, ← hblocks, blocks_eq_sum_content,
    ← Multiset.coe_countPAddMonoidHom, map_sum] at hcount
  obtain ⟨x, hx, -, hunique⟩ := sum_eq_one hcount
  have huniq : ∀ y ∈ places p, (∃ b ∈ o.content y, b.id = (id : ℤ)) → y = x := by
    rintro y hy ⟨b, hb, hbid⟩
    refine hunique y hy (Nat.pos_iff_ne_zero.mp ?_)
    rw [Multiset.coe_countPAddMonoidHom, Multiset.countP_pos]
    exact ⟨b, hb, hbid⟩
  have hmem : (⟨(id : ℤ), (label id : ℤ), d⟩ : Block) ∈ o.blocks p := by
    rw [hblocks]
    exact (mem_writtenBlocks p).mpr ⟨id, hid, d, hσ, rfl⟩
  obtain ⟨y, hy, hb⟩ := (mem_blocks p).mp hmem
  have hyx := huniq y hy ⟨_, hb, rfl⟩
  subst hyx
  exact ⟨y, hy, hb, huniq⟩

/-- A block after the scan for `id`. -/
def Block.access (b : Block) (op : Op) (id newLeaf : ℕ) (buffer : List ℤ) : Block :=
  if b.id = id then ⟨b.id, newLeaf, if op = .write then buffer else b.data⟩ else b

/-- The abstract access. -/
def ArrayState.access (σ : ArrayState) (op : Op) (id : ℕ) (buffer : List ℤ) : ArrayState :=
  if op = .write then Function.update σ id (some buffer) else σ

lemma block_access (s : Slot) (op : Op) (id newLeaf : ℕ) (buffer : List ℤ) :
    (s.access op id newLeaf buffer).block =
      s.block.map fun b => b.access op id newLeaf buffer := by
  unfold Slot.access Slot.holds Slot.block Block.access
  by_cases hv : s.valid = 0
  · simp [hv]
  · by_cases hid : s.id = id
    · simp [hv, hid]
    · simp [hv, hid]

lemma scan_flag (s : Slot) (op : Op) (id newLeaf : ℕ) (new : Bool) (buffer : List ℤ)
    (h : s.valid = 0 ∨ s.valid = 1) :
    (s.scan op id newLeaf new buffer).valid = 0 ∨ (s.scan op id newLeaf new buffer).valid = 1 := by
  unfold Slot.scan
  split
  · exact .inr rfl
  · unfold Slot.access
    split
    · exact h
    · exact h

lemma stashBlocks_scanned {op : Op} {id newLeaf : ℕ} {new : Bool} {f : ℕ} {o o' : Oram}
    {w : Bool} (h : ScannedUpTo p op id newLeaf new f o p.stashSize w o')
    (hf : FirstInvalid p o f) (hroom : new = true → f < p.stashSize) :
    o'.stashBlocks p = (o.stashBlocks p).map (fun b => b.access op id newLeaf o.buffer) +
      if new then {⟨(id : ℤ), (newLeaf : ℤ), o.buffer⟩} else 0 := by
  have hslot : ∀ j ∈ Finset.range p.stashSize, (o'.slot j).block =
      ((o.slot j).scan op id newLeaf (new && decide (j = f)) o.buffer).block := by
    intro j hj
    rw [h.slots, if_pos (Finset.mem_range.mp hj)]
  have hmap : (o.stashBlocks p).map (fun b => b.access op id newLeaf o.buffer) =
      ∑ j ∈ Finset.range p.stashSize, ((o.slot j).access op id newLeaf o.buffer).block := by
    rw [Oram.stashBlocks, ← Multiset.coe_mapAddMonoidHom, map_sum]
    exact Finset.sum_congr rfl fun j _ => (block_access (o.slot j) op id newLeaf o.buffer).symm
  rw [hmap, Oram.stashBlocks, Finset.sum_congr rfl hslot]
  cases new with
  | false => simp [Slot.scan]
  | true =>
    have hfS := hroom rfl
    have hsum := Oram.sum_update_add
      (fun j => ((o.slot j).access op id newLeaf o.buffer).block) hfS
      ({⟨(id : ℤ), (newLeaf : ℤ), o.buffer⟩} : Multiset Block)
    have hzero : ((o.slot f).access op id newLeaf o.buffer).block = 0 := by
      rw [Slot.access_of_invalid (hf.2 hfS), Slot.block, if_pos (hf.2 hfS)]
    rw [hzero, add_zero] at hsum
    rw [if_pos rfl, ← hsum]
    refine Finset.sum_congr rfl fun j _ => ?_
    by_cases hj : j = f
    · subst hj
      rw [Function.update_self]
      simp [Slot.scan, Slot.insert, Slot.block]
    · rw [Function.update_of_ne hj]
      simp [Slot.scan, hj]

/-- The same on the abstract side. -/
lemma writtenBlocks_access {label : ℕ → ℕ} {σ : ArrayState} {op : Op} {id newLeaf : ℕ}
    (buffer : List ℤ) (hid : id < p.numRealBlocks) (hread : op = .read → (σ id).isSome = true)
    {label' : ℕ → ℕ} (hlabel : ∀ i < p.numRealBlocks,
      label' i = if i = id then newLeaf else label i) :
    (writtenBlocks p label σ).map (fun b => b.access op id newLeaf buffer) +
        (if (σ id).isSome = false then {⟨(id : ℤ), (newLeaf : ℤ), buffer⟩} else 0) =
      writtenBlocks p label' (σ.access op id buffer) := by
  have hmap : (writtenBlocks p label σ).map (fun b => b.access op id newLeaf buffer) =
      ∑ i ∈ Finset.range p.numRealBlocks, ((σ i).elim (0 : Multiset Block)
        fun d => {⟨(i : ℤ), (label i : ℤ), d⟩}).map fun b => b.access op id newLeaf buffer := by
    rw [writtenBlocks, ← Multiset.coe_mapAddMonoidHom, map_sum]
  have hterm : ∀ i < p.numRealBlocks, i ≠ id →
      ((σ i).elim (0 : Multiset Block) fun d => {⟨(i : ℤ), (label i : ℤ), d⟩}).map
        (fun b => b.access op id newLeaf buffer) =
      ((σ.access op id buffer) i).elim 0 fun d => {⟨(i : ℤ), (label' i : ℤ), d⟩} := by
    intro i hi hne
    have hne' : ¬((i : ℤ) = (id : ℤ)) := fun h => hne (Int.ofNat_inj.mp h)
    have hσ : (σ.access op id buffer) i = σ i := by
      unfold ArrayState.access
      split
      · exact Function.update_of_ne hne _ _
      · rfl
    rw [hσ, hlabel i hi, if_neg hne]
    cases σ i with
    | none => rfl
    | some d => simp [Block.access, hne']
  rw [hmap, writtenBlocks]
  cases hσ : σ id with
  | some d =>
    rw [Option.isSome_some, if_neg (by decide), add_zero]
    refine Finset.sum_congr rfl fun i hi => ?_
    by_cases hne : i = id
    · subst hne
      rw [hσ, hlabel i hid, if_pos rfl]
      cases op <;> simp [ArrayState.access, Block.access, hσ]
    · exact hterm i (Finset.mem_range.mp hi) hne
  | none =>
    have hop : op = .write := by
      cases op with
      | write => rfl
      | read =>
        have := hread rfl
        rw [hσ] at this
        exact absurd this (by decide)
    subst hop
    rw [Option.isSome_none, if_pos rfl]
    have hsum := Oram.sum_update_add (fun i => ((σ i).elim (0 : Multiset Block)
      fun d => {⟨(i : ℤ), (label i : ℤ), d⟩}).map fun b => b.access .write id newLeaf buffer) hid
      ({⟨(id : ℤ), (newLeaf : ℤ), buffer⟩} : Multiset Block)
    simp only [hσ, Option.elim_none, Multiset.map_zero, add_zero] at hsum
    rw [← hsum]
    refine Finset.sum_congr rfl fun i hi => ?_
    by_cases hne : i = id
    · subst hne
      rw [Function.update_self, hlabel i hid, if_pos rfl]
      simp [ArrayState.access]
    · rw [Function.update_of_ne hne]
      exact hterm i (Finset.mem_range.mp hi) hne

section Access

variable (op : Op) (id r1 r2 : ℕ) (m : Mem OramArr)

def accessRetrieve : Traced OramArr (ℕ × Bool) :=
  retrieveLeafLabel p id (genRandLeaf p r1) (genRandLeaf p r2)

def accessLeaf : ℕ := ((accessRetrieve p id r1 r2).val m).1
def accessIsNew : Bool := ((accessRetrieve p id r1 r2).val m).2

def memFetched : Mem OramArr :=
  (fetchPath p (accessLeaf p id r1 r2 m)).exec ((accessRetrieve p id r1 r2).exec m)

def memScanned : Mem OramArr :=
  (accessStash p op id (genRandLeaf p r2) (accessIsNew p id r1 r2 m)).exec
    (memFetched p id r1 r2 m)

def memKeyed : Mem OramArr :=
  (assignKeys p (accessLeaf p id r1 r2 m)).exec (memScanned p op id r1 r2 m)

/-- A new block finds an invalid slot after the path fetch: behind the landing area or where a
dummy of the path lands. -/
def HasRoom (o : Oram) : Prop :=
  (∃ i < p.stashSize, p.depth * p.bucketSize ≤ i ∧ (o.slot i).valid = 0) ∨
    ∃ q < p.depth * p.bucketSize, (o.tree (pathPos p (genRandLeaf p r1) q)).valid = 0

/-- The stash does not overflow: a block that is written for the first time finds room, and
the slots that sort behind the dummies fit behind the path. -/
structure NoOverflow : Prop where
  room : op = .write → posValid ((Oram.ofMem p m).entry id) = false →
    HasRoom p r1 (Oram.ofMem p m)
  stay : p.depth * p.bucketSize + (Oram.ofMem p (memKeyed p op id r1 r2 m)).stay p ≤ p.stashSize

lemma accessOram_eq (hid : id < p.numRealBlocks) :
    (accessOram p op id r1 r2 m).2 =
      if op = .read ∧ accessIsNew p id r1 r2 m = true then none
      else (storeBlocks p (accessLeaf p id r1 r2 m)).map fun store =>
        store.exec (memScanned p op id r1 r2 m) := by
  have hrange : ¬((id : ℤ) < 0 ∨ (id : ℤ) ≥ (p.numRealBlocks : ℤ)) := by omega
  unfold accessOram
  rw [if_neg hrange]
  simp only [Int.toNat_natCast]
  change (if op = .read ∧ accessIsNew p id r1 r2 m = true then _ else _ :
    List (OramArr × ℕ) × Option (Mem OramArr)).2 = _
  by_cases hstop : op = .read ∧ accessIsNew p id r1 r2 m = true
  · rw [if_pos hstop, if_pos hstop]
  · rw [if_neg hstop, if_neg hstop]
    cases hstore : storeBlocks p (accessLeaf p id r1 r2 m) with
    | none =>
      unfold accessLeaf accessRetrieve at hstore
      rw [hstore]
      rfl
    | some store =>
      unfold accessLeaf accessRetrieve at hstore
      rw [hstore]
      simp only [Option.map_some, exec_bind, fetchBlocks, exec_pure]
      rfl

variable {p id} {σ : ArrayState}

lemma retrieve_refines (h : (Oram.ofMem p m).Refines p σ) (hid : id < p.numRealBlocks) :
    accessIsNew p id r1 r2 m = decide ((σ id).isSome = false) ∧
      accessLeaf p id r1 r2 m < p.numLeaves ∧
      ((σ id).isSome = true → accessLeaf p id r1 r2 m = posLabel ((Oram.ofMem p m).entry id)) ∧
      (∀ i < p.numRealBlocks, posLabel ((Oram.ofMem p ((accessRetrieve p id r1 r2).exec m)).entry i)
        = if i = id then genRandLeaf p r2 else posLabel ((Oram.ofMem p m).entry i)) ∧
      (∀ i < p.numRealBlocks, posValid ((Oram.ofMem p ((accessRetrieve p id r1 r2).exec m)).entry i)
        = (decide (i = id) || (σ i).isSome)) := by
  have hret := retrieveLeafLabel_retrieved p id (genRandLeaf p r1)
    (genRandLeaf_lt p r2) m
  have hw := h.written id hid
  have hleaf : accessLeaf p id r1 r2 m = if (σ id).isSome = true then
      posLabel ((Oram.ofMem p m).entry id) else genRandLeaf p r1 := by
    have hl := hret.leaf
    rw [hw] at hl
    simp only [hid, true_and] at hl
    exact hl
  refine ⟨?_, ?_, fun hsome => by rw [hleaf, if_pos hsome], fun i hi => ?_, fun i hi => ?_⟩
  · have hn := hret.isNew
    rw [hw] at hn
    simp only [hid, true_and] at hn
    exact hn
  · rw [hleaf]
    split
    · rename_i hsome
      rw [← hw] at hsome
      exact h.labels id hid hsome
    · exact genRandLeaf_lt p r1
  · have hl := hret.label i
    simp only [hi, true_and] at hl
    exact hl
  · have hv := hret.valid i
    rw [h.written i hi] at hv
    simp only [hi, true_and] at hv
    exact hv

variable (p id) in
lemma retrieve_frame : (Oram.ofMem p ((accessRetrieve p id r1 r2).exec m)).slot =
      (Oram.ofMem p m).slot ∧
    (Oram.ofMem p ((accessRetrieve p id r1 r2).exec m)).tree = (Oram.ofMem p m).tree ∧
    (Oram.ofMem p ((accessRetrieve p id r1 r2).exec m)).buffer = (Oram.ofMem p m).buffer := by
  have hret := retrieveLeafLabel_retrieved p id (genRandLeaf p r1)
    (genRandLeaf_lt p r2) m
  have hframe := hret.frame
  have hslot := congrArg Oram.slot hframe
  have htree := congrArg Oram.tree hframe
  have hbuffer := congrArg Oram.buffer hframe
  exact ⟨hslot, htree, hbuffer⟩

lemma tree_id_ne (h : (Oram.ofMem p m).Refines p σ) (hid : id < p.numRealBlocks) {t : ℕ}
    (ht : t < p.treeSize)
    (hv : ((Oram.ofMem p (memFetched p id r1 r2 m)).tree t).valid ≠ 0)
    (hfetch : FetchedUpTo p (accessLeaf p id r1 r2 m)
      (Oram.ofMem p ((accessRetrieve p id r1 r2).exec m)) (p.depth * p.bucketSize)
      (Oram.ofMem p (memFetched p id r1 r2 m))) :
    ((Oram.ofMem p (memFetched p id r1 r2 m)).tree t).id ≠ (id : ℤ) := by
  intro hidt
  obtain ⟨-, hleaf, hlabel, -, -⟩ := retrieve_refines r1 r2 m h hid
  obtain ⟨-, htree, -⟩ := retrieve_frame p id r1 r2 m
  -- the block is not on the path, which has been cleared
  have hoff : ∀ q < p.depth * p.bucketSize, t ≠ pathPos p (accessLeaf p id r1 r2 m) q := by
    intro q hq heq
    rw [heq] at hv
    exact hv (hfetch.cleared q hq)
  have hsame : (Oram.ofMem p (memFetched p id r1 r2 m)).tree t = (Oram.ofMem p m).tree t := by
    rw [hfetch.tree t hoff, htree]
  rw [hsame] at hv hidt
  -- so its label is the access leaf, and its bucket is on the path
  have hmem : (⟨((Oram.ofMem p m).tree t).id, ((Oram.ofMem p m).tree t).leaf,
      ((Oram.ofMem p m).tree t).data⟩ : Block) ∈ (Oram.ofMem p m).blocks p :=
    (mem_blocks p).mpr ⟨.inr t, (inr_mem_places p).mpr ht, mem_tree_block.mpr ⟨hv, rfl⟩⟩
  rw [h.blocks] at hmem
  obtain ⟨i, hi, d, hσ, hb⟩ := (mem_writtenBlocks p).mp hmem
  rw [Block.mk.injEq] at hb
  have hii : i = id := Int.ofNat_inj.mp (hb.1.symm.trans hidt)
  subst hii
  obtain ⟨l, hl, hwalk⟩ := h.onWalk t ht hv
  rw [hb.2.1, Int.toNat_natCast, ← hlabel (by rw [hσ]; rfl)] at hwalk
  obtain ⟨q, hq, hpos⟩ := exists_pathPos hl hwalk
  exact hoff q hq hpos.symm

lemma memFetched_fetched (h : (Oram.ofMem p m).Refines p σ) (hid : id < p.numRealBlocks) :
    FetchedUpTo p (accessLeaf p id r1 r2 m) (Oram.ofMem p ((accessRetrieve p id r1 r2).exec m))
      (p.depth * p.bucketSize) (Oram.ofMem p (memFetched p id r1 r2 m)) := by
  obtain ⟨-, hleaf, -⟩ := retrieve_refines r1 r2 m h hid
  obtain ⟨hslot, -, -⟩ := retrieve_frame p id r1 r2 m
  refine fetchPath_fetched p hleaf _ fun i hi => ?_
  rw [hslot]
  exact h.landing i hi

lemma memScanned_scanned (hread : op = .read → accessIsNew p id r1 r2 m = false) {f : ℕ}
    (hf : FirstInvalid p (Oram.ofMem p (memFetched p id r1 r2 m)) f) :
    ScannedUpTo p op id (genRandLeaf p r2) (accessIsNew p id r1 r2 m) f
      (Oram.ofMem p (memFetched p id r1 r2 m)) p.stashSize
      ((accessStash p op id (genRandLeaf p r2) (accessIsNew p id r1 r2 m)).val
        (memFetched p id r1 r2 m))
      (Oram.ofMem p (memScanned p op id r1 r2 m)) :=
  accessStash_scanned p op id (genRandLeaf p r2) (accessIsNew p id r1 r2 m) hread _ hf

lemma memFetched_room (h : (Oram.ofMem p m).Refines p σ) (hid : id < p.numRealBlocks)
    (hnone : (σ id).isSome = false) (hroom : HasRoom p r1 (Oram.ofMem p m)) :
    ∃ f < p.stashSize, ((Oram.ofMem p (memFetched p id r1 r2 m)).slot f).valid = 0 := by
  have hfetch := memFetched_fetched r1 r2 m h hid
  have hstash := p.pathLen_lt_stashSize
  have hret := retrieveLeafLabel_retrieved p id (genRandLeaf p r1) (genRandLeaf_lt p r2) m
  obtain ⟨hslot, htree, -⟩ := retrieve_frame p id r1 r2 m
  have hleaf : accessLeaf p id r1 r2 m = genRandLeaf p r1 := by
    have hl := hret.leaf
    rw [h.written id hid, hnone, if_neg (by simp)] at hl
    exact hl
  rcases hroom with ⟨i, hi, hip, hv⟩ | ⟨q, hq, hv⟩
  · refine ⟨i, hi, ?_⟩
    rw [hfetch.slots i hip, hslot]
    exact hv
  · refine ⟨q, by omega, ?_⟩
    rw [hfetch.flags q hq, htree, hleaf]
    exact hv

lemma memFetched_blocks (h : (Oram.ofMem p m).Refines p σ) (hid : id < p.numRealBlocks) :
    (Oram.ofMem p (memFetched p id r1 r2 m)).blocks p =
      writtenBlocks p (fun i => posLabel ((Oram.ofMem p m).entry i)) σ := by
  have hfetch := memFetched_fetched r1 r2 m h hid
  obtain ⟨hslot, htree, -⟩ := retrieve_frame p id r1 r2 m
  rw [hfetch.blocks, ← h.blocks]
  simp only [Oram.blocks, Oram.stashBlocks, Oram.treeBlocks, hslot, htree]

/-- The scan has the effect of the abstract access on the blocks. -/
lemma memScanned_blocks (h : (Oram.ofMem p m).Refines p σ) (hid : id < p.numRealBlocks)
    (hread : op = .read → (σ id).isSome = true)
    (hroom : (σ id).isSome = false → HasRoom p r1 (Oram.ofMem p m)) :
    (Oram.ofMem p (memScanned p op id r1 r2 m)).blocks p =
      writtenBlocks p
        (fun i => posLabel ((Oram.ofMem p (memScanned p op id r1 r2 m)).entry i))
        (σ.access op id (Oram.ofMem p m).buffer) := by
  obtain ⟨hnew, hleaf, -, hlabel, hvalid⟩ := retrieve_refines r1 r2 m h hid
  obtain ⟨-, -, hbuffer⟩ := retrieve_frame p id r1 r2 m
  have hfetch := memFetched_fetched r1 r2 m h hid
  obtain ⟨f, hfS, hf⟩ := exists_firstInvalid p (Oram.ofMem p (memFetched p id r1 r2 m))
  have hread' : op = .read → accessIsNew p id r1 r2 m = false := by
    intro hop
    rw [hnew, hread hop]
    rfl
  have hscan := memScanned_scanned op r1 r2 m hread' hf
  have hfroom : accessIsNew p id r1 r2 m = true → f < p.stashSize := by
    intro hn
    rw [hnew, decide_eq_true_eq] at hn
    obtain ⟨g, hg, hvg⟩ := memFetched_room r1 r2 m h hid hn (hroom hn)
    by_contra hge
    exact hf.1 g (by omega) hg hvg
  set o := Oram.ofMem p m
  set o₂ := Oram.ofMem p (memFetched p id r1 r2 m)
  set o₃ := Oram.ofMem p (memScanned p op id r1 r2 m)
  have hbuf₂ : o₂.buffer = o.buffer := by rw [hfetch.buffer, hbuffer]
  have hentry₃ : ∀ i < p.numRealBlocks, posLabel (o₃.entry i) =
      if i = id then genRandLeaf p r2 else posLabel (o.entry i) := by
    intro i hi
    rw [hscan.entry, hfetch.entry]
    exact hlabel i hi
  -- the blocks of the tree are not those of `id`
  have htree₃ : o₃.treeBlocks p =
      (o₂.treeBlocks p).map fun b => b.access op id (genRandLeaf p r2) o.buffer := by
    rw [Oram.treeBlocks, Oram.treeBlocks, ← Multiset.coe_mapAddMonoidHom, map_sum, hscan.tree]
    refine Finset.sum_congr rfl fun t ht => ?_
    rw [Multiset.coe_mapAddMonoidHom, TreeBlock.block]
    split
    · rfl
    · rename_i hv
      have hne := tree_id_ne r1 r2 m h hid (Finset.mem_range.mp ht) hv hfetch
      rw [Multiset.map_singleton, Block.access, if_neg hne]
  rw [Oram.blocks, htree₃, stashBlocks_scanned p hscan hf hfroom, hbuf₂, add_right_comm,
    ← Multiset.map_add, ← Oram.blocks, memFetched_blocks r1 r2 m h hid,
    ← writtenBlocks_access p o.buffer hid hread hentry₃, hnew]
  simp only [decide_eq_true_eq]
  rfl

lemma memScanned_cleared (h : (Oram.ofMem p m).Refines p σ) (hid : id < p.numRealBlocks)
    (hread : op = .read → (σ id).isSome = true)
    (hroom : (σ id).isSome = false → HasRoom p r1 (Oram.ofMem p m)) :
    (Oram.ofMem p (memScanned p op id r1 r2 m)).Cleared p (accessLeaf p id r1 r2 m)
      (σ.access op id (Oram.ofMem p m).buffer) := by
  obtain ⟨hnew, hleaf, -, hlabel, hvalid⟩ := retrieve_refines r1 r2 m h hid
  obtain ⟨hslot, htree, hbuffer⟩ := retrieve_frame p id r1 r2 m
  have hfetch := memFetched_fetched r1 r2 m h hid
  obtain ⟨f, hfS, hf⟩ := exists_firstInvalid p (Oram.ofMem p (memFetched p id r1 r2 m))
  have hread' : op = .read → accessIsNew p id r1 r2 m = false := by
    intro hop
    rw [hnew, hread hop]
    rfl
  have hscan := memScanned_scanned op r1 r2 m hread' hf
  have hsome : ∀ i < p.numRealBlocks, (decide (i = id) || (σ i).isSome) =
      ((σ.access op id (Oram.ofMem p m).buffer) i).isSome := by
    intro i _
    unfold ArrayState.access
    cases op with
    | read =>
      by_cases hi : i = id
      · subst hi
        simp [hread rfl]
      · simp [hi]
    | write =>
      by_cases hi : i = id
      · subst hi
        simp
      · simp [hi]
  have hflags₂ : ∀ i < p.stashSize,
      ((Oram.ofMem p (memFetched p id r1 r2 m)).slot i).valid = 0 ∨
        ((Oram.ofMem p (memFetched p id r1 r2 m)).slot i).valid = 1 := by
    intro i hi
    by_cases hip : i < p.depth * p.bucketSize
    · rw [hfetch.flags i hip, htree]
      exact h.flagsTree _ (pathPos_lt hleaf hip)
    · rw [hfetch.slots i (by omega), hslot]
      exact h.flags i hi
  have htree₃ : ∀ t, ((Oram.ofMem p (memScanned p op id r1 r2 m)).tree t).valid ≠ 0 →
      (Oram.ofMem p (memScanned p op id r1 r2 m)).tree t = (Oram.ofMem p m).tree t := by
    intro t hv
    rw [hscan.tree] at hv ⊢
    rw [hfetch.tree t fun q hq heq => hv (by rw [heq]; exact hfetch.cleared q hq), htree]
  refine ⟨memScanned_blocks op r1 r2 m h hid hread hroom, fun i hi => ?_, fun i hi hv => ?_,
    fun q hq => ?_, fun t ht hv => ?_, fun i hi => ?_, fun t ht => ?_⟩
  · rw [hscan.entry, hfetch.entry, hvalid i hi, hsome i hi]
  · rw [hscan.entry, hfetch.entry, hvalid i hi] at hv
    rw [hscan.entry, hfetch.entry, hlabel i hi]
    split
    · exact genRandLeaf_lt p r2
    · rename_i hne
      refine h.labels i hi ?_
      rw [h.written i hi]
      simpa [hne] using hv
  · rw [hscan.tree]
    exact hfetch.cleared q hq
  · have hsame := htree₃ t hv
    rw [hsame] at hv ⊢
    exact h.onWalk t ht hv
  · rw [hscan.slots, if_pos hi]
    exact scan_flag _ _ _ _ _ _ (hflags₂ i hi)
  · by_cases hv : ((Oram.ofMem p (memScanned p op id r1 r2 m)).tree t).valid = 0
    · exact .inl hv
    · rw [htree₃ t hv]
      exact h.flagsTree t ht

lemma memScanned_read (h : (Oram.ofMem p m).Refines p σ) (hid : id < p.numRealBlocks)
    {d : List ℤ} (hσ : σ id = some d) :
    (Oram.ofMem p (memScanned p .read id r1 r2 m)).buffer = d := by
  obtain ⟨hnew, -, -⟩ := retrieve_refines r1 r2 m h hid
  have hfetch := memFetched_fetched r1 r2 m h hid
  obtain ⟨f, hfS, hf⟩ := exists_firstInvalid p (Oram.ofMem p (memFetched p id r1 r2 m))
  have hscan := memScanned_scanned .read r1 r2 m (fun _ => by rw [hnew, hσ]; rfl) hf
  set o₂ := Oram.ofMem p (memFetched p id r1 r2 m)
  have hblocks₂ : o₂.blocks p = writtenBlocks p _ σ := memFetched_blocks r1 r2 m h hid
  obtain ⟨x, hx, hmem, huniq⟩ := exists_unique_place p hblocks₂ hid hσ
  have hcontent : ∀ j, (o₂.slot j).holds id = true →
      ∃ b ∈ o₂.content (.inl j), b.id = (id : ℤ) := by
    intro j hj
    simp only [Slot.holds, Bool.and_eq_true, decide_eq_true_eq] at hj
    exact ⟨_, mem_slot_block.mpr ⟨hj.2, rfl⟩, hj.1⟩
  cases x with
  | inr t =>
    -- the tree has no block of `id` after the fetch
    obtain ⟨hv, hb⟩ := mem_tree_block.mp hmem
    rw [Block.mk.injEq] at hb
    exact absurd hb.1.symm (tree_id_ne r1 r2 m h hid ((inr_mem_places p).mp hx) hv hfetch)
  | inl k =>
    have hk := (inl_mem_places p).mp hx
    obtain ⟨hv, hb⟩ := mem_slot_block.mp hmem
    rw [Block.mk.injEq] at hb
    have honly : ∀ j < p.stashSize, (o₂.slot j).holds id = true ↔ j = k := by
      intro j hj
      constructor
      · intro hh
        exact Sum.inl.inj (huniq (.inl j) ((inl_mem_places p).mpr hj) (hcontent j hh))
      · rintro rfl
        simp only [Slot.holds, Bool.and_eq_true, decide_eq_true_eq]
        exact ⟨hb.1.symm, hv⟩
    rw [hscan.read rfl k honly, if_pos hk]
    exact hb.2.2.symm

lemma Oram.Cleared.refines {leaf : ℕ} {o o' : Oram} (h : o.Cleared p leaf σ)
    (hs : Stored p leaf o o') : o'.Refines p σ := by
  refine ⟨?_, ?_, ?_, fun t ht hv => ?_, hs.cleared, hs.flags, fun t ht => ?_⟩
  · rw [hs.blocks, hs.entry]
    exact h.blocks
  · rw [hs.entry]
    exact h.written
  · rw [hs.entry]
    exact h.labels
  · by_cases hon : ∃ q < p.depth * p.bucketSize, t = pathPos p leaf q
    · obtain ⟨q, hq, rfl⟩ := hon
      refine ⟨q / p.bucketSize, p.level_lt hq, ?_⟩
      rw [pathPos_div, (hs.onPath q hq hv).2]
    · have hsame := hs.tree t fun q hq heq => hon ⟨q, hq, heq⟩
      rw [hsame] at hv ⊢
      exact h.onWalk t ht hv
  · by_cases hon : ∃ q < p.depth * p.bucketSize, t = pathPos p leaf q
    · obtain ⟨q, hq, rfl⟩ := hon
      exact hs.flagsTree q hq
    · rw [hs.tree t fun q hq heq => hon ⟨q, hq, heq⟩]
      exact h.flagsTree t ht

lemma Oram.Cleared.slot_leaf {leaf : ℕ} {o : Oram} (h : o.Cleared p leaf σ) {i : ℕ}
    (hi : i < p.stashSize) (hv : (o.slot i).valid ≠ 0) :
    ∃ a < p.numLeaves, (o.slot i).leaf = (a : ℤ) := by
  have hmem : (⟨(o.slot i).id, (o.slot i).leaf, (o.slot i).data⟩ : Block) ∈ o.blocks p :=
    (mem_blocks p).mpr ⟨.inl i, (inl_mem_places p).mpr hi, mem_slot_block.mpr ⟨hv, rfl⟩⟩
  rw [h.blocks] at hmem
  obtain ⟨j, hj, d, hσ, hb⟩ := (mem_writtenBlocks p).mp hmem
  rw [Block.mk.injEq] at hb
  refine ⟨posLabel (o.entry j), h.labels j hj ?_, hb.2.1⟩
  rw [h.written j hj, hσ]
  rfl

/-- An access that does not overflow the stash is the access of the array: a read of an id that
was never written stops, everything else returns and keeps the refinement. -/
theorem access_refines (h : (Oram.ofMem p m).Refines p σ) (hid : id < p.numRealBlocks)
    (hfit : (accessOram p op id r1 r2 m).2.isSome = true → NoOverflow p op id r1 r2 m) :
    if op = .read ∧ σ id = none then (accessOram p op id r1 r2 m).2 = none
    else ∃ m', (accessOram p op id r1 r2 m).2 = some m' ∧
      (Oram.ofMem p m').Refines p (σ.access op id (Oram.ofMem p m).buffer) ∧
      (op = .write → (Oram.ofMem p m').buffer = (Oram.ofMem p m).buffer) ∧
      (op = .read → σ id = some (Oram.ofMem p m').buffer) := by
  obtain ⟨hnew, hleaf, -, -, -⟩ := retrieve_refines r1 r2 m h hid
  have hstop : (op = .read ∧ accessIsNew p id r1 r2 m = true) ↔ (op = .read ∧ σ id = none) := by
    rw [hnew, decide_eq_true_eq, Option.isSome_eq_false_iff, Option.isNone_iff_eq_none]
  have heq := accessOram_eq p op id r1 r2 m hid
  by_cases hcase : op = .read ∧ σ id = none
  · rw [if_pos hcase, heq, if_pos (hstop.mpr hcase)]
  rw [if_neg hcase]
  rw [if_neg (fun hh => hcase (hstop.mp hh))] at heq
  have hread : op = .read → (σ id).isSome = true := by
    intro hop
    by_contra hnone
    exact hcase ⟨hop, by simpa using hnone⟩
  obtain ⟨store, hstore, hstored⟩ := storeBlocks_stored p hleaf
  rw [hstore, Option.map_some] at heq
  obtain ⟨hfresh, hstay⟩ := hfit (by rw [heq]; rfl)
  have hroom : (σ id).isSome = false → HasRoom p r1 (Oram.ofMem p m) := by
    intro hnone
    have hop : op = .write := by
      cases op with
      | write => rfl
      | read => rw [hread rfl] at hnone; exact absurd hnone (by decide)
    exact hfresh hop (by rw [h.written id hid]; exact hnone)
  have hcleared := memScanned_cleared op r1 r2 m h hid hread hroom
  have hs := hstored (memScanned p op id r1 r2 m) hcleared.cleared hcleared.flags
    (fun i hi hv => hcleared.slot_leaf hi hv) hstay
  refine ⟨_, heq, hcleared.refines hs, fun hop => ?_, fun hop => ?_⟩
  · subst hop
    obtain ⟨f, -, hf⟩ := exists_firstInvalid p (Oram.ofMem p (memFetched p id r1 r2 m))
    have hscan := memScanned_scanned .write r1 r2 m (fun hop => by cases hop) hf
    obtain ⟨-, -, hbuffer⟩ := retrieve_frame p id r1 r2 m
    rw [hs.buffer, hscan.written rfl, (memFetched_fetched r1 r2 m h hid).buffer, hbuffer]
  · subst hop
    obtain ⟨d, hσ⟩ := Option.isSome_iff_exists.mp (hread rfl)
    rw [hs.buffer, memScanned_read r1 r2 m h hid hσ]
    exact hσ

end Access

end OISA.Primitives
